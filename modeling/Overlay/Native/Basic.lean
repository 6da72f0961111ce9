import Overlay.Json.Basic
import Overlay.Value.Fault
import Overlay.Value.Basic

/-!
# Native values

Values as templates see them.

* `Value.toNative` needs everything in a value to be known. Integers of 64 bits stay integers, all
  other numbers become floating-point numbers.
* `NativeValue.text` is what a template prints: nothing for an absent value, JSON for collections.
* `NativeValue.toValue` goes back; it makes tuples and objects.
-/

namespace Overlay

open Numeric (Number Binary64 Layout)

/-- A value as templates see it. -/
inductive NativeValue where
  | absent
  | bool (b : Bool)
  | int (n : Int64)
  | float (x : Binary64)
  | string (s : String)
  | seq (items : List NativeValue)
  | map (entries : List (String × NativeValue))
  | handle (c : Capsule)
deriving Inhabited

/-- The native form of a number. -/
def NativeValue.ofNumber (n : Number) : NativeValue :=
  match n.toInt64? with
  | some i => .int i
  | none => .float n.toBinary64

/-- The native form of a value, or where it is unknown. -/
def Value.toNative : Value → Except ValueFault NativeValue
  | null => .ok .absent
  | unknown => .error (.here .unknown)
  | bool b => .ok (.bool b)
  | number n => .ok (.ofNumber n)
  | string s => .ok (.string s)
  | list items | set items | tuple items => (toNativeItems 0 items).map .seq
  | map entries | object entries => (toNativeEntries entries).map .map
  | capsule c => .ok (.handle c)
where
  /-- The native forms of the items, the first of which is at `index`. -/
  toNativeItems (index : Nat) : List Value → Except ValueFault (List NativeValue)
  | [] => .ok []
  | v :: vs => do
    let w ← v.toNative.mapError (.within (.index index))
    let ws ← toNativeItems (index + 1) vs
    return w :: ws
  /-- The native forms of the values under all keys. -/
  toNativeEntries : List (String × Value) → Except ValueFault (Dict NativeValue)
  | [] => .ok []
  | (k, v) :: rest => do
    let w ← v.toNative.mapError (.within (.key k))
    let ws ← toNativeEntries rest
    return (k, w) :: ws

namespace NativeValue

/-- Whether there is no value. -/
def isAbsent : NativeValue → Bool
  | absent => true
  | _ => false

/-- The text of a string. -/
def string? : NativeValue → Option String
  | string s => some s
  | _ => none

/-- The entries of a map. -/
def entries? : NativeValue → Option (Dict NativeValue)
  | map entries => some entries
  | _ => none

/-- The value under a key of a map. -/
def get? (key : String) (v : NativeValue) : Option NativeValue := v.entries?.bind (Dict.find? key)

/-- A native value as a JSON document. Floating-point numbers that are not finite become `null`. -/
def toJson : NativeValue → Json
  | absent => .null
  | bool b => .bool b
  | int n => .integer n.toInt
  | float x => if x.isNaN || x.isInfinite then .null else .float x
  | string s => .string s
  | seq items => .array (toJsonItems items)
  | map entries => .object (toJsonEntries entries)
  | handle c => .string c.render
where
  /-- The items as JSON documents. -/
  toJsonItems : List NativeValue → List Json
  | [] => []
  | v :: vs => v.toJson :: toJsonItems vs
  /-- The values under all keys as JSON documents. -/
  toJsonEntries : List (String × NativeValue) → Dict Json
  | [] => []
  | (k, v) :: vs => (k, v.toJson) :: toJsonEntries vs

/-- What a template prints for a native value. -/
def text (v : NativeValue) : String :=
  match v with
  | absent => ""
  | bool b => if b then "true" else "false"
  | int n => toString n.toInt
  | float x => Layout.plain.render x
  | string s => s
  | seq _ | map _ => v.toJson.render
  | handle c => c.render

/-- A native value as a value. -/
def toValue : NativeValue → Value
  | absent => .null
  | bool b => .bool b
  | int n => .number (.ofInt64 n)
  | float x => ((Number.ofBinary64? x).map .number).getD .null
  | string s => .string s
  | seq items => .tuple (toValueItems items)
  | map entries => .object (toValueEntries entries)
  | handle c => .capsule c
where
  /-- The items as values. -/
  toValueItems : List NativeValue → List Value
  | [] => []
  | v :: vs => v.toValue :: toValueItems vs
  /-- The native values under all keys as values. -/
  toValueEntries : List (String × NativeValue) → Dict Value
  | [] => []
  | (k, v) :: vs => (k, v.toValue) :: toValueEntries vs

/-- Equality as the host compares: floating-point numbers as numbers, handles by identity. -/
def equal : NativeValue → NativeValue → Bool
  | absent, absent => true
  | bool a, bool b => a == b
  | int a, int b => a == b
  | float a, float b => a.equal b
  | string a, string b => a == b
  | seq a, seq b => equalItems a b
  | map a, map b => equalEntries a b
  | handle a, handle b => decide (a = b)
  | _, _ => false
where
  /-- Equality of sequences. -/
  equalItems : List NativeValue → List NativeValue → Bool
  | [], [] => true
  | a :: as, b :: bs => a.equal b && equalItems as bs
  | _, _ => false
  /-- Equality of maps. -/
  equalEntries : List (String × NativeValue) → List (String × NativeValue) → Bool
  | [], [] => true
  | (k, a) :: as, (l, b) :: bs => k == l && a.equal b && equalEntries as bs
  | _, _ => false

end NativeValue

end Overlay
