import Overlay.Value.Basic
import Overlay.Value.Fault

/-!
# Conversion to declared types

`Value.convert` makes a value conform to a type, or says where it does not.

* `null` and unknown values conform to every type, and every value to `any`.
* Primitive values convert through their texts.
* Sequences convert into each other, and so do maps and objects. A set keeps the first of equal
  items; an object needs every declared attribute and keeps no other.
-/

namespace Overlay.Value

open Numeric (Number)

/-- A value as a string. -/
def toStringValue : Value → Except ValueFault Value
  | string s => .ok (string s)
  | bool b => .ok (string (if b then "true" else "false"))
  | number n => .ok (string n.render)
  | _ => .error (.here (.required .string))

/-- A value as a number. -/
def toNumberValue : Value → Except ValueFault Value
  | number n => .ok (number n)
  | string s =>
    match Number.parse? s with
    | some n => .ok (number n)
    | none => .error (.here .numberText)
  | _ => .error (.here (.required .number))

/-- A value as a bool. -/
def toBoolValue : Value → Except ValueFault Value
  | bool b => .ok (bool b)
  | string s =>
    if s = "true" then .ok (bool true)
    else if s = "false" then .ok (bool false)
    else .error (.here .boolText)
  | _ => .error (.here (.required .bool))

/-- The items in order, without those that are equal to one in front. -/
def distinct (items : List Value) : List Value :=
  (items.foldl (fun kept v => if v ∈ kept then kept else v :: kept) []).reverse

/-- Converts every item, the first of which is at `index`. -/
def convertItems (f : Value → Except ValueFault Value) (index : Nat) :
    List Value → Except ValueFault (List Value)
  | [] => .ok []
  | v :: vs => do
    let w ← (f v).mapError (.within (.index index))
    let ws ← convertItems f (index + 1) vs
    return w :: ws

/-- Converts the value under every key. -/
def convertEntries (f : Value → Except ValueFault Value) :
    Dict Value → Except ValueFault (Dict Value)
  | [] => .ok []
  | (k, v) :: rest => do
    let w ← (f v).mapError (.within (.key k))
    let ws ← convertEntries f rest
    return (k, w) :: ws

/-- The items of a sequence, which `type` requires. -/
def requireItems (type : ValueType) (v : Value) : Except ValueFault (List Value) :=
  match v.items? with
  | some items => .ok items
  | none => .error (.here (.required type))

/-- The entries of a dictionary, which `type` requires. -/
def requireEntries (type : ValueType) (v : Value) : Except ValueFault (Dict Value) :=
  match v.entries? with
  | some entries => .ok entries
  | none => .error (.here (.required type))

/-- Whether a value conforms to every type. -/
def isAbsent : Value → Bool
  | null | unknown => true
  | _ => false

/-- Whether a value is a capsule. -/
def isCapsule : Value → Bool
  | capsule _ => true
  | _ => false

/-- The value made to conform to the type. -/
def convert (v : Value) : ValueType → Except ValueFault Value
  | .any => .ok v
  | .string => primitive .string toStringValue
  | .number => primitive .number toNumberValue
  | .bool => primitive .bool toBoolValue
  | .list element => guarded (.list element) do
    let items ← requireItems (.list element) v
    return list (← convertItems (fun item => convert item element) 0 items)
  | .set element => guarded (.set element) do
    let items ← requireItems (.set element) v
    return set (distinct (← convertItems (fun item => convert item element) 0 items))
  | .map element => guarded (.map element) do
    let entries ← requireEntries (.map element) v
    return map (← convertEntries (fun item => convert item element) entries)
  | .tuple elements => guarded (.tuple elements) do
    let items ← requireItems (.tuple elements) v
    if items.length ≠ elements.length then throw (.here (.tupleLength elements.length))
    return tuple (← convertTuple 0 elements items)
  | .object attributes => guarded (.object attributes) do
    let entries ← requireEntries (.object attributes) v
    return object (← convertObject entries attributes)
where
  /-- What every type has in common: absent values conform, capsules do not. -/
  guarded (type : ValueType) (f : Except ValueFault Value) : Except ValueFault Value :=
    if v.isAbsent then .ok v
    else if v.isCapsule then .error (.here (.required type))
    else f
  /-- Conversion to a primitive type. -/
  primitive (type : ValueType) (f : Value → Except ValueFault Value) : Except ValueFault Value :=
    guarded type (f v)
  /-- Converts the items in turn, the first of which is at `index`. -/
  convertTuple (index : Nat) : List ValueType → List Value → Except ValueFault (List Value)
  | t :: ts, item :: items => do
    let w ← (convert item t).mapError (.within (.index index))
    let ws ← convertTuple (index + 1) ts items
    return w :: ws
  | _, _ => .ok []
  /-- Converts the declared attributes in turn. -/
  convertObject (entries : Dict Value) :
    List (String × ValueType) → Except ValueFault (Dict Value)
  | [] => .ok []
  | (name, t) :: rest =>
    match entries.find? name with
    | none => .error (.here (.missingAttribute name))
    | some item => do
      let w ← (convert item t).mapError (.within (.member name))
      let ws ← convertObject entries rest
      return (name, w) :: ws

end Overlay.Value
