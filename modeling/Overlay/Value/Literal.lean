import Overlay.Hcl.Quoted
import Overlay.Text.Alphabetic
import Overlay.Value.Basic

/-!
# Values as literals

A value is written as an expression of the language. What no literal stands for (unknown values,
capsules, infinite numbers) is written as `null`, sequences as tuples and dictionaries as objects.
-/

namespace Overlay.Value

/-- Whether a key is written without quotes: it looks like a name and is no literal. -/
def isBareKey (key : String) : Bool :=
  match key.toList with
  | [] => false
  | c :: cs =>
    (Text.isAlphabetic c || c == '_')
      && cs.all (fun c => Text.isAlphanumeric c || c == '_' || c == '-')
      && !(key == "true" || key == "false" || key == "null")

/-- How a key of an object is written. -/
def literalKey (key : String) : List Char :=
  if isBareKey key then key.toList else Hcl.Quoted.encode key.toList

/-- Parts with a comma and a space between them. -/
def commaSeparated : List (List Char) → List Char
  | [] => []
  | [x] => x
  | x :: y :: rest => x ++ ',' :: ' ' :: commaSeparated (y :: rest)

/-- The characters of a value's literal. -/
def literalChars : Value → List Char
  | null | unknown | capsule _ => "null".toList
  | bool b => (if b then "true" else "false").toList
  | number n => if n.isInfinite then "null".toList else n.render.toList
  | string s => Hcl.Quoted.encode s.toList
  | list items | set items | tuple items => '[' :: commaSeparated (itemLiterals items) ++ [']']
  | map entries | object entries =>
    if entries.isEmpty then ['{', '}']
    else '{' :: ' ' :: commaSeparated (entryLiterals entries) ++ [' ', '}']
where
  /-- The literals of the items. -/
  itemLiterals : List Value → List (List Char)
  | [] => []
  | v :: vs => v.literalChars :: itemLiterals vs
  /-- The entries, each with its key, an equals sign and its literal. -/
  entryLiterals : List (String × Value) → List (List Char)
  | [] => []
  | (key, v) :: vs => (literalKey key ++ ' ' :: '=' :: ' ' :: v.literalChars) :: entryLiterals vs

/-- A value as an expression. -/
def literal (v : Value) : String := String.ofList v.literalChars

end Overlay.Value
