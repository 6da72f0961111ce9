import Overlay.Hcl.Body
import Overlay.ValueType.Basic

/-!
# Types from expressions

A type is written as an expression: a keyword, or a call of a constructor with one argument.

* `ValueType.ofExpr` reads a type off a tree, or says where the tree is no type.
* `ValueType.parse` reads a whole text.
-/

namespace Overlay

open Hcl (Expr Entry Key Located)

/-- Why an expression is no type. -/
inductive TypeFault where
  /-- The name is no keyword for a type. -/
  | unknownKeyword (name : String)
  /-- The expression is neither a keyword nor a call. -/
  | noType
  /-- The name is no type constructor. -/
  | unknownConstructor (name : String)
  /-- The constructor has not exactly one argument. -/
  | argumentCount (name : String)
  | notTypeList
  | notTypeObject
  /-- The name of an attribute is neither a name nor a string. -/
  | attributeName
deriving DecidableEq, Repr

namespace TypeFault

/-- The sentences. -/
def detail : TypeFault → String
  | unknownKeyword name =>
    s!"The keyword {Text.inspect name} is not a valid type specification."
  | noType =>
    "A type specification is either a primitive type keyword (bool, number, string) " ++
      "or a complex type constructor call, like list(string)."
  | unknownConstructor name => s!"Keyword {Text.inspect name} is not a valid type constructor."
  | argumentCount name =>
    s!"The {name} type constructor requires one argument specifying the element type."
  | notTypeList => "The tuple type constructor requires a list of element types."
  | notTypeObject => "The object type constructor requires an object of attribute types."
  | attributeName => "Object type attribute names must be identifiers or strings."

/-- The diagnostic of an expression that is no type. -/
def diagnostic (filename : String) (f : Located TypeFault) : Diagnostic :=
  (Diagnostic.error .unsupportedConstruct "Invalid type specification" f.item.detail).about
    (f.span.within filename)

end TypeFault

namespace ValueType

/-- The type of a keyword. -/
def ofKeyword? : String → Option ValueType
  | "any" => some any
  | "string" => some string
  | "number" => some number
  | "bool" => some bool
  | "list" => some (list any)
  | "set" => some (set any)
  | "map" => some (map any)
  | _ => none

/-- Whether the name is one of a type constructor. -/
def isConstructor (name : String) : Bool :=
  name == "list" || name == "set" || name == "map" || name == "tuple" || name == "object"

/-- The name of an attribute of an object type. -/
def attributeName? : Key → Option String
  | .path t => if t.isBare then some t.root else none
  | .expr (.string s _) => some s
  | .expr _ => none

/-- The type that an expression writes. -/
def ofExpr : Expr → Except (Located TypeFault) ValueType
  | .parens inner _ => ofExpr inner
  | .traversal t =>
    if t.isBare then
      match ofKeyword? t.root with
      | some type => .ok type
      | none => .error ⟨.unknownKeyword t.root, t.span⟩
    else .error ⟨.noType, t.span⟩
  | .call name arguments span =>
    if !isConstructor name then .error ⟨.unknownConstructor name, span⟩
    else
      match arguments with
      | [argument] =>
        if name = "list" then (ofExpr argument).map list
        else if name = "set" then (ofExpr argument).map set
        else if name = "map" then (ofExpr argument).map map
        else if name = "tuple" then
          match argument with
          | .tuple items _ => (ofItems items).map tuple
          | other => .error ⟨.notTypeList, other.span⟩
        else
          match argument with
          | .object entries _ => (ofEntries [] entries).map object
          | other => .error ⟨.notTypeObject, other.span⟩
      | _ => .error ⟨.argumentCount name, span⟩
  | other => .error ⟨.noType, other.span⟩
where
  /-- The types that the items write. -/
  ofItems : List Expr → Except (Located TypeFault) (List ValueType)
  | [] => .ok []
  | x :: xs => do
    let t ← ofExpr x
    let ts ← ofItems xs
    return t :: ts
  /-- The types that the entries write, added to those of the entries in front. -/
  ofEntries (types : Dict ValueType) : List Entry → Except (Located TypeFault) (Dict ValueType)
  | [] => .ok types
  | .mk key value :: rest =>
    match attributeName? key with
    | none => .error ⟨.attributeName, key.span⟩
    | some name => do
      let t ← ofExpr value
      ofEntries (types.insert name t) rest

/-- The type that a text writes, or what is wrong with the text. -/
def parse (text filename : String) : Except Diagnostics ValueType :=
  let x := Expr.parse text filename
  if x.diagnostics.hasErrors then .error x.diagnostics
  else
    match ofExpr x.tree with
    | .ok t => .ok t
    | .error f => .error (x.diagnostics ++ [TypeFault.diagnostic filename f])

end ValueType

end Overlay
