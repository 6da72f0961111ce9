import Overlay.Value.Conversion
import Overlay.Variable.Override

/-!
# Variables

A declared variable with its current value. An override sets type, value and default together, or
changes nothing.
-/

namespace Overlay

/-- A declared variable. Its value conforms to its type. -/
structure Variable where
  name : String
  type : Option ValueType
  default : Option Value
  value : Value
  description : Option String
  range : SourceRange
deriving DecidableEq, Repr

namespace Variable

/-- A variable without a type and a default. -/
def bare (name : String) (range : SourceRange) : Variable := ⟨name, none, none, .null, none, range⟩

/-- Whether a default is declared or an override was applied. -/
def hasDefault (v : Variable) : Bool := v.default.isSome

/-- A value converted to a type; unchanged without a type. -/
def conform (type : Option ValueType) (value : Value) : Except ValueFault Value :=
  match type with
  | some t => value.convert t
  | none => .ok value

/-- The type that a variable has under an override. -/
def typeUnder (v : Variable) (o : Override) : Option ValueType := o.type <|> v.type

/-- The diagnostic of an override that does not convert. Its summary names the type, the value or
both, by what the override would change. -/
def mismatch (v : Variable) (o : Override) (fault : ValueFault) : Diagnostic :=
  let typeChanged := o.type.isSome && o.type ≠ v.type
  let summary :=
    if typeChanged then
      if o.value ≠ v.value then "Invalid type and value for variable"
      else "Invalid type for variable"
    else "Invalid value for variable"
  let typeName := ((v.typeUnder o).map ValueType.friendlyName).getD ""
  ((Diagnostic.error .invalidValueForType summary
    (s!"The value for {Text.inspect v.name} from {o.source.describe} is not compatible with " ++
      s!"the variable's type constraint ({typeName}): {fault.message}.")).about
    o.range).inside v.range

/-- The variable with an override applied, or the diagnostic of a value that does not convert. -/
def applyOverride (v : Variable) (o : Override) : Except Diagnostic Variable :=
  let type := v.typeUnder o
  match conform type o.value with
  | .ok value => .ok { v with type, default := some value, value }
  | .error fault => .error (v.mismatch o fault)

end Variable

end Overlay
