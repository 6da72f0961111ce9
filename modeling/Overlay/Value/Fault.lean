import Overlay.Text.Inspect
import Overlay.ValueType.Basic

/-!
# What can be wrong with a value

A value that does not convert fails at a place inside it: `ValueFault` has the path to that place,
from the outside in, and the cause.
-/

namespace Overlay

/-- A step into a value. -/
inductive PathStep where
  /-- To an attribute that the type of an object names. -/
  | member (name : String)
  /-- To the value under a key of a dictionary. -/
  | key (k : String)
  /-- To an item of a sequence. -/
  | index (i : Nat)
deriving DecidableEq, Repr

/-- How messages call a step. -/
def PathStep.describe : PathStep → String
  | .member name => s!"attribute {Text.inspect name}"
  | .key k => s!"element {Text.inspect k}"
  | .index i => s!"element {i}"

/-- Why a value does not convert. -/
inductive ConversionFault where
  /-- The value is of a kind that never converts to the type. -/
  | required (type : ValueType)
  /-- The text writes no number. -/
  | numberText
  /-- The text is neither `true` nor `false`. -/
  | boolText
  /-- The sequence has not as many items as the tuple. -/
  | tupleLength (length : Nat)
  /-- The object lacks the attribute. -/
  | missingAttribute (name : String)
  /-- The value is unknown. -/
  | unknown
  /-- The host says why. -/
  | stated (message : String)
deriving DecidableEq, Repr

/-- The text of a cause. -/
def ConversionFault.message : ConversionFault → String
  | required type => s!"{type.friendlyName} required"
  | numberText => "a number is required"
  | boolText => "a bool is required"
  | tupleLength length => s!"tuple with {length} elements required"
  | missingAttribute name => s!"attribute {Text.inspect name} is required"
  | unknown => "value is not yet known"
  | stated message => message

/-- A problem with a value. -/
inductive ValueFault where
  | conversion (path : List PathStep) (cause : ConversionFault)
  /-- The text writes no number. -/
  | invalidNumber (text : String)
deriving DecidableEq, Repr

namespace ValueFault

/-- A problem with the value itself. -/
def here (cause : ConversionFault) : ValueFault := conversion [] cause

/-- The problem as seen from the value that the step leads out of. -/
def within (step : PathStep) : ValueFault → ValueFault
  | conversion path cause => conversion (step :: path) cause
  | invalidNumber text => invalidNumber text

/-- The full text: the path, if there is one, and the cause. -/
def message : ValueFault → String
  | conversion path cause =>
    if path.isEmpty then cause.message
    else ", ".intercalate (path.map PathStep.describe) ++ ": " ++ cause.message
  | invalidNumber text => s!"Invalid number literal {Text.inspect text}"

end ValueFault

end Overlay
