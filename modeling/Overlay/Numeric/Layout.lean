import Overlay.Numeric.Shortest

/-!
# Texts of floating-point numbers

`Layout` holds the decisions of one way of writing floating-point numbers; `Layout.render` writes
the shortest decimal of a number in that way.
-/

namespace Overlay.Numeric

/-- How floating-point numbers are written. A number is positional when the power of ten of its
first digit lies between `lowest` and `highest`, where these are set. -/
structure Layout where
  lowest : Option Int
  highest : Option Int
  /-- Whether integers get a point and a zero. -/
  pointZero : Bool
  /-- Whether a positive exponent has a sign. -/
  plusSign : Bool
  infinity : String
  nan : String
deriving Repr

namespace Layout

/-- Always positional, with neither a point nor an exponent on integers. -/
def plain : Layout := ⟨none, none, false, false, "inf", "NaN"⟩

/-- Positional from 0.00001 up to sixteen digits, integers with a point; JSON has no text for what
is not finite. -/
def json : Layout := ⟨some (-5), some 15, true, true, "null", "null"⟩

/-- Whether a number whose first digit stands for `10 ^ top` is positional. -/
def positional (l : Layout) (top : Int) : Bool :=
  (l.lowest.all (· ≤ top)) && l.highest.all (top ≤ ·)

/-- The digits with a point so that the first one stands for `10 ^ top`. -/
def place (l : Layout) (ds : List Char) (top : Int) : List Char :=
  let before := (top + 1).toNat
  if top < 0 then '0' :: '.' :: List.replicate (-top - 1).toNat '0' ++ ds
  else if ds.length ≤ before then
    ds ++ List.replicate (before - ds.length) '0' ++ if l.pointZero then ['.', '0'] else []
  else ds.take before ++ '.' :: ds.drop before

/-- The digits with an exponent so that the first one stands for `10 ^ top`. -/
def scientific (l : Layout) (ds : List Char) (top : Int) : List Char :=
  let fraction := match ds.drop 1 with
    | [] => []
    | rest => '.' :: rest
  let sign := if top < 0 then ['-'] else if l.plusSign then ['+'] else []
  ds.take 1 ++ fraction ++ 'e' :: sign ++ digits top.natAbs

/-- The text of a number. -/
def render (l : Layout) (x : Binary64) : String :=
  let sign := if x.negative then "-" else ""
  if x.isNaN then l.nan
  else if x.isInfinite then sign ++ l.infinity
  else
    let d := Shortest.ofMagnitude x
    let ds := digits d.digits
    let top := d.exponent + ds.length - 1
    sign ++ String.ofList (if l.positional top then l.place ds top else l.scientific ds top)

end Layout

end Overlay.Numeric
