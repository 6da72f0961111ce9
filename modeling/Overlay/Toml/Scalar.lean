import Overlay.Json.Basic
import Overlay.Numeric.FloatText
import Overlay.Toml.Quoted

/-!
# Numbers and dates of TOML

* Integers fit in 64 bits; digits may be grouped by single underscores.
* Floating-point numbers have a fraction or an exponent. Those that are not finite have no place in
  other documents and become `null` there.
* Dates and times are checked by the calendar. In other documents they are an object with one
  member, their text. A string that holds a date may have an hour more, and a wider offset.
-/

namespace Overlay.Toml

open Numeric (Binary64 FitsInt64)
open Numeric.Binary64 (DecimalText)

/-! ## Numbers -/

/-- Whether `c` is a decimal digit. -/
def isDigit (c : Char) : Bool := '0' ≤ c && c ≤ '9'

/-- Reads digits with single underscores between them; `expected` says that a digit has to come. -/
def readDigits (test : Char → Bool) (expected : Bool) : List Char → Option (List Char × List Char)
  | [] => if expected then none else some ([], [])
  | c :: cs =>
    if test c then (readDigits test false cs).map fun (ds, rest) => (c :: ds, rest)
    else if expected then none
    else if c = '_' then readDigits test true cs
    else some ([], c :: cs)

/-- Reads the digits of a decimal integer: no zero in front of others. -/
def readWhole : List Char → Option (List Char × List Char)
  | '0' :: cs => some (['0'], cs)
  | cs => readDigits isDigit true cs

/-- Reads an exponent, which may be missing. -/
def readExponent (cs : List Char) : Option (Option Int × List Char) :=
  match cs with
  | c :: cs =>
    if c = 'e' ∨ c = 'E' then do
      let (negative, cs) := Binary64.splitSign cs
      let (ds, cs) ← readDigits isDigit true cs
      return (some (if negative then -(Numeric.value ds : Int) else Numeric.value ds), cs)
    else some (none, c :: cs)
  | [] => some (none, [])

/-- Reads a fraction, which may be missing. -/
def readFraction : List Char → Option (Option (List Char) × List Char)
  | '.' :: cs => (readDigits isDigit true cs).map fun (ds, cs) => (some ds, cs)
  | cs => some (none, cs)

/-- The document of an integer. -/
def integer? (n : Int) : Option Json := if FitsInt64 n then some (.integer n) else none

/-- The document of a floating-point number. Positive numbers that are too great are refused. -/
def float? (x : Binary64) : Option Json :=
  if x.isInfinite then if x.negative then some .null else none else some (.float x)

/-- Reads the digits of an integer in another base than ten. -/
def readRadix (base : Nat) (cs : List Char) : Option (Json × List Char) := do
  let test (c : Char) : Bool := (hexValue? c).any (· < base)
  let (ds, cs) ← readDigits test true cs
  let values ← ds.mapM hexValue?
  return (← integer? (values.foldl (fun n d => base * n + d) 0 : Nat), cs)

/-- Reads a number in base ten behind its sign. -/
def readDecimal (negative : Bool) (cs : List Char) : Option (Json × List Char) := do
  let (whole, cs) ← readWhole cs
  let (fraction, cs) ← readFraction cs
  let (exponent, cs) ← readExponent cs
  match fraction, exponent with
  | none, none =>
    let n : Int := Numeric.value whole
    return (← integer? (if negative then -n else n), cs)
  | _, _ =>
    let text : DecimalText := ⟨negative, whole, fraction.getD [], exponent.getD 0⟩
    return (← float? (.ofText text), cs)

/-- Reads a number. -/
def readNumber : List Char → Option (Json × List Char)
  | '0' :: 'x' :: cs => readRadix 16 cs
  | '0' :: 'o' :: cs => readRadix 8 cs
  | '0' :: 'b' :: cs => readRadix 2 cs
  | cs =>
    let (negative, cs) := Binary64.splitSign cs
    match cs with
    | 'i' :: 'n' :: 'f' :: cs => some (.null, cs)
    | 'n' :: 'a' :: 'n' :: cs => some (.null, cs)
    | cs => readDecimal negative cs

/-! ## Dates and times -/

/-- Reads a number of exactly `count` digits that lies between two bounds. -/
def readField (count least greatest : Nat) (cs : List Char) : Option (Nat × List Char) :=
  let ds := cs.take count
  let n := Numeric.value ds
  if ds.length = count ∧ ds.all isDigit ∧ least ≤ n ∧ n ≤ greatest then some (n, cs.drop count)
  else none

/-- Reads one given character. -/
def readMark (mark : Char) : List Char → Option (List Char)
  | [] => none
  | c :: cs => if c = mark then some cs else none

/-- Whether a year has a leap day. -/
def isLeapYear (year : Nat) : Bool := year % 4 == 0 && (year % 100 != 0 || year % 400 == 0)

/-- How many days a month has. -/
def daysOfMonth (year month : Nat) : Nat :=
  if month = 2 then if isLeapYear year then 29 else 28
  else if month ∈ [4, 6, 9, 11] then 30
  else 31

/-- A number in at least `count` digits. -/
def padded (count n : Nat) : String :=
  let ds := Numeric.digits n
  String.ofList (List.replicate (count - ds.length) '0' ++ ds)

/-- Reads a date as its text. -/
def readDate (cs : List Char) : Option (String × List Char) := do
  let (year, cs) ← readField 4 0 9999 cs
  let cs ← readMark '-' cs
  let (month, cs) ← readField 2 1 12 cs
  let cs ← readMark '-' cs
  let (day, cs) ← readField 2 1 (daysOfMonth year month) cs
  return (padded 4 year ++ "-" ++ padded 2 month ++ "-" ++ padded 2 day, cs)

/-- The fraction of a second in nanoseconds, without zeros at its end; further digits are cut. -/
def fractionText (ds : List Char) : String :=
  match ((ds.take 9).reverse.dropWhile (· = '0')).reverse with
  | [] => ""
  | kept => "." ++ String.ofList kept

/-- Reads the fraction of a second, which may be missing, as its text. -/
def readSecondFraction (cs : List Char) : String × List Char :=
  match cs with
  | '.' :: rest =>
    match rest.takeWhile isDigit with
    | [] => ("", cs)
    | ds => (fractionText ds, rest.dropWhile isDigit)
  | _ => ("", cs)

/-- How great the numbers of a time may be. -/
structure TimeLimits where
  hour : Nat
  offsetHour : Nat
  offsetMinute : Nat

/-- The limits of a time in a document. -/
def TimeLimits.literal : TimeLimits := ⟨23, 23, 59⟩

/-- The limits of a time in a string. -/
def TimeLimits.quoted : TimeLimits := ⟨24, 99, 99⟩

/-- Reads a time as its text. -/
def readTime (limits : TimeLimits) (cs : List Char) : Option (String × List Char) := do
  let (hour, cs) ← readField 2 0 limits.hour cs
  let cs ← readMark ':' cs
  let (minute, cs) ← readField 2 0 59 cs
  let cs ← readMark ':' cs
  let (second, cs) ← readField 2 0 60 cs
  let (fraction, cs) := readSecondFraction cs
  return (padded 2 hour ++ ":" ++ padded 2 minute ++ ":" ++ padded 2 second ++ fraction, cs)

/-- Reads the offset of a time, which may be missing, as its text. It is a day at most. -/
def readOffset (limits : TimeLimits) (cs : List Char) : Option (String × List Char) :=
  match cs with
  | 'Z' :: cs | 'z' :: cs => some ("Z", cs)
  | '+' :: cs => readHours "+" cs
  | '-' :: cs => readHours "-" cs
  | cs => some ("", cs)
where
  /-- Reads hours and minutes behind a sign. No offset at all has a plus sign. -/
  readHours (sign : String) (cs : List Char) : Option (String × List Char) := do
    let (hour, cs) ← readField 2 0 limits.offsetHour cs
    let cs ← readMark ':' cs
    let (minute, cs) ← readField 2 0 limits.offsetMinute cs
    let minutes := 60 * hour + minute
    if minutes > 24 * 60 then none
    else
      let sign := if minutes = 0 then "+" else sign
      return (sign ++ padded 2 (minutes / 60) ++ ":" ++ padded 2 (minutes % 60), cs)

/-- Reads a time and its offset behind a date. -/
def readTimeOfDay (limits : TimeLimits) (cs : List Char) : Option (String × List Char) :=
  match cs with
  | c :: cs =>
    if c = 'T' ∨ c = 't' ∨ c = ' ' then do
      let (time, cs) ← readTime limits cs
      let (offset, cs) ← readOffset limits cs
      return ("T" ++ time ++ offset, cs)
    else none
  | [] => none

/-- Reads a date with or without a time, or a time alone, as its text. -/
def readDateTime (limits : TimeLimits) (cs : List Char) : Option (String × List Char) :=
  match readDate cs with
  | some (date, cs) =>
    match readTimeOfDay limits cs with
    | some (time, cs) => some (date ++ time, cs)
    | none => some (date, cs)
  | none => readTime limits cs

/-- The name of the member that holds the text of a date or time. -/
def dateTimeName : String := "$__toml_private_datetime"

/-! ## Scalars -/

/-- Reads a boolean. -/
def readBool : List Char → Option (Json × List Char)
  | 't' :: 'r' :: 'u' :: 'e' :: cs => some (.bool true, cs)
  | 'f' :: 'a' :: 'l' :: 's' :: 'e' :: cs => some (.bool false, cs)
  | _ => none

/-- Reads a value that is neither an array nor a table. -/
def readScalar (cs : List Char) : Option (Json × List Char) :=
  match cs with
  | '"' :: _ | '\'' :: _ =>
    (readString? cs).map fun (text, cs) => (.string (String.ofList text), cs)
  | 't' :: _ | 'f' :: _ => readBool cs
  | _ =>
    match readDateTime .literal cs with
    | some (text, cs) => some (.object [(dateTimeName, .string text)], cs)
    | none => readNumber cs

end Overlay.Toml
