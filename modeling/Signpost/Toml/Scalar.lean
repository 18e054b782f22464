import Signpost.Number.Binary64
import Signpost.Number.Word
import Signpost.Toml.Table

/-!
The values of TOML that are a single word: truth values, numbers and dates. Digits may be grouped
with underscores, of which each stands between two digits. An integer has 64 bits, and a positive
float has to be finite.
-/

namespace Signpost.Toml

/-- The digits of a base without the underscores between them. -/
def ungroup? (base : Nat) (t : Text) : Option Text :=
  let groups := Text.splitOn '_' t
  if groups.all fun g => !g.isEmpty && g.all fun c =>
    (Text.digitValue? base c).isSome then some groups.flatten else none

/-- The digits of a decimal integer, which does not start with a needless zero. -/
def wholeDigits? (t : Text) : Option Text :=
  if t.head? = some '0' ∧ t ≠ ['0'] then none else ungroup? 10 t

/-- A text without its sign, and whether that is a minus. -/
def unsigned (t : Text) : Bool × Text :=
  match t with
  | '-' :: rest => (true, rest)
  | '+' :: rest => (false, rest)
  | _ => (false, t)

/-- The integer that a word means, of any size. -/
def integer? (t : Text) : Option Int :=
  match t with
  | '0' :: 'x' :: digits => do return ← Text.numberValue? 16 (← ungroup? 16 digits)
  | '0' :: 'o' :: digits => do return ← Text.numberValue? 8 (← ungroup? 8 digits)
  | '0' :: 'b' :: digits => do return ← Text.numberValue? 2 (← ungroup? 2 digits)
  | _ => do
    let (negative, digits) := unsigned t
    let n ← Text.numberValue? 10 (← wholeDigits? digits)
    return if negative then -(n : Int) else n

def exponent? (t : Text) : Option Int := do
  let (negative, digits) := unsigned t
  let n ← Text.decimalValue? (← ungroup? 10 digits)
  return if negative then -(n : Int) else n

/-- A text up to a character, and what follows that if it is there. -/
def splitAt (separator : Char) (t : Text) : Text × Option Text :=
  match Text.cutFirst separator t with
  | some (start, rest) => (start, some rest)
  | none => (t, none)

/-- The parts of a float without a sign: its digits, and its power of ten. It has a fraction or an
exponent. -/
def floatParts? (t : Text) : Option (Nat × Int) := do
  let (mantissa, exponent) := splitAt 'e' (Text.lowerAscii t)
  let (whole, fraction) := splitAt '.' mantissa
  if exponent.isNone && fraction.isNone then none
  else
    let whole ← wholeDigits? whole
    let fraction ← fraction.elim (some []) (ungroup? 10)
    let tens ← exponent.elim (some 0) exponent?
    return (← Text.decimalValue? (whole ++ fraction), tens - fraction.length)

def isFloat (t : Text) : Bool :=
  let (negative, digits) := unsigned t
  digits == "inf".toList || digits == "nan".toList ||
    (floatParts? digits).any fun (n, tens) => negative || (Binary64.ofDecimal? n tens).isSome

def readPair (least greatest : Nat) (t : Text) : Option (Nat × Text) := do
  let n ← Text.decimalValue? (t.take 2)
  if (t.take 2).length = 2 ∧ least ≤ n ∧ n ≤ greatest then some (n, t.drop 2) else none

def daysOf (year month : Nat) : Nat :=
  if month = 2 then if year % 4 = 0 ∧ (year % 100 ≠ 0 ∨ year % 400 = 0) then 29 else 28
  else if month = 4 ∨ month = 6 ∨ month = 9 ∨ month = 11 then 30
  else 31

/-- The text behind a day, as year, month and day with hyphens between them. -/
def skipDay (t : Text) : Option Text := do
  let year ← Text.decimalValue? (t.take 4)
  if (t.take 4).length ≠ 4 then none
  else
    let (month, rest) ← readPair 1 12 (← Text.stripStart? ['-'] (t.drop 4))
    let (_, rest) ← readPair 1 (daysOf year month) (← Text.stripStart? ['-'] rest)
    return rest

def skipMinutes (t : Text) : Option Text := do
  let (_, rest) ← readPair 0 23 t
  let (_, rest) ← readPair 0 59 (← Text.stripStart? [':'] rest)
  return rest

/-- The text behind a time of day, which may have a leap second and a fraction. -/
def skipTime (t : Text) : Option Text := do
  let (_, rest) ← readPair 0 60 (← Text.stripStart? [':'] (← skipMinutes t))
  match rest with
  | '.' :: c :: rest => if c.isDigit then return rest.dropWhile Char.isDigit else none
  | '.' :: [] => none
  | _ => return rest

def isOffset (t : Text) : Bool :=
  match t with
  | [] => true
  | ['Z'] | ['z'] => true
  | '+' :: rest | '-' :: rest => skipMinutes rest == some []
  | _ => false

def isDay (t : Text) : Bool :=
  skipDay t == some []

def isTime (t : Text) : Bool :=
  skipTime t == some []

/-- The text is a day with a time of day after a letter, and an offset if there is one. -/
def isMoment (t : Text) : Bool :=
  match skipDay t with
  | some ('T' :: rest) | some ('t' :: rest) => (skipTime rest).any isOffset
  | _ => false

def wordValue? (t : Text) : Option Value :=
  if t = "true".toList then some (.boolean true)
  else if t = "false".toList then some (.boolean false)
  else if isDay t || isTime t || isMoment t then some (.date t)
  else if isFloat t then some (.float t)
  else (integer? t).bind fun i => if fitsSigned 64 i then some (.integer i) else none

def isWordChar (c : Char) : Bool :=
  c.isAlphanum || c == '+' || c == '-' || c == '.' || c == '_' || c == ':'

/-- Reads a word. A day may be followed by a space and a time of day. -/
def readWord (t : Text) : Option (Value × Text) := do
  let word := t.takeWhile isWordChar
  let rest := t.dropWhile isWordChar
  match isDay word, rest with
  | true, ' ' :: c :: more =>
    if c.isDigit then
      let moment := word ++ 'T' :: (c :: more).takeWhile isWordChar
      if isMoment moment then some (.date moment, (c :: more).dropWhile isWordChar) else none
    else return (← wordValue? word, rest)
  | _, _ => return (← wordValue? word, rest)

end Signpost.Toml
