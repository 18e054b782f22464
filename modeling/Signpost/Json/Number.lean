import Signpost.Number.Shortest

/-!
Numbers in JSON. Integers that fit into 64 bits are kept exactly. All others become numbers of
double precision: as many digits as fit into 64 bits, times or over a power of ten, each step
rounded.
-/

namespace Signpost.Json

def maxWord : Nat := wordCount 64 - 1

/-- Digits in front of a text while the number they make fits into 64 bits: the number, how many
there were, and the rest. -/
def readWord (n count : Nat) : Text → Nat × Nat × Text
  | [] => (n, count, [])
  | c :: rest =>
    if c.isDigit then
      let next := n * 10 + (c.toNat - '0'.toNat)
      if next ≤ maxWord then readWord next (count + 1) rest else (n, count, c :: rest)
    else (n, count, c :: rest)

def countDigits (t : Text) : Nat × Text :=
  ((t.takeWhile Char.isDigit).length, t.dropWhile Char.isDigit)

/-- Scales a number by a power of ten, in steps that stay within the range of the powers; `none`
when it becomes too large. -/
def scale? (x : Binary64) : (fuel : Nat) → (tens : Int) → Option Binary64
  | 0, _ => some .zero
  | fuel + 1, tens =>
    if tens.natAbs ≤ 308 then
      if 0 ≤ tens then x.timesPowerOfTen? tens.toNat else x.overPowerOfTen? tens.natAbs
    else if x.significand = 0 then some .zero
    else if 0 < tens then none
    else do scale? (← x.overPowerOfTen? 308) fuel (tens + 308)

def ofParts? (n : Nat) (tens : Int) : Option Binary64 := do
  scale? (← Binary64.ofQuotient? n 1) 10 tens

def maxExponent : Nat := wordCount 31 - 1

def readExponent (n : Nat) (tens : Int) (t : Text) : Option (Binary64 × Text) := do
  let (negative, t) := match t with
    | '+' :: rest => (false, rest)
    | '-' :: rest => (true, rest)
    | _ => (false, t)
  let digits := t.takeWhile Char.isDigit
  let rest := t.dropWhile Char.isDigit
  let e ← Text.decimalValue? digits
  if maxExponent < e then
    if n = 0 ∨ negative then return (.zero, rest) else none
  else return (← ofParts? n (if negative then tens - e else tens + e), rest)

def readTail (n : Nat) (tens : Int) (t : Text) : Option (Binary64 × Text) :=
  match t with
  | 'e' :: rest | 'E' :: rest => readExponent n tens rest
  | _ => (ofParts? n tens).map fun x => (x, t)

def readFraction (n : Nat) (tens : Int) (t : Text) : Option (Binary64 × Text) :=
  let (m, count, rest) := readWord n 0 t
  match t with
  | c :: _ => if c.isDigit then readTail m (tens - count) (rest.dropWhile Char.isDigit) else none
  | [] => none

def readUnsigned (negative : Bool) (t : Text) : Option (Text × Text) := do
  let (n, count, rest) := readWord 0 0 t
  if count = 0 ∨ (t.head? = some '0' ∧ 1 < (countDigits t).1) then none
  else
    let signed (x : Binary64 × Text) : Text × Text :=
      (if negative then '-' :: x.1.text else x.1.text, x.2)
    let (dropped, rest) := countDigits rest
    match rest with
    | '.' :: rest => return signed (← readFraction n dropped rest)
    | 'e' :: rest | 'E' :: rest => return signed (← readExponent n dropped rest)
    | _ =>
      if dropped = 0 ∧ !(negative && (n = 0 || wordCount 63 < n)) then
        return (if negative then '-' :: Text.decimal n else Text.decimal n, rest)
      else return signed (← ofParts? n dropped, rest)

/-- Reads a number as the text that it is printed as. -/
def readNumber (t : Text) : Option (Text × Text) :=
  match t with
  | '-' :: rest => readUnsigned true rest
  | _ => readUnsigned false t

end Signpost.Json
