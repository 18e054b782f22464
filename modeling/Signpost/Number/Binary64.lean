import Signpost.Number.Word
import Signpost.Text.Decimal

/-!
Numbers of double precision, exactly: a significand below 2⁵³ times a power of two. Every operation
rounds its exact result to the nearest such number, and of two as near to the one with an even
significand.
-/

namespace Signpost

/-- A finite number of double precision that is not negative: `significand * 2 ^ exponent`. -/
structure Binary64 where
  significand : Nat
  exponent : Int
  deriving Repr, DecidableEq

namespace Binary64

def leastExponent : Int := -1074

def greatestExponent : Int := 971

def zero : Binary64 :=
  ⟨0, leastExponent⟩

/-- Numerator and denominator of `n * 2 ^ twos * 10 ^ tens`. -/
def fraction (n : Nat) (twos tens : Int) : Nat × Nat :=
  (n * Nat.pow 2 twos.toNat * Nat.pow 10 tens.toNat,
    Nat.pow 2 (-twos).toNat * Nat.pow 10 (-tens).toNat)

/-- The integer nearest to a quotient, of two as near the even one. -/
def roundHalfEven (numerator denominator : Nat) : Nat :=
  let q := numerator / denominator
  let r := numerator % denominator
  if 2 * r < denominator then q
  else if denominator < 2 * r then q + 1
  else if q % 2 = 0 then q else q + 1

/-- The number nearest to a quotient; `none` when it is too large. -/
def ofQuotient? (numerator denominator : Nat) : Option Binary64 :=
  if numerator = 0 then some zero
  else
    let guess : Int := (numerator.log2 : Int) - denominator.log2 - 52
    let scaled (e : Int) : Nat × Nat :=
      (numerator * Nat.pow 2 (-e).toNat, denominator * Nat.pow 2 e.toNat)
    let exact :=
      let (n, d) := scaled guess
      if n < d * wordCount 52 then guess - 1 else guess
    let e := max exact leastExponent
    let (n, d) := scaled e
    let m := roundHalfEven n d
    let (m, e) := if m = wordCount 53 then (wordCount 52, e + 1) else (m, e)
    if e ≤ greatestExponent then some ⟨m, e⟩ else none

def ofDecimal? (digits : Nat) (tens : Int) : Option Binary64 :=
  if digits = 0 then some zero
  else
    let magnitude : Int := (digits.log2 : Int) * 3 / 10 + tens
    if 400 < magnitude then none
    else if magnitude < -400 - (digits.log2 : Int) then some zero
    else
      let (n, d) := fraction digits 0 tens
      ofQuotient? n d

/-- The product of a number with the power of ten nearest to `10 ^ tens`. -/
def timesPowerOfTen? (x : Binary64) (tens : Nat) : Option Binary64 := do
  let p ← ofDecimal? 1 tens
  let (n, d) := fraction (x.significand * p.significand) (x.exponent + p.exponent) 0
  ofQuotient? n d

def overPowerOfTen? (x : Binary64) (tens : Nat) : Option Binary64 := do
  let p ← ofDecimal? 1 tens
  let (n, d) := fraction x.significand (x.exponent - p.exponent) 0
  ofQuotient? n (d * p.significand)

end Binary64

end Signpost
