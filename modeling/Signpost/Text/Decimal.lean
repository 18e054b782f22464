import Signpost.Text.Basic

/-!
Natural numbers in decimal: writing one, and reading digits back.
-/

namespace Signpost.Text

def digit (n : Nat) : Char :=
  Char.ofNat ('0'.toNat + n)

def decimal (n : Nat) : Text :=
  if n < 10 then [digit n] else decimal (n / 10) ++ [digit (n % 10)]

/-- The number that a run of decimal digits stands for; other text stands for none. -/
def decimalValue? (t : Text) : Option Nat :=
  if t ≠ [] ∧ t.all Char.isDigit then some (t.foldl (fun n c => n * 10 + (c.toNat - '0'.toNat)) 0)
  else none

def digitValue? (base : Nat) (c : Char) : Option Nat :=
  let value :=
    if c.isDigit then c.toNat - '0'.toNat
    else if 'a' ≤ c ∧ c ≤ 'f' then c.toNat - 'a'.toNat + 10
    else if 'A' ≤ c ∧ c ≤ 'F' then c.toNat - 'A'.toNat + 10
    else base
  if value < base then some value else none

def numberValue? (base : Nat) (t : Text) : Option Nat :=
  if t = [] then none
  else t.foldl (fun n c => do return (← n) * base + (← digitValue? base c)) (some 0)

def hexadecimal (n : Nat) : Text :=
  Nat.toDigits 16 n

end Signpost.Text
