import Signpost.Text.Basic

/-!
Text as bytes and back. Every text has one encoding; bytes that encode no text are refused, among
them overlong forms and surrogates.
-/

namespace Signpost.Text

def charBytes (c : Char) : List Nat :=
  let n := c.toNat
  if n < 0x80 then [n]
  else if n < 0x800 then [0xC0 + n / 64, 0x80 + n % 64]
  else if n < 0x10000 then [0xE0 + n / 4096, 0x80 + n / 64 % 64, 0x80 + n % 64]
  else [0xF0 + n / 262144, 0x80 + n / 4096 % 64, 0x80 + n / 64 % 64, 0x80 + n % 64]

def bytes (t : Text) : List Nat :=
  t.flatMap charBytes

def isContinuation (b : Nat) : Bool :=
  0x80 ≤ b && b < 0xC0

/-- The character with this code point, when it is one and is at least `least`, below which its form
is overlong. -/
def charAtLeast? (least n : Nat) : Option Char :=
  if h : n.isValidChar then if least ≤ n then some (Char.ofNatAux n h) else none else none

def ofBytes? : List Nat → Option Text
  | [] => some []
  | a :: rest =>
    if a < 0x80 then (ofBytes? rest).map (Char.ofNat a :: ·)
    else match rest with
      | [] => none
      | b :: rest =>
        if !isContinuation b then none
        else if 0xC0 ≤ a && a < 0xE0 then do
          let c ← charAtLeast? 0x80 ((a - 0xC0) * 64 + (b - 0x80))
          return c :: (← ofBytes? rest)
        else match rest with
          | [] => none
          | c :: rest =>
            if !isContinuation c then none
            else if 0xE0 ≤ a && a < 0xF0 then do
              let c ← charAtLeast? 0x800 ((a - 0xE0) * 4096 + (b - 0x80) * 64 + (c - 0x80))
              return c :: (← ofBytes? rest)
            else match rest with
              | [] => none
              | d :: rest =>
                if !isContinuation d then none
                else if 0xF0 ≤ a && a < 0xF8 then do
                  let c ← charAtLeast? 0x10000
                    ((a - 0xF0) * 262144 + (b - 0x80) * 4096 + (c - 0x80) * 64 + (d - 0x80))
                  return c :: (← ofBytes? rest)
                else none

end Signpost.Text
