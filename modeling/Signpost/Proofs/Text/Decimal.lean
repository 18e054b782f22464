import Mathlib.Data.List.Basic
import Signpost.Text.Decimal

/-!
Decimal numerals are read back as the numbers they were written for, with any number of zeros in
front.
-/

namespace Signpost.Text

/-- The number that digits stand for when others stand in front of them. -/
def digitsValue (start : Nat) (t : Text) : Nat :=
  t.foldl (fun n c => n * 10 + (c.toNat - '0'.toNat)) start

theorem digit_spec {n : Nat} (h : n < 10) :
    (digit n).isDigit = true ∧ (digit n).toNat - '0'.toNat = n := by
  have hdigits : ∀ n < 10, (digit n).isDigit = true ∧ (digit n).toNat - '0'.toNat = n := by decide
  exact hdigits n h

theorem isDigit_of_mem_decimal {n : Nat} {c : Char} (h : c ∈ decimal n) : c.isDigit = true := by
  induction n using decimal.induct with
  | case1 n hn =>
    rw [decimal, if_pos hn, List.mem_singleton] at h
    rw [h]
    exact (digit_spec hn).1
  | case2 n hn ih =>
    rw [decimal, if_neg hn, List.mem_append, List.mem_singleton] at h
    rcases h with hfront | rfl
    · exact ih hfront
    · exact (digit_spec (Nat.mod_lt n (by omega))).1

theorem decimal_ne_nil (n : Nat) : decimal n ≠ [] := by
  rw [decimal]
  split <;> simp

@[simp]
theorem digitsValue_append (start : Nat) (t u : Text) :
    digitsValue start (t ++ u) = digitsValue (digitsValue start t) u :=
  List.foldl_append

@[simp]
theorem digitsValue_zeros (zeros : Nat) : digitsValue 0 (List.replicate zeros '0') = 0 := by
  induction zeros with
  | zero => rfl
  | succ zeros ih => simpa [digitsValue, List.replicate_succ] using ih

theorem digitsValue_decimal (n : Nat) : digitsValue 0 (decimal n) = n := by
  induction n using decimal.induct with
  | case1 n hn =>
    rw [decimal, if_pos hn]
    simp only [digitsValue, List.foldl_cons, List.foldl_nil, (digit_spec hn).2]
    omega
  | case2 n hn ih =>
    have hlast : (digit (n % 10)).toNat - '0'.toNat = n % 10 :=
      (digit_spec (Nat.mod_lt n (by omega))).2
    have hstep : digitsValue (n / 10) [digit (n % 10)] = n / 10 * 10 + n % 10 := by
      simp only [digitsValue, List.foldl_cons, List.foldl_nil, hlast]
    rw [decimal, if_neg hn, digitsValue_append, ih, hstep]
    omega

/-- A number in decimal, with zeros in front of it. -/
def numeral (zeros n : Nat) : Text :=
  List.replicate zeros '0' ++ decimal n

theorem isDigit_of_mem_numeral {zeros n : Nat} {c : Char} (h : c ∈ numeral zeros n) :
    c.isDigit = true := by
  rcases List.mem_append.mp h with hzero | hdecimal
  · rw [List.eq_of_mem_replicate hzero]
    rfl
  · exact isDigit_of_mem_decimal hdecimal

/-- A numeral is read back as its number, zeros in front of it or not. -/
@[simp]
theorem decimalValue?_numeral (zeros n : Nat) : decimalValue? (numeral zeros n) = some n := by
  have hne : numeral zeros n ≠ [] := List.append_ne_nil_of_right_ne_nil _ (decimal_ne_nil n)
  have hall : (numeral zeros n).all Char.isDigit = true :=
    List.all_eq_true.mpr fun c hc => isDigit_of_mem_numeral hc
  have hvalue : digitsValue 0 (numeral zeros n) = n := by
    rw [numeral, digitsValue_append, digitsValue_zeros, digitsValue_decimal]
  rw [decimalValue?, if_pos ⟨hne, hall⟩]
  exact congrArg some hvalue

end Signpost.Text
