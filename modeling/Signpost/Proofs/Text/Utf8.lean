import Mathlib.Tactic.SplitIfs
import Signpost.Text.Map
import Signpost.Text.Utf8

/-!
Text and its bytes. The bytes of a text are read back as the text, and texts come in the order of
their bytes, which is the order that names in a map have. Main statements: `Text.ofBytes?_bytes` and
`TextMap.pairwise_bytes`.
-/

namespace Signpost

namespace Text

theorem toNat_lt (c : Char) : c.toNat < 0x110000 := by
  have hvalid : c.toNat < 0xD800 ∨ 0xDFFF < c.toNat ∧ c.toNat < 0x110000 := c.valid
  omega

theorem charAtLeast?_toNat {c : Char} {least n : Nat} (hn : n = c.toNat) (hleast : least ≤ n) :
    charAtLeast? least n = some c := by
  subst hn
  have hvalid : c.toNat.isValidChar := c.valid
  rw [charAtLeast?, dif_pos hvalid, if_pos hleast]
  exact congrArg some (Char.ext rfl)

theorem isContinuation_add {n : Nat} (h : n < 64) : isContinuation (0x80 + n) = true := by
  simp only [isContinuation, Bool.and_eq_true, decide_eq_true_eq]
  omega

theorem isBetween {low high n : Nat} (h : low ≤ n ∧ n < high) : (low ≤ n && n < high) = true := by
  rw [Bool.and_eq_true, decide_eq_true_eq, decide_eq_true_eq]
  exact h

theorem isBeyond {low high n : Nat} (h : high ≤ n) : (low ≤ n && n < high) = false := by
  rw [Bool.and_eq_false_iff, decide_eq_false_iff_not, decide_eq_false_iff_not]
  exact .inr (Nat.not_lt.mpr h)

section Forms

/-! One form for each number of bytes: a leading byte in its range, continuation bytes, a character
that needs them. -/

variable {x y z w : Nat} {c : Char}

theorem ofBytes?_two (hx : 0xC0 ≤ x ∧ x < 0xE0) (hy : isContinuation y = true)
    (hc : charAtLeast? 0x80 ((x - 0xC0) * 64 + (y - 0x80)) = some c) (rest : List Nat) :
    ofBytes? (x :: y :: rest) = (ofBytes? rest).map (c :: ·) := by
  have hlead : ¬x < 0x80 := by omega
  rw [ofBytes?.eq_def]
  simp only [hlead, if_false, hy, Bool.not_true, isBetween hx, if_true, hc]
  cases ofBytes? rest <;> rfl

theorem ofBytes?_three (hx : 0xE0 ≤ x ∧ x < 0xF0) (hy : isContinuation y = true)
    (hz : isContinuation z = true)
    (hc : charAtLeast? 0x800 ((x - 0xE0) * 4096 + (y - 0x80) * 64 + (z - 0x80)) = some c)
    (rest : List Nat) :
    ofBytes? (x :: y :: z :: rest) = (ofBytes? rest).map (c :: ·) := by
  have hlead : ¬x < 0x80 := by omega
  have htwo : (0xC0 ≤ x && x < 0xE0) = false := isBeyond hx.1
  rw [ofBytes?.eq_def]
  simp only [hlead, if_false, hy, hz, Bool.not_true, htwo, isBetween hx, if_true, hc]
  cases ofBytes? rest <;> rfl

theorem ofBytes?_four (hx : 0xF0 ≤ x ∧ x < 0xF8) (hy : isContinuation y = true)
    (hz : isContinuation z = true) (hw : isContinuation w = true) (hc : charAtLeast? 0x10000
      ((x - 0xF0) * 262144 + (y - 0x80) * 4096 + (z - 0x80) * 64 + (w - 0x80)) = some c)
        (rest : List Nat) :
    ofBytes? (x :: y :: z :: w :: rest) = (ofBytes? rest).map (c :: ·) := by
  have hlead : ¬x < 0x80 := by omega
  have htwo : (0xC0 ≤ x && x < 0xE0) = false := isBeyond (by omega)
  have hthree : (0xE0 ≤ x && x < 0xF0) = false := isBeyond hx.1
  rw [ofBytes?.eq_def]
  simp only [hlead, if_false, hy, hz, hw, Bool.not_true, htwo, hthree, isBetween hx, if_true, hc]
  cases ofBytes? rest <;> rfl

end Forms

/-- The bytes of a character are read back as the character, whatever follows them. -/
theorem ofBytes?_charBytes (c : Char) (rest : List Nat) :
    ofBytes? (charBytes c ++ rest) = (ofBytes? rest).map (c :: ·) := by
  have hlt := toNat_lt c
  have hcontinues : ∀ n, isContinuation (0x80 + n % 64) = true :=
    fun n => isContinuation_add (Nat.mod_lt n (by decide))
  unfold charBytes
  dsimp only
  split_ifs with hone htwo hthree
  · rw [List.singleton_append, ofBytes?.eq_def]
    simp only [if_pos hone, Char.ofNat_toNat]
  · refine ofBytes?_two ⟨?_, ?_⟩ (hcontinues _) (charAtLeast?_toNat ?_ ?_) rest <;> omega
  · refine ofBytes?_three ⟨?_, ?_⟩ (hcontinues _) (hcontinues _) (charAtLeast?_toNat ?_ ?_) rest <;>
      omega
  · refine ofBytes?_four ⟨?_, ?_⟩ (hcontinues _) (hcontinues _) (hcontinues _)
      (charAtLeast?_toNat ?_ ?_) rest <;> omega

/-- The bytes of a text are read back as the text. -/
@[simp]
theorem ofBytes?_bytes (t : Text) : ofBytes? (bytes t) = some t := by
  induction t with
  | nil => rfl
  | cons c t ih =>
    have hstep : ofBytes? (bytes (c :: t)) = (ofBytes? (bytes t)).map (c :: ·) :=
      ofBytes?_charBytes c (bytes t)
    rw [hstep, ih, Option.map_some]

theorem lt_of_mem_charBytes {c : Char} {b : Nat} (h : b ∈ charBytes c) : b < 0x100 := by
  have hlt := toNat_lt c
  unfold charBytes at h
  dsimp only at h
  split_ifs at h <;> simp only [List.mem_cons, List.not_mem_nil, or_false] at h <;> omega

/-- Of two characters the lower one has the lower bytes: they differ before one of them ends. -/
theorem charBytes_lt {c d : Char} (h : c < d) (s u : List Nat) :
    charBytes c ++ s < charBytes d ++ u := by
  have hlt : c.toNat < d.toNat := h
  have hend := toNat_lt d
  -- The first byte tells how many there are and grows with them; with as many, the code points are
  -- compared by digits.
  unfold charBytes
  dsimp only
  split_ifs <;> simp only [List.cons_append, List.nil_append, List.cons_lt_cons_iff] <;> omega

theorem charBytes_ne_nil (c : Char) : charBytes c ≠ [] := by
  unfold charBytes
  dsimp only
  split_ifs <;> exact List.cons_ne_nil _ _

/-- Texts come in the order of their bytes. -/
theorem bytes_lt {s u : Text} (h : s < u) : bytes s < bytes u := by
  induction s generalizing u with
  | nil =>
    cases u with
    | nil => exact absurd h (List.lt_irrefl [])
    | cons d u =>
      obtain ⟨b, more, hbytes⟩ := List.exists_cons_of_ne_nil (charBytes_ne_nil d)
      rw [bytes, bytes, List.flatMap_cons, hbytes]
      exact List.nil_lt_cons b _
  | cons c s ih =>
    cases u with
    | nil => exact absurd h (List.not_lt_nil _)
    | cons d u =>
      rcases List.cons_lt_cons_iff.mp h with hchar | ⟨rfl, hrest⟩
      · exact charBytes_lt hchar (bytes s) (bytes u)
      · exact List.append_left_lt (ih hrest)

end Text

/-- The names in a map come in the order of their bytes. -/
theorem TextMap.pairwise_bytes {α : Type} (m : TextMap α) :
    m.entries.Pairwise fun a b => Text.bytes a.1 < Text.bytes b.1 :=
  m.sorted.imp Text.bytes_lt

end Signpost
