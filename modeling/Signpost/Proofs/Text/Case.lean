import Mathlib
import Signpost.Proofs.Text.Trim

/-!
The case of ASCII letters. Small letters come from letters only, so a text in small letters has no
other signs than the text itself, and blanks at its ends are where they were.
-/

namespace Signpost.Text

theorem toLower_of_not_isAlpha {c : Char} (h : c.isAlpha = false) : c.toLower = c := by
  obtain ⟨hupper, -⟩ := Bool.or_eq_false_iff.mp h
  exact Char.toLower_eq_of_not_isUpper (by simp [hupper])

/-- What is no letter is the small form of nothing but itself. -/
theorem eq_of_toLower_eq {c d : Char} (h : c.toLower = d) (hd : d.isAlpha = false) : c = d := by
  rw [← h, Char.isAlpha_toLower_eq_isAlpha] at hd
  rw [← h, toLower_of_not_isAlpha hd]

theorem mem_of_mem_lowerAscii {t : Text} {c : Char} (h : c ∈ lowerAscii t)
    (hc : c.isAlpha = false) : c ∈ t := by
  obtain ⟨d, hd, hlower⟩ := List.mem_map.mp h
  exact eq_of_toLower_eq hlower hc ▸ hd

theorem mem_lowerAscii_iff {t : Text} {c : Char} (hc : c.isAlpha = false) :
    c ∈ lowerAscii t ↔ c ∈ t :=
  ⟨fun h => mem_of_mem_lowerAscii h hc, fun h => List.mem_map.mpr ⟨c, h, toLower_of_not_isAlpha hc⟩⟩

@[simp]
theorem lowerAscii_lowerAscii (t : Text) : lowerAscii (lowerAscii t) = lowerAscii t := by
  simp [lowerAscii]

@[simp]
theorem lowerAscii_eq_nil_iff {t : Text} : lowerAscii t = [] ↔ t = [] :=
  List.map_eq_nil_iff

/-- The text has ASCII characters only. -/
def IsAscii (t : Text) : Prop :=
  ∀ c ∈ t, c.toNat < 128

instance : DecidablePred IsAscii :=
  fun t => List.decidableBAll (fun c : Char => c.toNat < 128) t

theorem toNat_toLower_lt {c : Char} (h : c.toNat < 128) : c.toLower.toNat < 128 := by
  have hcodes : ∀ n < 128, (Char.ofNat n).toLower.toNat < 128 := by decide
  simpa using hcodes c.toNat h

theorem IsAscii.lowerAscii {t : Text} (h : t.IsAscii) : (Text.lowerAscii t).IsAscii := by
  intro c hc
  obtain ⟨d, hd, rfl⟩ := List.mem_map.mp hc
  exact toNat_toLower_lt (h d hd)

theorem toNat_of_isAlpha {c : Char} (h : c.isAlpha = true) :
    (65 ≤ c.toNat ∧ c.toNat ≤ 90) ∨ (97 ≤ c.toNat ∧ c.toNat ≤ 122) := by
  simpa [Char.isAlpha, Char.isUpper, Char.isLower, UInt32.le_iff_toNat_le] using h

theorem isBlank_of_isAlpha {c : Char} (h : c.isAlpha = true) : isBlank c = false := by
  have hrange := toNat_of_isAlpha h
  simp only [isBlank, Bool.or_eq_false_iff, Bool.and_eq_false_iff, decide_eq_false_iff_not,
    beq_eq_false_iff_ne]
  omega

@[simp]
theorem isBlank_toLower (c : Char) : isBlank c.toLower = isBlank c := by
  cases hc : c.isAlpha with
  | false => rw [toLower_of_not_isAlpha hc]
  | true =>
    rw [isBlank_of_isAlpha hc, isBlank_of_isAlpha (by rw [Char.isAlpha_toLower_eq_isAlpha, hc])]

theorem trimEnd_lowerAscii (t : Text) : trimEnd (lowerAscii t) = lowerAscii (trimEnd t) := by
  induction t with
  | nil => rfl
  | cons c rest ih =>
    rw [lowerAscii, List.map_cons, trimEnd, ← lowerAscii, ih, trimEnd, isBlank_toLower]
    cases trimEnd rest with
    | nil => cases isBlank c <;> rfl
    | cons d kept => rfl

theorem trim_lowerAscii (t : Text) : trim (lowerAscii t) = lowerAscii (trim t) := by
  have hstart : trimStart (lowerAscii t) = lowerAscii (trimStart t) := by
    have hblank : isBlank ∘ Char.toLower = isBlank := funext isBlank_toLower
    rw [trimStart, lowerAscii, List.dropWhile_map, hblank]
    rfl
  rw [trim, hstart, trimEnd_lowerAscii]
  rfl

end Signpost.Text
