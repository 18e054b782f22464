import Signpost.MediaType
import Signpost.Proofs.Text.Cut

/-!
Acceptance of media types is a preorder: a type accepts itself, and what it accepts may accept on
its behalf. A subtype that asks for a suffix takes part in this since the suffix of a subtype is
what follows its last plus sign.
-/

namespace Signpost.MediaType

theorem wantedSuffix?_eq_some_iff {m : MediaType} {suffix : Text} :
    m.wantedSuffix? = some suffix ↔ m.subtype = '*' :: '+' :: suffix := by
  unfold wantedSuffix?
  constructor
  · intro h
    split at h
    · next found hsubtype => rw [hsubtype, Option.some.inj h]
    · cases h
  · intro h
    simp [h]

theorem suffix?_eq_some_iff {m : MediaType} {suffix : Text} :
    m.suffix? = some suffix ↔ ∃ front, m.subtype = front ++ '+' :: suffix ∧ '+' ∉ suffix := by
  constructor
  · intro h
    obtain ⟨⟨front, back⟩, hcut, rfl⟩ := Option.map_eq_some_iff.mp h
    exact ⟨front, Text.cutLast_eq_some_iff.mp hcut⟩
  · rintro ⟨front, hcut⟩
    exact Option.map_eq_some_iff.mpr ⟨(front, suffix), Text.cutLast_eq_some_iff.mpr hcut, rfl⟩

theorem includes_iff {m other : MediaType} : m.includes other = true ↔
    m.kind = wildcard ∨ m.kind = other.kind ∧ (m.subtype = other.subtype ∨ m.subtype = wildcard ∨
      ∃ suffix, m.wantedSuffix? = some suffix ∧ other.suffix? = some suffix) := by
  unfold includes
  have hstar : m.isWildcardKind = true ↔ m.kind = wildcard := beq_iff_eq
  by_cases hany : m.kind = wildcard
  · exact iff_of_true (if_pos (hstar.mpr hany)) (.inl hany)
  rw [if_neg (mt hstar.mp hany), or_iff_right hany]
  by_cases hkind : m.kind = other.kind
  · rw [if_neg (not_not.mpr hkind), and_iff_right hkind, ← or_assoc]
    by_cases hsubtype : m.subtype = other.subtype ∨ m.subtype = wildcard
    · exact iff_of_true (if_pos hsubtype) (.inl hsubtype)
    rw [if_neg hsubtype, or_iff_right hsubtype]
    cases m.wantedSuffix? with
    | none => simp
    | some wanted =>
      cases other.suffix? with
      | none => simp
      | some suffix => simpa using eq_comm
  · rw [if_pos hkind]
    exact iff_of_false Bool.false_ne_true fun h => hkind h.1

@[simp]
theorem includes_self (m : MediaType) : m.includes m = true :=
  includes_iff.mpr (.inr ⟨rfl, .inl rfl⟩)

/-- The suffix that a subtype asks for is its own suffix if any subtype has it. -/
theorem suffix?_of_wantedSuffix? {m other : MediaType} {suffix : Text}
    (hwanted : m.wantedSuffix? = some suffix)
    (hother : other.suffix? = some suffix) : m.suffix? = some suffix := by
  obtain ⟨-, -, hplus⟩ := suffix?_eq_some_iff.mp hother
  exact suffix?_eq_some_iff.mpr ⟨['*'], wantedSuffix?_eq_some_iff.mp hwanted, hplus⟩

/-- A lone star has no suffix. -/
theorem subtype_ne_wildcard_of_suffix? {m : MediaType} {suffix : Text}
    (h : m.suffix? = some suffix) :
    m.subtype ≠ wildcard := by
  intro hstar
  obtain ⟨front, hsubtype, -⟩ := suffix?_eq_some_iff.mp h
  have hmem : '+' ∈ wildcard := hstar ▸ hsubtype ▸ List.mem_append_right front List.mem_cons_self
  exact absurd hmem (by decide)

theorem includes_trans {a b c : MediaType} (hab : a.includes b = true) (hbc : b.includes c = true) :
    a.includes c = true := by
  rw [includes_iff] at hab hbc ⊢
  obtain hany | ⟨hkind, hab⟩ := hab
  · exact .inl hany
  obtain hany | ⟨hkind', hbc⟩ := hbc
  · exact .inl (hkind.trans hany)
  refine .inr ⟨hkind.trans hkind', ?_⟩
  obtain hsame | hstar | ⟨suffix, hwanted, hsuffix⟩ := hab
  · unfold wantedSuffix? at hbc ⊢
    rw [hsame]
    exact hbc
  · exact .inr (.inl hstar)
  · refine .inr (.inr ⟨suffix, hwanted, ?_⟩)
    obtain hsame | hstar | ⟨suffix', hwanted', hsuffix'⟩ := hbc
    · unfold suffix? at hsuffix ⊢
      rw [← hsame]
      exact hsuffix
    · exact absurd hstar (subtype_ne_wildcard_of_suffix? hsuffix)
    · rw [suffix?_of_wantedSuffix? hwanted' hsuffix'] at hsuffix
      rw [hsuffix', hsuffix]

end Signpost.MediaType
