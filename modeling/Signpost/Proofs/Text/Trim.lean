import Mathlib.Data.List.DropRight
import Signpost.Text.Blank

/-!
Blanks at the ends of texts. Trimming takes away what blanks stand around a text and nothing else.
-/

namespace Signpost.Text

/-- Nothing but blanks. -/
def IsGap (t : Text) : Prop :=
  ∀ c ∈ t, isBlank c = true

theorem trimStart_append {t : Text} (u : Text) (h : trimStart t ≠ []) :
    trimStart (t ++ u) = trimStart t ++ u := by
  unfold trimStart at h ⊢
  rw [List.dropWhile_append, if_neg (by simpa using h)]

theorem trimStart_gap {a : Text} (ha : IsGap a) (t : Text) : trimStart (a ++ t) = trimStart t :=
  List.dropWhile_append_of_pos ha

theorem trimStart_append_cons (t : Text) {c : Char} (hc : isBlank c = false) (u : Text) :
    trimStart (t ++ c :: u) = trimStart t ++ c :: u := by
  have hcons : trimStart (c :: u) = c :: u := by simp [trimStart, hc]
  by_cases ht : trimStart t = []
  · have hgap : IsGap t := List.dropWhile_eq_nil_iff.mp ht
    rw [trimStart_gap hgap, hcons, ht, List.nil_append]
  · rw [trimStart_append _ ht]

theorem trimStart_gap_cons {a : Text} (ha : IsGap a) {c : Char} (hc : isBlank c = false)
    (t : Text) :
    trimStart (a ++ c :: t) = c :: t := by
  have hgap : trimStart a = [] := List.dropWhile_eq_nil_iff.mpr ha
  rw [trimStart_append_cons a hc, hgap, List.nil_append]

theorem trimStart_eq_self_iff {t : Text} : trimStart t = t ↔ ∀ c ∈ t.head?, isBlank c = false := by
  cases t with
  | nil => simp [trimStart]
  | cons c rest =>
    cases hc : isBlank c with
    | false => simp [trimStart, hc]
    | true =>
      have hlength := (List.dropWhile_suffix isBlank (l := rest)).length_le
      simp only [trimStart, List.dropWhile_cons, hc, if_true, List.head?_cons, Option.mem_def,
        Option.some.injEq, forall_eq', reduceCtorEq, iff_false]
      intro heq
      rw [heq, List.length_cons] at hlength
      omega

@[simp]
theorem trimStart_trimStart (t : Text) : trimStart (trimStart t) = trimStart t := by
  simp [trimStart, List.dropWhile_idempotent]

theorem trimEnd_gap {a : Text} (ha : IsGap a) (t : Text) : trimEnd (t ++ a) = trimEnd t := by
  induction t with
  | nil =>
    induction a with
    | nil => rfl
    | cons c a ih =>
      obtain ⟨hc, ha⟩ := List.forall_mem_cons.mp ha
      have hrest : trimEnd a = [] := ih ha
      simp [trimEnd, hrest, hc]
  | cons c rest ih => rw [List.cons_append, trimEnd, ih, trimEnd]

theorem trimEnd_append (t : Text) {u : Text} (h : trimEnd u ≠ []) :
    trimEnd (t ++ u) = t ++ trimEnd u := by
  induction t with
  | nil => rfl
  | cons c rest ih =>
    rw [List.cons_append, trimEnd, ih]
    split
    · next hnil => exact absurd (List.append_eq_nil_iff.mp hnil).2 h
    · rfl

theorem trimEnd_append_cons (t : Text) {c : Char} (hc : isBlank c = false) (u : Text) :
    trimEnd (t ++ c :: u) = t ++ c :: trimEnd u := by
  have hcons : trimEnd (c :: u) = c :: trimEnd u := by
    rw [trimEnd]
    split
    · next hnil => rw [hnil, if_neg (by simp [hc])]
    · rfl
  rw [trimEnd_append t (hcons ▸ List.cons_ne_nil _ _), hcons]

theorem trimEnd_eq_nil_iff {t : Text} : trimEnd t = [] ↔ IsGap t := by
  constructor
  · intro h c hc
    obtain ⟨before, after, rfl⟩ := List.append_of_mem hc
    by_contra hsolid
    rw [trimEnd_append_cons before (Bool.not_eq_true _ ▸ hsolid)] at h
    simp at h
  · intro h
    have hgap := trimEnd_gap h []
    rwa [List.nil_append] at hgap

/-- Behind a text that ends in no blank only what follows it is trimmed. -/
theorem trimEnd_behind (t : Text) {u : Text} (hu : trimEnd u = u) (hne : u ≠ []) (v : Text) :
    trimEnd (t ++ u ++ v) = t ++ u ++ trimEnd v := by
  by_cases hv : trimEnd v = []
  · rw [hv, trimEnd_gap (trimEnd_eq_nil_iff.mp hv), trimEnd_append t (by rwa [hu]), hu,
      List.append_nil]
  · rw [trimEnd_append _ hv]

theorem prefix_trimEnd (t : Text) : trimEnd t <+: t := by
  induction t with
  | nil => exact List.prefix_refl _
  | cons c rest ih =>
    rw [trimEnd]
    split
    · split_ifs
      · exact List.nil_prefix
      · exact List.prefix_iff_eq_take.mpr rfl
    · exact List.cons_prefix_cons.mpr ⟨rfl, ih⟩

@[simp]
theorem trimEnd_trimEnd (t : Text) : trimEnd (trimEnd t) = trimEnd t := by
  induction t with
  | nil => rfl
  | cons c rest ih =>
    rw [trimEnd]
    split
    · split_ifs with hc
      · rfl
      · simp [trimEnd, hc]
    · next hrest =>
      rw [trimEnd, ih]
      split
      · next hnil => exact absurd hnil hrest
      · rfl

theorem trim_append_cons (t : Text) {c : Char} (hc : isBlank c = false) (u : Text) :
    trim (t ++ c :: u) = trimStart t ++ c :: trimEnd u := by
  rw [trim, trimStart_append_cons t hc, trimEnd_append_cons _ hc]

theorem trimEnd_solid {t : Text} (h : ∀ c ∈ t, isBlank c = false) : trimEnd t = t := by
  induction t with
  | nil => rfl
  | cons c rest ih =>
    obtain ⟨hc, hrest⟩ := List.forall_mem_cons.mp h
    have hcons := trimEnd_append_cons [] hc rest
    rwa [List.nil_append, List.nil_append, ih hrest] at hcons

theorem trimStart_trim (t : Text) : trimStart (trim t) = trim t := by
  refine trimStart_eq_self_iff.mpr fun c hc => ?_
  obtain ⟨u, hu⟩ := prefix_trimEnd (trimStart t)
  have hhead : c ∈ (trimStart t).head? := by
    rw [← hu]
    exact List.mem_head?_append_of_mem_head? hc
  exact trimStart_eq_self_iff.mp (trimStart_trimStart t) c hhead

@[simp]
theorem trim_trim (t : Text) : trim (trim t) = trim t := by
  rw [trim, trimStart_trim]
  exact trimEnd_trimEnd _

@[simp]
theorem trim_trimStart (t : Text) : trim (trimStart t) = trim t := by
  rw [trim, trimStart_trimStart, trim]

@[simp]
theorem trim_trimEnd (t : Text) : trim (trimEnd t) = trim t := by
  obtain ⟨gap, hgap, ht⟩ : ∃ gap, IsGap gap ∧ t = gap ++ trimStart t :=
    ⟨t.takeWhile isBlank, fun c hc =>
      List.mem_takeWhile_imp hc, List.takeWhile_append_dropWhile.symm⟩
  by_cases hnil : trim t = []
  · have hblank : IsGap (trimStart t) := trimEnd_eq_nil_iff.mp hnil
    rw [hnil, ht, trimEnd_gap hblank, trimEnd_eq_nil_iff.mpr hgap]
    rfl
  · have hend : trimEnd t = gap ++ trim t := by
      rw [ht, trimEnd_append gap hnil, ← ht]
      rfl
    rw [hend, trim, trimStart_gap hgap]
    exact trim_trim t

theorem trim_eq_self_iff {t : Text} : trim t = t ↔ trimStart t = t ∧ trimEnd t = t := by
  constructor
  · intro h
    have hstart : trimStart t = t := by
      refine (List.dropWhile_suffix isBlank (l := t)).eq_of_length_le ?_
      rw [← congrArg List.length h]
      exact (prefix_trimEnd (trimStart t)).length_le
    refine ⟨hstart, ?_⟩
    rw [trim, hstart] at h
    exact h
  · rintro ⟨hstart, hend⟩
    rw [trim, hstart, hend]

/-- Blanks around a text are taken away, and the text stays if it has none of its own at its
ends. -/
theorem trim_gaps {a t b : Text} (ha : IsGap a) (hb : IsGap b) (ht : trim t = t) :
    trim (a ++ t ++ b) = t := by
  obtain ⟨hstart, hend⟩ := trim_eq_self_iff.mp ht
  rw [trim, List.append_assoc, trimStart_gap ha]
  by_cases hne : t = []
  · subst hne
    rw [List.nil_append, ← List.append_nil b, trimStart_gap hb]
    rfl
  · rw [trimStart_append b (by rwa [hstart]), hstart, trimEnd_gap hb, hend]

/-- Texts that start and end in no blank do so with whatever stands between them. -/
theorem trim_enclosed {a b : Text} (ha : trim a = a) (hne : a ≠ []) (hb : trim b = b)
    (hne' : b ≠ []) (t : Text) :
    trim (a ++ t ++ b) = a ++ t ++ b := by
  obtain ⟨hstart, -⟩ := trim_eq_self_iff.mp ha
  obtain ⟨-, hend⟩ := trim_eq_self_iff.mp hb
  refine trim_eq_self_iff.mpr ⟨?_, ?_⟩
  · rw [List.append_assoc, trimStart_append _ (by rwa [hstart]), hstart]
  · rw [trimEnd_append _ (by rwa [hend]), hend]

theorem mem_of_mem_trim {t : Text} {c : Char} (h : c ∈ trim t) : c ∈ t :=
  (List.dropWhile_suffix isBlank).subset ((prefix_trimEnd _).subset h)

/-- Trimming keeps what is no blank. -/
theorem mem_trim_iff {t : Text} {c : Char} (hc : isBlank c = false) : c ∈ trim t ↔ c ∈ t := by
  refine ⟨mem_of_mem_trim, fun h => ?_⟩
  obtain ⟨before, after, rfl⟩ := List.append_of_mem h
  rw [trim_append_cons before hc]
  exact List.mem_append_right _ List.mem_cons_self

end Signpost.Text
