import Mathlib.Data.List.Infix
import Signpost.Text.Basic

/-!
Replacing the occurrences of a piece. A text without the piece stays as it is, and texts in a row
are replaced one by one when no occurrence reaches from one into the next; a single occurrence gives
way and leaves the rest. After replacing, a piece whose first character marks its occurrences is
gone. Main statements: `Text.replaceAll_flatMap`, `Text.replaceAll_start`, `Text.replaceAll_only`
and `Text.not_infix_replaceAll`.
-/

namespace Signpost.Text

variable {piece replacement t a b : Text}

theorem mem_replaceFrom {skip : Nat} {c : Char} (h : c ∈ replaceFrom piece replacement skip t) :
    c ∈ replacement ∨ c ∈ t := by
  induction t generalizing skip with
  | nil => cases skip <;> simp [replaceFrom] at h
  | cons d rest ih =>
    cases skip with
    | succ skip => exact (ih h).imp_right (List.mem_cons_of_mem d)
    | zero =>
      rw [replaceFrom] at h
      split_ifs at h
      · rcases List.mem_append.mp h with hvalue | hrest
        · exact .inl hvalue
        · exact (ih hrest).imp_right (List.mem_cons_of_mem d)
      · rcases List.mem_cons.mp h with rfl | hrest
        · exact .inr List.mem_cons_self
        · exact (ih hrest).imp_right (List.mem_cons_of_mem d)

theorem replaceAll_cons {c : Char} (h : ¬piece <+: c :: t) :
    replaceAll piece replacement (c :: t) = c :: replaceAll piece replacement t := by
  have hhere : ¬(piece ≠ [] ∧ piece.isPrefixOf (c :: t) = true) := by
    rintro ⟨-, hprefix⟩
    exact h (List.isPrefixOf_iff_prefix.mp hprefix)
  exact if_neg hhere

/-- A text in which the piece does not occur stays as it is. -/
theorem replaceAll_of_not_infix (h : ¬piece <:+: t) : replaceAll piece replacement t = t := by
  induction t with
  | nil => rfl
  | cons c rest ih =>
    have hrest : ¬piece <:+: rest :=
      fun hlater => h (hlater.trans (List.suffix_cons c rest).isInfix)
    rw [replaceAll_cons fun hprefix => h hprefix.isInfix, ih hrest]

theorem replaceFrom_length (a b : Text) :
    replaceFrom piece replacement a.length (a ++ b) = replaceAll piece replacement b := by
  induction a with
  | nil => rfl
  | cons c a ih => exact ih

/-- An occurrence at the start gives way, and the text behind it is replaced on its own. -/
theorem replaceAll_start (h : piece ≠ []) (t : Text) :
    replaceAll piece replacement (piece ++ t) = replacement ++ replaceAll piece replacement t := by
  cases piece with
  | nil => exact absurd rfl h
  | cons c rest =>
    have hhere : c :: rest ≠ [] ∧ (c :: rest).isPrefixOf (c :: (rest ++ t)) = true :=
      ⟨h, List.isPrefixOf_iff_prefix.mpr (List.prefix_append (c :: rest) t)⟩
    rw [replaceAll, List.cons_append, replaceFrom, if_pos hhere]
    exact congrArg (replacement ++ ·) (replaceFrom_length rest t)

theorem replaceAll_self (h : piece ≠ []) : replaceAll piece replacement piece = replacement := by
  have hstart : replaceAll piece replacement (piece ++ []) = replacement ++ [] :=
    replaceAll_start h []
  simpa only [List.append_nil] using hstart

/-- When the piece occurs in one place of a text only, it gives way there and the text around it
stays. -/
theorem replaceAll_only (h : piece ≠ [])
    (honly : ∀ x y, a ++ piece ++ b = x ++ piece ++ y → x = a) :
    replaceAll piece replacement (a ++ piece ++ b) = a ++ replacement ++ b := by
  induction a with
  | nil =>
    have hrest : ¬piece <:+: b := by
      rintro ⟨x, y, rfl⟩
      have hlater := honly (piece ++ x) y (by simp)
      exact h (List.append_eq_nil_iff.mp hlater).1
    rw [List.nil_append, replaceAll_start h, replaceAll_of_not_infix hrest, List.nil_append]
  | cons c a ih =>
    have hhere : ¬piece <+: c :: (a ++ piece ++ b) := by
      rintro ⟨y, hy⟩
      exact List.cons_ne_nil c a (honly [] y hy.symm).symm
    have honly' : ∀ x y, a ++ piece ++ b = x ++ piece ++ y → x = a := fun x y heq =>
      (List.cons.inj (honly (c :: x) y (congrArg (List.cons c) heq))).2
    show replaceAll piece replacement (c :: (a ++ piece ++ b)) = c :: (a ++ replacement ++ b)
    rw [replaceAll_cons hhere, ih honly']

/-- When the piece occurs at the end of a text and nowhere before, not even in part on the text in
front of it, only the end gives way. -/
theorem replaceAll_end (h : piece ≠ []) (ht : ¬piece <:+: t ++ piece.dropLast) :
    replaceAll piece replacement (t ++ piece) = t ++ replacement := by
  have honly : ∀ x y, t ++ piece ++ [] = x ++ piece ++ y → x = t := by
    intro x y heq
    rw [List.append_nil] at heq
    rcases List.eq_nil_or_concat y with rfl | ⟨y, d, rfl⟩
    · exact (List.append_cancel_right (heq.trans (List.append_nil _))).symm
    · have hearly : t ++ piece.dropLast = x ++ piece ++ y := by
        have hdrop := congrArg List.dropLast heq
        rwa [List.dropLast_append_of_ne_nil h, List.concat_eq_append, ← List.append_assoc,
          List.dropLast_concat] at hdrop
      exact absurd ⟨x, y, hearly.symm⟩ ht
  have hreplaced : replaceAll piece replacement (t ++ piece ++ []) = t ++ replacement ++ [] :=
    replaceAll_only h honly
  rwa [List.append_nil, List.append_nil] at hreplaced

/-- The empty piece occurs nowhere. -/
@[simp]
theorem replaceAll_nil_piece (t : Text) : replaceAll [] replacement t = t := by
  unfold replaceAll
  induction t with
  | nil => rfl
  | cons c t ih => rw [replaceFrom, if_neg (fun h => h.1 rfl), ih]

/-- No occurrence of the piece starts in the first text and ends in the second. -/
def Apart (a b piece : Text) : Prop :=
  ∀ x y, piece = x ++ y → x ≠ [] → y ≠ [] → x <:+ a → ¬y <+: b

theorem Apart.tail {c : Char} (h : Apart (c :: a) b piece) : Apart a b piece :=
  fun x y heq hx hy hsuffix => h x y heq hx hy (hsuffix.trans (List.suffix_cons c a))

theorem Apart.prefix_iff {c : Char} (h : Apart (c :: a) b piece) :
    piece <+: c :: (a ++ b) ↔ piece <+: c :: a := by
  constructor
  · intro hpiece
    have hstart : c :: a <+: c :: (a ++ b) := List.prefix_append (c :: a) b
    rcases List.prefix_or_prefix_of_prefix hpiece hstart with hwithin | ⟨y, rfl⟩
    · exact hwithin
    · by_cases hy : y = []
      · rw [hy, List.append_nil]
      · have hb : y <+: b := (List.prefix_append_right_inj (c :: a)).mp hpiece
        exact absurd hb (h (c :: a) y rfl (List.cons_ne_nil c a) hy (List.suffix_refl _))
  · exact fun hpiece => hpiece.trans (List.prefix_append (c :: a) b)

theorem replaceFrom_append (h : Apart a b piece) {skip : Nat} (hskip : skip ≤ a.length) :
    replaceFrom piece replacement skip (a ++ b) =
      replaceFrom piece replacement skip a ++ replaceFrom piece replacement 0 b := by
  induction a generalizing skip with
  | nil =>
    obtain rfl : skip = 0 := Nat.le_zero.mp hskip
    rfl
  | cons c a ih =>
    cases skip with
    | succ skip => exact ih h.tail (Nat.le_of_succ_le_succ hskip)
    | zero =>
      rw [List.cons_append, replaceFrom, replaceFrom]
      simp only [List.isPrefixOf_iff_prefix, h.prefix_iff]
      split_ifs with hhere
      · have hlength := hhere.2.length_le
        rw [ih h.tail (by simp only [List.length_cons] at hlength; omega), List.append_assoc]
      · rw [ih h.tail (Nat.zero_le _), List.cons_append]

/-- Texts that no occurrence joins are replaced one by one. -/
theorem Apart.replaceAll_append (h : Apart a b piece) :
    replaceAll piece replacement (a ++ b) =
      replaceAll piece replacement a ++ replaceAll piece replacement b :=
  replaceFrom_append h (Nat.zero_le _)

/-- No occurrence of the piece goes beyond the end of the text: the text ends in no beginning of the
piece, unless it is the whole piece. -/
def Encloses (t piece : Text) : Prop :=
  ∀ beginning ∈ piece.inits, beginning ≠ [] → beginning <:+ t → beginning = piece

instance (t piece : Text) : Decidable (Encloses t piece) :=
  inferInstanceAs (Decidable (∀ beginning ∈ piece.inits,
    beginning ≠ [] → beginning <:+ t → beginning = piece))

theorem Encloses.apart (h : Encloses a piece) (b : Text) : Apart a b piece := by
  rintro x y rfl hx hy hsuffix -
  have hwhole : x = x ++ y := h x ((List.mem_inits _ _).mpr (List.prefix_append x y)) hx hsuffix
  exact hy (List.self_eq_append_right.mp hwhole)

theorem replaceAll_append (h : Encloses a piece) :
    replaceAll piece replacement (a ++ b) =
      replaceAll piece replacement a ++ replaceAll piece replacement b :=
  (h.apart b).replaceAll_append

/-- Texts in a row, none of which an occurrence leaves, are replaced one by one. -/
theorem replaceAll_flatMap {α : Type} {xs : List α} {f : α → Text}
    (h : ∀ x ∈ xs, Encloses (f x) piece) :
    replaceAll piece replacement (xs.flatMap f) = xs.flatMap fun x =>
      replaceAll piece replacement (f x) := by
  induction xs with
  | nil => rfl
  | cons x xs ih =>
    obtain ⟨hx, hxs⟩ := List.forall_mem_cons.mp h
    rw [List.flatMap_cons, replaceAll_append hx, ih hxs, List.flatMap_cons]

theorem holds_iff {piece t : Text} : holds piece t = true ↔ piece <:+: t := by
  induction t with
  | nil => rw [holds, List.isEmpty_iff, List.infix_nil]
  | cons c rest ih =>
    rw [holds, Bool.or_eq_true, List.isPrefixOf_iff_prefix, ih, List.infix_cons_iff]

section Marked

/-! Pieces with a first character that they have nowhere else: their occurrences do not overlap. -/

variable {c : Char} {p q : Text}

/-- An occurrence in one of two texts does not reach into the second when that starts with the first
character of the piece. -/
theorem apart_of_head (hp : c ∉ p) (a b : Text) : Apart a (c :: b) (c :: p) := by
  rintro x y heq hx hy - hprefix
  obtain ⟨d, x, rfl⟩ := List.exists_cons_of_ne_nil hx
  obtain ⟨e, y, rfl⟩ := List.exists_cons_of_ne_nil hy
  obtain ⟨-, rfl⟩ := List.cons.inj heq
  obtain ⟨rfl, -⟩ := List.cons_prefix_cons.mp hprefix
  exact hp (List.mem_append_right x List.mem_cons_self)

/-- Behind a text without the first character of the piece, an occurrence is in what follows. -/
theorem infix_of_append {u : Text} (hq : c ∉ q) (h : c :: p <:+: q ++ u) : c :: p <:+: u := by
  induction q with
  | nil => exact h
  | cons d q ih =>
    obtain ⟨hd, hq⟩ := List.ne_and_not_mem_of_not_mem_cons hq
    rcases List.infix_cons_iff.mp h with hprefix | hinfix
    · exact absurd (List.cons_prefix_cons.mp hprefix).1 hd
    · exact ih hq hinfix

/-- Up to the first character of the piece, replacing changes nothing. -/
theorem prefix_of_prefix_replaceAll {u : Text} (hu : c ∉ u)
    (h : u <+: replaceAll (c :: p) (c :: q) t) : u <+: t := by
  induction u generalizing t with
  | nil => exact List.nil_prefix
  | cons d u ih =>
    obtain ⟨hd, hu⟩ := List.ne_and_not_mem_of_not_mem_cons hu
    cases t with
    | nil => exact h
    | cons e t =>
      by_cases hhere : c :: p <+: e :: t
      · obtain ⟨rest, hrest⟩ := hhere
        rw [← hrest, replaceAll_start (List.cons_ne_nil c p)] at h
        exact absurd (List.cons_prefix_cons.mp h).1.symm hd
      · rw [replaceAll_cons hhere] at h
        obtain ⟨rfl, hrest⟩ := List.cons_prefix_cons.mp h
        exact List.cons_prefix_cons.mpr ⟨rfl, ih hu hrest⟩

/-- After replacing, the piece does not occur, when the replacement starts with the same character,
does not have it again and goes on otherwise than the piece. -/
theorem not_infix_replaceAll (hp : c ∉ p) (hq : c ∉ q) (hlength : p.length ≤ q.length)
    (hother : ¬p <+: q) (t : Text) :
    ¬c :: p <:+: replaceAll (c :: p) (c :: q) t := by
  -- By the length of the text, since behind an occurrence the rest is shorter by the whole piece.
  induction hn : t.length using Nat.strong_induction_on generalizing t with
  | _ n ih =>
    subst hn
    by_cases hhere : c :: p <+: t
    · obtain ⟨rest, rfl⟩ := hhere
      rw [replaceAll_start (List.cons_ne_nil c p)]
      intro hinfix
      rcases List.infix_cons_iff.mp hinfix with hprefix | hlater
      · have hq' : p <+: q ++ replaceAll (c :: p) (c :: q) rest :=
          (List.cons_prefix_cons.mp hprefix).2
        exact hother (List.prefix_of_prefix_length_le hq' (List.prefix_append _ _) hlength)
      · refine ih rest.length ?_ rest rfl (infix_of_append hq hlater)
        simp only [List.length_append, List.length_cons]
        omega
    · cases t with
      | nil => exact fun hinfix => List.cons_ne_nil c p (List.infix_nil.mp hinfix)
      | cons d t =>
        rw [replaceAll_cons hhere]
        intro hinfix
        rcases List.infix_cons_iff.mp hinfix with hprefix | hlater
        · obtain ⟨rfl, hrest⟩ := List.cons_prefix_cons.mp hprefix
          exact hhere (List.cons_prefix_cons.mpr ⟨rfl, prefix_of_prefix_replaceAll hp hrest⟩)
        · exact ih t.length (Nat.lt_succ_self _) t rfl hlater

end Marked

end Signpost.Text
