import Mathlib.Data.List.Basic
import Mathlib.Tactic.SplitIfs
import Signpost.Text.Basic

/-!
Texts cut at separators and put together again. A cut gives back what was put around the separator
as long as the separator does not occur where the cut would find it first, and a list of texts
without the separator survives being joined and split.
-/

namespace Signpost.Text

theorem cutFirst_sound {separator : Char} {t before after : Text}
    (h : cutFirst separator t = some (before, after)) : t = before ++ separator :: after := by
  induction t generalizing before with
  | nil => simp [cutFirst] at h
  | cons c rest ih =>
    by_cases hc : c = separator
    · simp only [cutFirst, if_pos hc, Option.some.injEq, Prod.mk.injEq] at h
      rw [hc, ← h.1, ← h.2, List.nil_append]
    · simp only [cutFirst, if_neg hc, Option.map_eq_some_iff] at h
      obtain ⟨⟨b, a⟩, hcut, heq⟩ := h
      simp only [Prod.mk.injEq] at heq
      obtain ⟨rfl, rfl⟩ := heq
      rw [ih hcut, List.cons_append]

theorem cutFirst_append {separator : Char} {t before after : Text} (u : Text)
    (h : cutFirst separator t = some (before, after)) :
    cutFirst separator (t ++ u) = some (before, after ++ u) := by
  induction t generalizing before with
  | nil => simp [cutFirst] at h
  | cons c rest ih =>
    rw [List.cons_append]
    by_cases hc : c = separator
    · simp only [cutFirst, if_pos hc, Option.some.injEq, Prod.mk.injEq] at h ⊢
      exact ⟨h.1, by rw [h.2]⟩
    · simp only [cutFirst, if_neg hc, Option.map_eq_some_iff] at h ⊢
      obtain ⟨⟨b, a⟩, hcut, heq⟩ := h
      simp only [Prod.mk.injEq] at heq
      obtain ⟨rfl, rfl⟩ := heq
      exact ⟨_, ih hcut, rfl⟩

theorem cutFirst_eq {separator : Char} {t : Text} (ht : separator ∉ t) (u : Text) :
    cutFirst separator (t ++ separator :: u) = some (t, u) := by
  induction t with
  | nil => simp [cutFirst]
  | cons c rest ih =>
    simp only [List.mem_cons, not_or] at ht
    obtain ⟨hc, hrest⟩ := ht
    simp [cutFirst, Ne.symm hc, ih hrest]

/-- The first separator tells the text in front of it from the text behind it. -/
theorem append_separator_inj {separator : Char} {t u v w : Text} (ht : separator ∉ t)
    (hv : separator ∉ v) (h : t ++ separator :: u = v ++ separator :: w) : t = v ∧ u = w := by
  have hcut := congrArg (cutFirst separator) h
  rw [cutFirst_eq ht, cutFirst_eq hv] at hcut
  exact Prod.mk.inj (Option.some.inj hcut)

theorem cutFirst_append_of_none {separator : Char} {t u before after : Text}
    (hnone : cutFirst separator t = none) (h : cutFirst separator (t ++ u) = some (before, after)) :
    ∃ more, before = t ++ more ∧ cutFirst separator u = some (more, after) := by
  induction t generalizing before with
  | nil => exact ⟨before, rfl, h⟩
  | cons c rest ih =>
    rw [List.cons_append] at h
    by_cases hc : c = separator
    · simp [cutFirst, hc] at hnone
    · simp only [cutFirst, if_neg hc, Option.map_eq_none_iff] at hnone
      simp only [cutFirst, if_neg hc, Option.map_eq_some_iff] at h
      obtain ⟨⟨b, a⟩, hcut, heq⟩ := h
      simp only [Prod.mk.injEq] at heq
      obtain ⟨rfl, rfl⟩ := heq
      obtain ⟨more, rfl, hu⟩ := ih hnone hcut
      exact ⟨more, rfl, hu⟩

theorem not_mem_of_cutFirst {separator : Char} {t before after : Text}
    (h : cutFirst separator t = some (before, after)) : separator ∉ before := by
  induction t generalizing before with
  | nil => simp [cutFirst] at h
  | cons c rest ih =>
    rw [cutFirst] at h
    split_ifs at h with hc
    · obtain ⟨rfl, -⟩ := Prod.mk.inj (Option.some.inj h)
      exact List.not_mem_nil
    · obtain ⟨⟨b, a⟩, hcut, heq⟩ := Option.map_eq_some_iff.mp h
      obtain ⟨rfl, rfl⟩ := Prod.mk.inj heq
      exact List.not_mem_cons_of_ne_of_not_mem (Ne.symm hc) (ih hcut)

@[simp]
theorem cutFirst_eq_none_iff {separator : Char} {t : Text} :
    cutFirst separator t = none ↔ separator ∉ t := by
  constructor
  · intro hnone hmem
    obtain ⟨before, after, rfl, hbefore⟩ := List.eq_append_cons_of_mem hmem
    rw [cutFirst_eq hbefore] at hnone
    cases hnone
  · intro h
    cases hcut : cutFirst separator t with
    | none => rfl
    | some cut =>
      rw [cutFirst_sound hcut] at h
      simp at h

@[simp]
theorem cutLast_eq_none_iff {separator : Char} {t : Text} :
    cutLast separator t = none ↔ separator ∉ t := by
  induction t with
  | nil => simp [cutLast]
  | cons c rest ih =>
    rw [List.mem_cons, not_or, ← ih, cutLast]
    cases cutLast separator rest with
    | none => simp [eq_comm]
    | some cut => simp

theorem cutLast_eq_some_iff {separator : Char} {t before after : Text} :
    cutLast separator t = some (before, after) ↔
      t = before ++ separator :: after ∧ separator ∉ after := by
  constructor
  · intro h
    induction t generalizing before with
    | nil => cases h
    | cons c rest ih =>
      rw [cutLast] at h
      cases hrest : cutLast separator rest with
      | some cut =>
        obtain ⟨b, a⟩ := cut
        rw [hrest] at h
        obtain ⟨rfl, rfl⟩ := Prod.mk.inj (Option.some.inj h)
        obtain ⟨hcut, hafter⟩ := ih hrest
        exact ⟨congrArg (c :: ·) hcut, hafter⟩
      | none =>
        simp only [hrest] at h
        split_ifs at h with hc
        obtain ⟨rfl, rfl⟩ := Prod.mk.inj (Option.some.inj h)
        exact ⟨by rw [hc, List.nil_append], cutLast_eq_none_iff.mp hrest⟩
  · rintro ⟨rfl, hafter⟩
    induction before with
    | nil => simp [cutLast, cutLast_eq_none_iff.mpr hafter]
    | cons c before ih => simp [cutLast, ih]

theorem stripStart?_eq_some {piece t rest : Text} :
    stripStart? piece t = some rest ↔ t = piece ++ rest := by
  induction piece generalizing t with
  | nil =>
    constructor
    · exact Option.some.inj
    · exact congrArg some
  | cons p piece ih =>
    cases t with
    | nil => simp [stripStart?]
    | cons c t =>
      simp only [stripStart?, List.cons_append, List.cons.injEq]
      split_ifs with hc
      · rw [ih]
        exact (and_iff_right hc.symm).symm
      · simp [Ne.symm hc]

theorem stripEnd?_eq_some {piece t kept : Text} (h : stripEnd? piece t = some kept) :
    t = kept ++ piece := by
  obtain ⟨rest, hrest, rfl⟩ := Option.map_eq_some_iff.mp h
  rw [stripStart?_eq_some] at hrest
  rw [← List.reverse_reverse t, hrest, List.reverse_append, List.reverse_reverse]

theorem splitOn_of_not_mem {separator : Char} {t : Text} (h : separator ∉ t) :
    splitOn separator t = [t] := by
  induction t with
  | nil => rfl
  | cons c rest ih =>
    obtain ⟨hc, hrest⟩ := List.ne_and_not_mem_of_not_mem_cons h
    rw [splitOn, if_neg (Ne.symm hc), ih hrest]

theorem splitOn_append {separator : Char} {t : Text} (h : separator ∉ t) (u : Text) :
    splitOn separator (t ++ separator :: u) = t :: splitOn separator u := by
  induction t with
  | nil => simp [splitOn]
  | cons c rest ih =>
    obtain ⟨hc, hrest⟩ := List.ne_and_not_mem_of_not_mem_cons h
    rw [List.cons_append, splitOn, if_neg (Ne.symm hc), ih hrest]

/-- A text is split on both sides of a separator in it for itself. -/
theorem splitOn_append_cons (separator : Char) (t u : Text) :
    splitOn separator (t ++ separator :: u) = splitOn separator t ++ splitOn separator u := by
  induction t with
  | nil => simp [splitOn]
  | cons c rest ih =>
    rw [List.cons_append, splitOn, splitOn, ih]
    split_ifs with hc
    · rfl
    · cases h : splitOn separator rest with
      | nil => exact absurd h (splitOn_ne_nil separator rest)
      | cons piece more => rfl

@[simp]
theorem length_splitOn (separator : Char) (t : Text) :
    (splitOn separator t).length = t.count separator + 1 := by
  induction t with
  | nil => rfl
  | cons c rest ih =>
    rw [splitOn]
    split_ifs with hc
    · rw [List.length_cons, ih, hc, List.count_cons_self]
    · rw [List.count_cons_of_ne hc, ← ih]
      cases h : splitOn separator rest with
      | nil => exact absurd h (splitOn_ne_nil separator rest)
      | cons piece more => rfl

/-- A piece has no separator in it, and nothing that is not in the text. -/
theorem mem_of_mem_splitOn {separator : Char} {t piece : Text}
    (h : piece ∈ splitOn separator t) {c : Char} (hc : c ∈ piece) : c ≠ separator ∧ c ∈ t := by
  induction t generalizing piece with
  | nil =>
    obtain rfl := List.mem_singleton.mp h
    cases hc
  | cons d rest ih =>
    rw [splitOn] at h
    split_ifs at h with hd
    · rcases List.mem_cons.mp h with rfl | h
      · cases hc
      · exact ⟨(ih h hc).1, List.mem_cons_of_mem d (ih h hc).2⟩
    · split at h
      · next first more hrest =>
        rw [hrest] at ih
        rcases List.mem_cons.mp h with rfl | h
        · rcases List.mem_cons.mp hc with rfl | hc
          · exact ⟨hd, List.mem_cons_self⟩
          · exact ⟨(ih List.mem_cons_self hc).1,
              List.mem_cons_of_mem d (ih List.mem_cons_self hc).2⟩
        · have hmore := ih (List.mem_cons_of_mem first h) hc
          exact ⟨hmore.1, List.mem_cons_of_mem d hmore.2⟩
      · next hnil => exact absurd hnil (splitOn_ne_nil separator rest)

/-- A piece without the separator that a text starts with is in the part in front of the
separator. -/
theorem prefix_append_separator_iff {separator : Char} {piece : Text} (h : separator ∉ piece)
    (t u : Text) :
    piece <+: t ++ separator :: u ↔ piece <+: t := by
  constructor
  · intro hpiece
    rcases List.prefix_or_prefix_of_prefix hpiece
      (List.prefix_append t (separator :: u)) with hwithin | ⟨more, rfl⟩
    · exact hwithin
    · cases more with
      | nil => simp
      | cons c more =>
        obtain ⟨rfl, -⟩ := List.cons_prefix_cons.mp ((List.prefix_append_right_inj t).mp hpiece)
        exact absurd (List.mem_append_right t List.mem_cons_self) h
  · exact fun hpiece => hpiece.trans (List.prefix_append t (separator :: u))

@[simp]
theorem join_cons_cons (separator piece next : Text) (more : List Text) :
    join separator (piece :: next :: more) = piece ++ separator ++ join separator (next :: more) :=
  rfl

/-- One piece stands in one place of the join, whatever the piece. -/
theorem exists_join_append (separator : Text) (before after : List Text) :
    ∃ x y, ∀ piece, join separator (before ++ piece :: after) = x ++ piece ++ y := by
  induction before with
  | nil =>
    cases after with
    | nil => exact ⟨[], [], fun piece => (List.append_nil piece).symm⟩
    | cons next after =>
      exact ⟨[], separator ++ join separator (next :: after), fun piece => List.append_assoc _ _ _⟩
  | cons first before ih =>
    obtain ⟨x, y, hrest⟩ := ih
    refine ⟨first ++ separator ++ x, y, fun piece => ?_⟩
    have hcons : join separator (first :: (before ++ piece :: after)) =
        first ++ separator ++ join separator (before ++ piece :: after) := by
      cases before <;> rfl
    rw [List.cons_append, hcons, hrest]
    simp only [List.append_assoc]

/-- Pieces without the separator come back from their join; there has to be a piece, since no text
splits into none. -/
theorem splitOn_join {separator : Char} {pieces : List Text} (hne : pieces ≠ [])
    (h : ∀ p ∈ pieces, separator ∉ p) :
    splitOn separator (join [separator] pieces) = pieces := by
  induction pieces with
  | nil => exact absurd rfl hne
  | cons piece more ih =>
    obtain ⟨hpiece, hmore⟩ := List.forall_mem_cons.mp h
    cases more with
    | nil => exact splitOn_of_not_mem hpiece
    | cons next more =>
      rw [join_cons_cons, List.append_assoc, List.singleton_append, splitOn_append hpiece,
        ih (List.cons_ne_nil next more) hmore]

theorem mem_join {separator : Text} {pieces : List Text} {c : Char}
    (h : c ∈ join separator pieces) :
    c ∈ separator ∨ ∃ p ∈ pieces, c ∈ p := by
  induction pieces with
  | nil => cases h
  | cons piece more ih =>
    cases more with
    | nil => exact .inr ⟨piece, List.mem_cons_self, h⟩
    | cons next more =>
      rw [join_cons_cons, List.mem_append, List.mem_append] at h
      rcases h with (hpiece | hseparator) | hmore
      · exact .inr ⟨piece, List.mem_cons_self, hpiece⟩
      · exact .inl hseparator
      · exact (ih hmore).imp_right fun ⟨p, hp, hc⟩ => ⟨p, List.mem_cons_of_mem _ hp, hc⟩

/-- What stands in front of a separator does not depend on what is behind it. -/
theorem takeWhile_ne_append {separator : Char} (t u : Text) :
    (t ++ separator :: u).takeWhile (· ≠ separator) = t.takeWhile (· ≠ separator) := by
  induction t with
  | nil => simp
  | cons c rest ih => by_cases hc : c = separator <;> simp_all

/-- The first separator is where a search for it stops. -/
theorem span_ne_separator {separator : Char} {t : Text} (h : separator ∉ t) (u : Text) :
    (t ++ separator :: u).takeWhile (· ≠ separator) = t ∧
      (t ++ separator :: u).dropWhile (· ≠ separator) = separator :: u := by
  have hall : ∀ c ∈ t, decide (c ≠ separator) = true := by
    intro c hc
    exact decide_eq_true fun heq => h (heq ▸ hc)
  rw [List.takeWhile_append_of_pos hall, List.dropWhile_append_of_pos hall]
  simp

theorem takeWhile_ne_of_not_mem {separator : Char} {t : Text} (h : separator ∉ t) :
    t.takeWhile (· ≠ separator) = t := by
  rw [← takeWhile_ne_append t [], (span_ne_separator h []).1]

end Signpost.Text
