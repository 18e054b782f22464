import Signpost.Proofs.Text.Cut
import Signpost.Proofs.Text.Trim
import Signpost.Regex.Reader

/-!
What the reader of patterns makes of a text when more text follows. The parts of a pattern are read
from its front, and what comes after a part does not change it, with one exception: where blanks and
comments do not count, a comment that is still open at the end of a text goes on in what follows.
`Regex.Steady` says this of a reader, for text that goes on with a closing parenthesis, as it does
behind the constraint of a placeholder. Main statements: `Regex.Steady.bind` and
`Regex.Steady.skip`, with which steady readers make up steady ones.
-/

namespace Signpost

namespace Regex

/-- Skipping goes on into further text only when nothing is left, and past a closing parenthesis
only within a comment. -/
theorem skipComments_append (inComment : Bool) (t : Text) :
    (∀ u, skipComments inComment (t ++ ')' :: u) = skipComments inComment t ++ ')' :: u) ∨
      (skipComments inComment t = [] ∧
        ∀ u, '\n' ∉ u → skipComments inComment (t ++ ')' :: u) = []) := by
  induction t generalizing inComment with
  | nil =>
    cases inComment with
    | false =>
      refine .inl fun u => ?_
      have hblank : Text.isBlank ')' = false := by decide
      simp [skipComments, hblank]
    | true =>
      have hcomment : ∀ u, '\n' ∉ u → skipComments true u = [] := by
        intro u hu
        induction u with
        | nil => rfl
        | cons c rest ih =>
          have hc : (c != '\n') = true := by
            simp only [List.mem_cons, not_or] at hu
            simpa using Ne.symm hu.1
          simp only [skipComments, hc, if_true]
          exact ih fun hmem => hu (List.mem_cons_of_mem _ hmem)
      refine .inr ⟨rfl, fun u hu => ?_⟩
      exact hcomment (')' :: u) (by simpa using hu)
  | cons c rest ih =>
    simp only [List.cons_append, skipComments]
    cases inComment with
    | true => exact ih _
    | false =>
      simp only [Bool.false_eq_true, if_false]
      split
      · exact ih _
      · split
        · exact ih _
        · exact .inl fun u => rfl

theorem skipComments_append_of_cons {inComment : Bool} {t rest : Text} {c : Char} (u : Text)
    (h : skipComments inComment t = c :: rest) :
    skipComments inComment (t ++ u) = c :: (rest ++ u) := by
  induction t generalizing inComment with
  | nil => simp [skipComments] at h
  | cons d t ih =>
    rw [List.cons_append]
    unfold skipComments at h ⊢
    split_ifs at h ⊢
    · exact ih h
    · exact ih h
    · exact ih h
    · obtain ⟨rfl, rfl⟩ := List.cons_eq_cons.mp h
      rfl

theorem skipComments_stop {inComment : Bool} {t rest : Text} {c : Char}
    (h : skipComments inComment t = c :: rest)
    (u : Text) : skipComments false (c :: u) = c :: u := by
  induction t generalizing inComment with
  | nil => simp [skipComments] at h
  | cons d t ih =>
    rw [skipComments] at h
    split_ifs at h with hcomment hblank hhash
    · exact ih h
    · exact ih h
    · exact ih h
    · obtain ⟨rfl, rfl⟩ := List.cons_eq_cons.mp h
      simp [skipComments, hblank, hhash]

namespace Modes

theorem skip_append (m : Modes) (t : Text) :
    (∀ u, m.skip (t ++ ')' :: u) = m.skip t ++ ')' :: u) ∨
      (m.skip t = [] ∧ ∀ u, '\n' ∉ u → m.skip (t ++ ')' :: u) = []) := by
  unfold skip
  split
  · exact skipComments_append false t
  · exact .inl fun u => rfl

@[simp]
theorem skip_paren (m : Modes) (u : Text) : m.skip (')' :: u) = ')' :: u := by
  have hblank : Text.isBlank ')' = false := by decide
  unfold skip
  split <;> simp [skipComments, hblank]

@[simp]
theorem skip_nil (m : Modes) : m.skip [] = [] := by
  unfold skip
  split <;> rfl

theorem skip_append_of_cons {m : Modes} {t rest : Text} {c : Char} (u : Text)
    (h : m.skip t = c :: rest) : m.skip (t ++ u) = c :: (rest ++ u) := by
  unfold skip at h ⊢
  split_ifs at h ⊢
  · exact skipComments_append_of_cons u h
  · rw [h]
    rfl

theorem skip_stop {m : Modes} {t rest : Text} {c : Char} (h : m.skip t = c :: rest) (u : Text) :
    m.skip (c :: u) = c :: u := by
  unfold skip at h ⊢
  split_ifs at h ⊢
  · exact skipComments_stop h u
  · rfl

@[simp]
theorem skip_skip (m : Modes) (t : Text) : m.skip (m.skip t) = m.skip t := by
  cases h : m.skip t with
  | nil => exact m.skip_nil
  | cons c rest => exact skip_stop h rest

theorem skip_append_of_ne_nil {m : Modes} {t : Text} (u : Text) (h : m.skip t ≠ []) :
    m.skip (t ++ u) = m.skip t ++ u := by
  obtain ⟨c, rest, hskip⟩ := List.exists_cons_of_ne_nil h
  rw [skip_append_of_cons u hskip, hskip, List.cons_append]

theorem readWhile_append {m : Modes} {p : Char → Bool} {t : Text} (u : Text)
    (hrest : (m.readWhile p t).2 ≠ []) :
    m.readWhile p (t ++ u) = ((m.readWhile p t).1, (m.readWhile p t).2 ++ u) := by
  induction t using readWhile.induct m p with
  | case1 =>
    rw [readWhile] at hrest
    exact absurd rfl hrest
  | case2 c t hc _ _ _ ih =>
    simp only [List.cons_append, readWhile, if_pos hc] at hrest ⊢
    have hskip : m.skip t ≠ [] := by
      intro hnil
      rw [hnil, readWhile] at hrest
      exact hrest rfl
    rw [skip_append_of_ne_nil u hskip, ih hrest]
  | case3 c t hc =>
    simp only [List.cons_append, readWhile, if_neg hc]

theorem readWhile_length (m : Modes) (p : Char → Bool) (t : Text) :
    (m.readWhile p t).2.length ≤ t.length := by
  induction t using readWhile.induct m p with
  | case1 => simp [readWhile]
  | case2 c t hc _ _ _ ih =>
    simp only [readWhile, if_pos hc]
    exact Nat.le_trans ih (Nat.le_succ_of_le (m.skip_length t))
  | case3 c t hc => simp only [readWhile, if_neg hc, Nat.le_refl]

theorem ne_nil_of_skip {m : Modes} {t : Text} (h : m.skip t ≠ []) : t ≠ [] := by
  rintro rfl
  exact h m.skip_nil

end Modes

/-- What a reader makes of a text it makes of the text with a closing parenthesis and more behind
it, and leaves that as it is; or it reads to the end of the text and into a comment, which goes on
to the end of the line. -/
def Steady {α : Type} (read : Text → Option (α × Text)) (t : Text) : Prop :=
  ∀ x rest, read t = some (x, rest) → rest.length ≤ t.length ∧
    ((∀ u, read (t ++ ')' :: u) = some (x, rest ++ ')' :: u)) ∨
      (rest = [] ∧ ∀ u, '\n' ∉ u → read (t ++ ')' :: u) = some (x, [])))

namespace Steady

variable {α β : Type}

theorem fails {read : Text → Option (α × Text)} {t : Text} (h : read t = none) : Steady read t := by
  intro x rest hread
  rw [h] at hread
  simp at hread

theorem of_append {read : Text → Option (α × Text)} {t : Text}
    (h : ∀ x rest, read t = some (x, rest) →
      rest.length ≤ t.length ∧ ∀ u, read (t ++ ')' :: u) = some (x, rest ++ ')' :: u)) :
    Steady read t := by
  intro x rest hread
  exact ⟨(h x rest hread).1, .inl (h x rest hread).2⟩

theorem bind {first : Text → Option (α × Text)} (next : α → Text → Option (β × Text)) {t : Text}
    (hfirst : Steady first t)
    (hnext : ∀ x rest, first t = some (x, rest) → Steady (next x) rest) :
    Steady (fun t => (first t).bind fun p => next p.1 p.2) t := by
  intro y rest' hread
  obtain ⟨⟨x, rest⟩, hx, hy⟩ := Option.bind_eq_some_iff.mp hread
  obtain ⟨hle, hcases⟩ := hfirst x rest hx
  obtain ⟨hle', hcases'⟩ := hnext x rest hx y rest' hy
  refine ⟨Nat.le_trans hle' hle, ?_⟩
  rcases hcases with hkeep | ⟨rfl, hopen⟩
  · rcases hcases' with hkeep' | ⟨rfl, hopen'⟩
    · exact .inl fun u => by simp only [hkeep u, Option.bind_some]; exact hkeep' u
    · exact .inr ⟨rfl, fun u hu => by simp only [hkeep u, Option.bind_some]; exact hopen' u hu⟩
  · obtain rfl : rest' = [] := List.eq_nil_of_length_eq_zero (Nat.le_zero.mp hle')
    exact .inr ⟨rfl, fun u hu => by simp only [hopen u hu, Option.bind_some]; exact hy⟩

theorem skip {read : Text → Option (α × Text)} {m : Modes} {t : Text}
    (h : Steady read (m.skip t)) : Steady (fun t => read (m.skip t)) t := by
  have hskip : Steady (fun t => some ((), m.skip t)) t := by
    intro x rest hsome
    obtain ⟨-, rfl⟩ := Prod.mk.inj (Option.some.inj hsome)
    refine ⟨m.skip_length t, ?_⟩
    rcases m.skip_append t with hkeep | ⟨hnil, hopen⟩
    · exact .inl fun u => congrArg (fun t => Option.some ((), t)) (hkeep u)
    · exact .inr ⟨hnil, fun u hu => congrArg (fun t => Option.some ((), t)) (hopen u hu)⟩
  have hbind : Steady (fun t => (some ((), m.skip t)).bind fun p => read p.2) t := by
    refine bind (fun _ => read) hskip fun x rest hsome => ?_
    obtain ⟨-, rfl⟩ := Prod.mk.inj (Option.some.inj hsome)
    exact h
  exact hbind

theorem congr {read read' : Text → Option (α × Text)} {t : Text} (heq : ∀ t, read t = read' t)
    (h : Steady read' t) : Steady read t := by
  obtain rfl : read = read' := funext heq
  exact h

theorem cons {read : Text → Option (α × Text)} (next : Text → Option (α × Text))
    {c : Char} {t : Text} (hnext : ∀ t, read (c :: t) = next t)
    (h : Steady next t) : Steady read (c :: t) := by
  intro x rest hread
  rw [hnext] at hread
  obtain ⟨hle, hcases⟩ := h x rest hread
  refine ⟨Nat.le_succ_of_le hle, ?_⟩
  simpa only [List.cons_append, hnext] using hcases

theorem congr_cons {read read' : Text → Option (α × Text)} {c : Char} {t : Text}
    (heq : ∀ t, read (c :: t) = read' (c :: t))
    (h : Steady read' (c :: t)) : Steady read (c :: t) := by
  intro x rest hread
  rw [heq] at hread
  simpa only [List.cons_append, heq] using h x rest hread

/-- A reader that first skips what does not count, told by what it makes of the character it stops
at. -/
theorem skipping (m : Modes) {read : Text → Option (α × Text)} {t : Text}
    (hread : ∀ t, read t = read (m.skip t)) (hnil : Steady read [])
    (hcons : ∀ c rest, (∀ u, m.skip (c :: u) = c :: u) → Steady read (c :: rest)) :
    Steady read t := by
  refine congr hread (skip ?_)
  cases h : m.skip t with
  | nil => exact hnil
  | cons c rest => exact hcons c rest (Modes.skip_stop h)

theorem pure (x : α) (t : Text) : Steady (fun t => some (x, t)) t := by
  intro y rest hread
  obtain ⟨rfl, rfl⟩ := Prod.mk.inj (Option.some.inj hread)
  exact ⟨Nat.le_refl _, .inl fun u => rfl⟩

theorem map {read : Text → Option (α × Text)} (f : α → Option β) {t : Text} (h : Steady read t) :
    Steady (fun t => (read t).bind fun p => (f p.1).map fun y => (y, p.2)) t := by
  refine bind (fun x t => (f x).map fun y => (y, t)) h fun x rest _ => ?_
  cases hf : f x with
  | none => exact fails rfl
  | some y => simpa only [hf, Option.map_some] using pure y rest

/-- What is left behind a steady reader, unless nothing is, stays in front of further text. -/
theorem append {read : Text → Option (α × Text)} {t rest : Text} {x : α} (h : Steady read t)
    (hread : read t = Option.some (x, rest)) (hrest : rest ≠ []) (u : Text) :
    read (t ++ ')' :: u) = Option.some (x, rest ++ ')' :: u) := by
  rcases (h x rest hread).2 with hkeep | ⟨hnil, -⟩
  · exact hkeep u
  · exact absurd hnil hrest

end Steady

end Regex

end Signpost
