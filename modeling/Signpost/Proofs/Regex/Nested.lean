import Mathlib.Data.List.Basic
import Signpost.Proofs.Regex.LookFree
import Signpost.Proofs.Regex.SteadyPart

/-!
A pattern within a pattern. A text that is a pattern on its own is read the same way between
parentheses, whatever groups are open around it: the reader never looks at those, except that a
closing parenthesis ends the innermost one, and at their names, except that no two groups share one.
Main statements: `Regex.Reader.step_within` and `Regex.Reads.keeps_or_swallows`.
-/

namespace Signpost.Regex

/-- The reader with groups open around those it knows, and with names that are taken already. -/
def Reader.within (s : Reader) (around : List OpenGroup) (taken : List Text) : Reader :=
  { s with opened := s.opened ++ around, names := s.names ++ taken }

/-- The reader goes through a text and ends as `final`. -/
def Reads (s : Reader) (t : Text) (final : Reader) : Prop :=
  ∃ fuel, Reader.run fuel s t = some final

theorem Reads.eq_of_skip {s final : Reader} {t : Text} (h : Reads s t final)
    (hskip : s.modes.skip t = []) : final = s := by
  obtain ⟨fuel, hrun⟩ := h
  rw [Reader.run.eq_def, hskip] at hrun
  exact (Option.some.inj hrun).symm

theorem Reads.step {s final : Reader} {c : Char} {t rest : Text} (h : Reads s t final)
    (hskip : s.modes.skip t = c :: rest) :
    ∃ s' rest', s.step c rest = some (s', rest') ∧ Reads s' rest' final := by
  obtain ⟨fuel, hrun⟩ := h
  rw [Reader.run.eq_def, hskip] at hrun
  cases fuel with
  | zero => simp at hrun
  | succ fuel =>
    obtain ⟨⟨s', rest'⟩, hstep, hrest⟩ := Option.bind_eq_some_iff.mp hrun
    exact ⟨s', rest', hstep, fuel, hrest⟩

theorem Reads.congr {s final : Reader} {t t' : Text} (h : Reads s t final)
    (hskip : s.modes.skip t = s.modes.skip t') : Reads s t' final := by
  obtain ⟨fuel, hrun⟩ := h
  refine ⟨fuel, ?_⟩
  rw [Reader.run.eq_def] at hrun ⊢
  rw [← hskip]
  exact hrun

/-- A run goes on step by step until it stops: what holds where it stops, and of each step when it
holds behind it, holds of the run. -/
@[elab_as_elim]
theorem Reads.induct {final : Reader} {motive : (s : Reader) → (t : Text) → Reads s t final → Prop}
    (stop : ∀ t h, final.modes.skip t = [] → motive final t h)
    (step : ∀ s t h c rest s' t', s.modes.skip t = c :: rest → s.step c rest = some (s', t') →
      ∀ hrest, motive s' t' hrest → motive s t h)
    {s : Reader} {t : Text} (h : Reads s t final) : motive s t h := by
  obtain ⟨fuel, hrun⟩ := h
  induction fuel generalizing s t with
  | zero =>
    cases hskip : s.modes.skip t with
    | nil =>
      obtain rfl := eq_of_skip ⟨0, hrun⟩ hskip
      exact stop t _ hskip
    | cons c rest =>
      rw [Reader.run.eq_def, hskip] at hrun
      simp at hrun
  | succ fuel ih =>
    cases hskip : s.modes.skip t with
    | nil =>
      obtain rfl := eq_of_skip ⟨fuel + 1, hrun⟩ hskip
      exact stop t _ hskip
    | cons c rest =>
      have hrun' := hrun
      rw [Reader.run.eq_def, hskip] at hrun'
      obtain ⟨⟨s', t'⟩, hstep, hrest⟩ := Option.bind_eq_some_iff.mp hrun'
      exact step s t _ c rest s' t' hskip hstep ⟨fuel, hrest⟩ (ih hrest)

theorem Reader.apply_opening_eq_some {s t : Reader} {name : Text} {modes : Modes}
    (h : s.apply (.opening (some name) modes) = some t) :
    name ∉ s.names ∧ t = s.open (some name) modes := by
  simp only [Reader.apply] at h
  split_ifs at h with htaken
  exact ⟨fun hmem => htaken (List.contains_iff_mem.mpr hmem), (Option.some.inj h).symm⟩

theorem Reader.apply_repetition_eq_some {s t : Reader} {least : Nat} {most : Option Nat}
    {greedy : Bool} (h : s.apply (.repetition least most greedy) = some t) :
    ∃ p pieces, s.branches.pieces = p :: pieces ∧
      t = Reader.push { s with branches := ⟨s.branches.done, pieces⟩ }
        { regex := .repeated p.regex least most (greedy != s.modes.swapGreed),
          depth := p.depth + 1 } := by
  simp only [Reader.apply, Reader.repeatLast] at h
  split at h
  · cases h
  · next p pieces hpieces =>
    split_ifs at h
    exact ⟨p, pieces, hpieces, (Option.some.inj h).symm⟩

/-- What a part does within other groups is what it does on its own; a group that it opens has a
name of its own. -/
theorem Reader.apply_within {s s' inner : Reader} {part : Part} {around : List OpenGroup}
    {taken : List Text} (h : s.apply part = some s')
    (hinner : (s.within around taken).apply part = some inner) (hfresh : s.names.Disjoint taken) :
    inner = s'.within around taken ∧ s'.names.Disjoint taken := by
  cases part with
  | piece p =>
    obtain rfl := Option.some.inj h
    obtain rfl := Option.some.inj hinner
    exact ⟨rfl, hfresh⟩
  | change modes =>
    obtain rfl := Option.some.inj h
    obtain rfl := Option.some.inj hinner
    exact ⟨rfl, hfresh⟩
  | opening name modes =>
    cases name with
    | none =>
      obtain rfl := Option.some.inj h
      obtain rfl := Option.some.inj hinner
      exact ⟨rfl, hfresh⟩
    | some name =>
      obtain ⟨-, rfl⟩ := Reader.apply_opening_eq_some h
      obtain ⟨hnew, rfl⟩ := Reader.apply_opening_eq_some hinner
      exact ⟨rfl, List.disjoint_cons_left.mpr ⟨fun hmem =>
        hnew (List.mem_append_right _ hmem), hfresh⟩⟩
  | closing =>
    obtain ⟨branches, opened, modes, names⟩ := s
    cases opened with
    | nil => simp [Reader.apply, Reader.close] at h
    | cons g opened =>
      obtain rfl := Option.some.inj h
      obtain rfl := Option.some.inj hinner
      exact ⟨rfl, hfresh⟩
  | alternative =>
    obtain rfl := Option.some.inj h
    obtain rfl := Option.some.inj hinner
    exact ⟨rfl, hfresh⟩
  | repetition least most greedy =>
    obtain ⟨p, pieces, hpieces, rfl⟩ := Reader.apply_repetition_eq_some h
    obtain ⟨p', pieces', hpieces', rfl⟩ := Reader.apply_repetition_eq_some hinner
    obtain ⟨rfl, rfl⟩ := List.cons.inj (hpieces.symm.trans hpieces')
    exact ⟨rfl, hfresh⟩

/-- A step within other groups, in front of a closing parenthesis: the same step, or the last one
when it runs into a comment that swallows the parenthesis. -/
theorem Reader.step_within {s s' : Reader} {c : Char} {t rest : Text}
    (h : s.step c t = some (s', rest)) :
    (∀ u around taken inner behind, s.names.Disjoint taken →
      (s.within around taken).step c (t ++ ')' :: u) = some (inner, behind) →
      inner = s'.within around taken ∧ s'.names.Disjoint taken ∧ behind = rest ++ ')' :: u) ∨
    (rest = [] ∧ ∀ u around taken inner behind, '\n' ∉ u → s.names.Disjoint taken →
      (s.within around taken).step c (t ++ ')' :: u) = some (inner, behind) →
      inner = s'.within around taken ∧ s'.names.Disjoint taken ∧ behind = []) := by
  obtain ⟨⟨part, rest'⟩, hpart, happly⟩ := Option.bind_eq_some_iff.mp h
  obtain ⟨s'', hs', heq⟩ := Option.bind_eq_some_iff.mp happly
  obtain ⟨rfl, rfl⟩ := Prod.mk.inj (Option.some.inj heq)
  -- Whatever the part reads as within, it is applied as on its own.
  have hinner : ∀ u around taken inner behind more, s.names.Disjoint taken →
      readPart s.modes c (t ++ ')' :: u) = some (part, more) →
      (s.within around taken).step c (t ++ ')' :: u) = some (inner, behind) →
      inner = s''.within around taken ∧ s''.names.Disjoint taken ∧ behind = more := by
    intro u around taken inner behind more hfresh hread hstep
    obtain ⟨⟨part', more'⟩, hpart', happly'⟩ := Option.bind_eq_some_iff.mp hstep
    obtain ⟨rfl, rfl⟩ := Prod.mk.inj (Option.some.inj (hread.symm.trans hpart'))
    obtain ⟨inner', hinner', heq'⟩ := Option.bind_eq_some_iff.mp happly'
    obtain ⟨rfl, rfl⟩ := Prod.mk.inj (Option.some.inj heq')
    obtain ⟨hwithin, hfresh'⟩ := Reader.apply_within hs' hinner' hfresh
    exact ⟨hwithin, hfresh', rfl⟩
  rcases (readPart_steady c t part rest' hpart).2 with hkeep | ⟨hnil, hopen⟩
  · exact .inl fun u around taken inner behind hfresh =>
      hinner u around taken inner behind _ hfresh (hkeep u)
  · exact .inr ⟨hnil, fun u around taken inner behind hu hfresh =>
      hinner u around taken inner behind _ hfresh (hopen u hu)⟩

/-- The reader that ends as `final` goes through a text within other groups too, up to the
parenthesis behind it. -/
def Keeps (s : Reader) (t : Text) (final : Reader) : Prop :=
  ∀ u around taken last, s.names.Disjoint taken →
    Reads (s.within around taken) (t ++ ')' :: u) last →
    final.names.Disjoint taken ∧ Reads (final.within around taken) (')' :: u) last

/-- The text ends in a comment, which within other groups swallows the parenthesis and the line
behind it. -/
def Swallows (s : Reader) (t : Text) (final : Reader) : Prop :=
  ∀ u around taken last, '\n' ∉ u → s.names.Disjoint taken →
    Reads (s.within around taken) (t ++ ')' :: u) last → last = final.within around taken

theorem keeps_or_swallows_of_skip {s : Reader} {t : Text} (hskip : s.modes.skip t = []) :
    Keeps s t s ∨ Swallows s t s := by
  rcases s.modes.skip_append t with hkeep | ⟨-, hopen⟩
  · refine .inl fun u around taken last hfresh h => ⟨hfresh, h.congr ?_⟩
    show s.modes.skip (t ++ ')' :: u) = s.modes.skip (')' :: u)
    rw [hkeep u, hskip, s.modes.skip_paren, List.nil_append]
  · exact .inr fun u around taken last hu _ h => h.eq_of_skip (hopen u hu)

/-- A text that a reader goes through on its own it goes through within other groups, unless the
text ends in a comment. -/
theorem Reads.keeps_or_swallows {s final : Reader} {t : Text} (h : Reads s t final) :
    Keeps s t final ∨ Swallows s t final := by
  induction h using Reads.induct with
  | stop t h hskip => exact keeps_or_swallows_of_skip hskip
  | step s t h c rest s' t' hskip hstep hrest ih =>
    have hskip' : ∀ u around taken,
        (s.within around taken).modes.skip (t ++ ')' :: u) = c :: (rest ++ ')' :: u) :=
      fun u _ _ => Modes.skip_append_of_cons _ hskip
    rcases Reader.step_within hstep with hkeep | ⟨hnil, hopen⟩
    · rcases ih with hkeeps | hswallows
      · refine .inl fun u around taken last hfresh h => ?_
        obtain ⟨inner, behind, hstep', hlast⟩ := h.step (hskip' u around taken)
        obtain ⟨rfl, hfresh', rfl⟩ := hkeep u around taken inner behind hfresh hstep'
        exact hkeeps u around taken last hfresh' hlast
      · refine .inr fun u around taken last hu hfresh h => ?_
        obtain ⟨inner, behind, hstep', hlast⟩ := h.step (hskip' u around taken)
        obtain ⟨rfl, hfresh', rfl⟩ := hkeep u around taken inner behind hfresh hstep'
        exact hswallows u around taken last hu hfresh' hlast
    · refine .inr fun u around taken last hu hfresh h => ?_
      obtain ⟨inner, behind, hstep', hlast⟩ := h.step (hskip' u around taken)
      obtain ⟨rfl, -, rfl⟩ := hopen u around taken inner behind hu hfresh hstep'
      subst hnil
      obtain rfl := hrest.eq_of_skip s'.modes.skip_nil
      exact hlast.eq_of_skip (Modes.skip_nil _)

end Signpost.Regex
