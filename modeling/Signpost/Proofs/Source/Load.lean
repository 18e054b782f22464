import Mathlib.Data.List.Basic
import Mathlib.Order.Basic
import Signpost.Proofs.Route.Compiled
import Signpost.Source.Load

/-!
Loading several sources, and looking whether one of them is newer than a moment. Both go over the
sources in order and stop at the first one that settles the matter, so each answer is told by what
that source is and what those before it are not. Main statements: `Source.loads_or_firstFault` and
`Source.settled_or_firstAfter`, with what is answered in each case.
-/

namespace Signpost.Source

open File (Time)

/-- Some source has `q`, and every source before it has `p`. -/
def FirstAfter (p q : Source → Prop) (sources : List Source) : Prop :=
  ∃ before s after, sources = before ++ s :: after ∧ (∀ b ∈ before, p b) ∧ q s

variable {p q : Source → Prop} {s : Source} {rest sources : List Source}

theorem not_firstAfter_nil : ¬FirstAfter p q [] := by
  rintro ⟨before, s, after, h, -⟩
  simp at h

theorem firstAfter_cons : FirstAfter p q (s :: rest) ↔ q s ∨ p s ∧ FirstAfter p q rest := by
  constructor
  · rintro ⟨before, u, after, h, hbefore, hu⟩
    cases before with
    | nil =>
      obtain ⟨rfl, rfl⟩ := List.cons.inj h
      exact .inl hu
    | cons b before =>
      obtain ⟨rfl, rfl⟩ := List.cons.inj h
      obtain ⟨hs, hbefore⟩ := List.forall_mem_cons.mp hbefore
      exact .inr ⟨hs, before, u, after, rfl, hbefore, hu⟩
  · rintro (hs | ⟨hs, before, u, after, rfl, hbefore, hu⟩)
    · exact ⟨[], s, rest, rfl, by simp, hs⟩
    · exact ⟨s :: before, u, after, rfl, List.forall_mem_cons.mpr ⟨hs, hbefore⟩, hu⟩

/-- The source can be read and parsed. -/
def Loads (s : Source) : Prop :=
  ∃ routes, s.load = .ok routes

/-- The routes that a source declares; none when it cannot be loaded. -/
def routes (s : Source) : List Route :=
  match s.load with
  | .ok routes => routes
  | .error _ => []

/-- The error is that of the first source, in order, that cannot be loaded. -/
def FirstFault (sources : List Source) (e : LoadError) : Prop :=
  FirstAfter Loads (fun s => s.load = .error e) sources

theorem loadAll_of_loads (h : ∀ s ∈ sources, s.Loads) :
    loadAll sources = .ok (sources.flatMap routes) := by
  induction sources with
  | nil => rfl
  | cons s rest ih =>
    obtain ⟨⟨found, hs⟩, hrest⟩ := List.forall_mem_cons.mp h
    have hroutes : s.routes = found := by simp only [routes, hs]
    rw [loadAll, hs, ih hrest, List.flatMap_cons, hroutes]
    rfl

theorem loadAll_of_firstFault {e : LoadError} (h : FirstFault sources e) :
    loadAll sources = .error e := by
  induction sources with
  | nil => exact absurd h not_firstAfter_nil
  | cons s rest ih =>
    rw [loadAll]
    rcases firstAfter_cons.mp h with hs | ⟨⟨found, hs⟩, hrest⟩
    · rw [hs]
      rfl
    · rw [hs, ih hrest]
      rfl

/-- Either every source can be loaded, or there is a first one that cannot. -/
theorem loads_or_firstFault (sources : List Source) :
    (∀ s ∈ sources, s.Loads) ∨ ∃ e, FirstFault sources e := by
  induction sources with
  | nil => exact .inl (by simp)
  | cons s rest ih =>
    cases hs : s.load with
    | error e => exact .inr ⟨e, firstAfter_cons.mpr (.inl hs)⟩
    | ok found =>
      rcases ih with hrest | ⟨e, he⟩
      · exact .inl (List.forall_mem_cons.mpr ⟨⟨found, hs⟩, hrest⟩)
      · exact .inr ⟨e, firstAfter_cons.mpr (.inr ⟨⟨found, hs⟩, he⟩)⟩

/-- The time of the source can be read and is not after the moment; without a moment, no source is
settled. -/
def Settled (loadedAt : Option Time) (s : Source) : Prop :=
  ∃ moment modified, loadedAt = some moment ∧ s.modified = .ok modified ∧ modified ≤ moment

/-- The time of the source can be read and is after the moment, if there is one. -/
def Newer (loadedAt : Option Time) (s : Source) : Prop :=
  ∃ modified, s.modified = .ok modified ∧ ∀ moment, loadedAt = some moment → moment < modified

/-- The time of the source cannot be read, which is this error. -/
def Unreadable (e : LoadError) (s : Source) : Prop :=
  ∃ cause, s.modified = .error cause ∧ e = .io s.name cause

section AnyNewer

variable {loadedAt : Option Time}

theorem anyNewer_of_settled (h : ∀ s ∈ sources, Settled loadedAt s) :
    anyNewer loadedAt sources = .ok false := by
  induction sources with
  | nil => rfl
  | cons s rest ih =>
    obtain ⟨⟨moment, modified, rfl, hs, hle⟩, hrest⟩ := List.forall_mem_cons.mp h
    rw [anyNewer, hs]
    simp only [if_neg (Nat.not_lt.mpr hle)]
    exact ih hrest

theorem anyNewer_of_newer (h : FirstAfter (Settled loadedAt) (Newer loadedAt) sources) :
    anyNewer loadedAt sources = .ok true := by
  induction sources with
  | nil => exact absurd h not_firstAfter_nil
  | cons s rest ih =>
    rw [anyNewer]
    rcases firstAfter_cons.mp h with ⟨modified, hs, hlt⟩ | ⟨⟨moment, modified, rfl, hs, hle⟩, hrest⟩
    · rw [hs]
      cases loadedAt with
      | none => rfl
      | some moment => exact if_pos (hlt moment rfl)
    · rw [hs]
      exact (if_neg (Nat.not_lt.mpr hle)).trans (ih hrest)

theorem anyNewer_of_unreadable {e : LoadError}
    (h : FirstAfter (Settled loadedAt) (Unreadable e) sources) :
    anyNewer loadedAt sources = .error e := by
  induction sources with
  | nil => exact absurd h not_firstAfter_nil
  | cons s rest ih =>
    rw [anyNewer]
    rcases firstAfter_cons.mp h with ⟨cause, hs, rfl⟩ | ⟨⟨moment, modified, rfl, hs, hle⟩, hrest⟩
    · rw [hs]
    · rw [hs]
      exact (if_neg (Nat.not_lt.mpr hle)).trans (ih hrest)

/-- Either every source is settled, or the first one that is not is newer, or has no time that can
be read. -/
theorem settled_or_firstAfter (loadedAt : Option Time) (sources : List Source) :
    (∀ s ∈ sources, Settled loadedAt s) ∨ FirstAfter (Settled loadedAt) (Newer loadedAt) sources ∨
      ∃ e, FirstAfter (Settled loadedAt) (Unreadable e) sources := by
  induction sources with
  | nil => exact .inl (by simp)
  | cons s rest ih =>
    have hhere : Settled loadedAt s ∨ Newer loadedAt s ∨ ∃ e, Unreadable e s := by
      cases hs : s.modified with
      | error cause => exact .inr (.inr ⟨_, cause, hs, rfl⟩)
      | ok modified =>
        cases loadedAt with
        | none => exact .inr (.inl ⟨modified, hs, by simp⟩)
        | some moment =>
          rcases Nat.lt_or_ge moment modified with hlt | hle
          · exact .inr (.inl ⟨modified, hs, fun m hm => Option.some.inj hm ▸ hlt⟩)
          · exact .inl ⟨moment, modified, rfl, hs, hle⟩
    rcases hhere with hs | hs | ⟨e, hs⟩
    · rcases ih with hrest | hrest | ⟨e, hrest⟩
      · exact .inl (List.forall_mem_cons.mpr ⟨hs, hrest⟩)
      · exact .inr (.inl (firstAfter_cons.mpr (.inr ⟨hs, hrest⟩)))
      · exact .inr (.inr ⟨e, firstAfter_cons.mpr (.inr ⟨hs, hrest⟩)⟩)
    · exact .inr (.inl (firstAfter_cons.mpr (.inl hs)))
    · exact .inr (.inr ⟨e, firstAfter_cons.mpr (.inl hs)⟩)

end AnyNewer

end Signpost.Source
