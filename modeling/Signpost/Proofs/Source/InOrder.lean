import Mathlib.Data.List.Forall2
import Signpost.Proofs.Route.Compiled

/-!
Lists gone through in order, up to the first element that fails. What comes of the whole list is
told by its elements: one result for each when none fails, and otherwise the error of the first one
that does.
-/

namespace Signpost

variable {ε α β : Type} {f : α → Except ε β}

/-- The error is that of the first element, in order, that has one. -/
def FailsFirst (f : α → Except ε β) (xs : List α) (e : ε) : Prop :=
  ∃ before x after, xs = before ++ x :: after ∧ (∀ y ∈ before, ∃ z, f y = .ok z) ∧ f x = .error e

theorem not_failsFirst_nil {e : ε} : ¬FailsFirst f [] e := by
  rintro ⟨before, x, after, h, -⟩
  simp at h

theorem failsFirst_cons {x : α} {xs : List α} {e : ε} :
    FailsFirst f (x :: xs) e ↔ f x = .error e ∨ (∃ y, f x = .ok y) ∧ FailsFirst f xs e := by
  constructor
  · rintro ⟨before, z, after, h, hbefore, hz⟩
    cases before with
    | nil =>
      obtain ⟨rfl, rfl⟩ := List.cons.inj h
      exact .inl hz
    | cons b before =>
      obtain ⟨rfl, rfl⟩ := List.cons.inj h
      obtain ⟨hx, hbefore⟩ := List.forall_mem_cons.mp hbefore
      exact .inr ⟨hx, before, z, after, rfl, hbefore, hz⟩
  · rintro (hx | ⟨hx, before, z, after, rfl, hbefore, hz⟩)
    · exact ⟨[], x, xs, rfl, by simp, hx⟩
    · exact ⟨x :: before, z, after, rfl, List.forall_mem_cons.mpr ⟨hx, hbefore⟩, hz⟩

theorem Except.mapM_eq_ok_iff {xs : List α} {ys : List β} :
    xs.mapM f = .ok ys ↔ List.Forall₂ (fun x y => f x = .ok y) xs ys := by
  induction xs generalizing ys with
  | nil =>
    rw [List.mapM_nil, List.forall₂_nil_left_iff]
    exact ⟨fun h => (Except.ok.inj h).symm, fun h => by rw [h]; rfl⟩
  | cons x xs ih =>
    rw [List.mapM_cons, List.forall₂_cons_left_iff]
    constructor
    · intro h
      obtain ⟨y, hy, h⟩ := Except.bind_eq_ok h
      obtain ⟨zs, hzs, h⟩ := Except.bind_eq_ok h
      exact ⟨y, zs, hy, ih.mp hzs, (Except.ok.inj h).symm⟩
    · rintro ⟨y, zs, hy, hzs, rfl⟩
      rw [hy, ih.mpr hzs]
      rfl

theorem Except.mapM_eq_error_iff {xs : List α} {e : ε} :
    xs.mapM f = .error e ↔ FailsFirst f xs e := by
  induction xs with
  | nil => simp [not_failsFirst_nil, pure, Except.pure]
  | cons x xs ih =>
    rw [List.mapM_cons, failsFirst_cons, ← ih]
    cases hx : f x with
    | error e' => simp [bind, Except.bind]
    | ok y => cases hxs : xs.mapM f <;> simp [bind, Except.bind, pure, Except.pure]

end Signpost
