import Mathlib
import Signpost.Proofs.MediaType.Inclusion
import Signpost.Proofs.Route.Compiled

/-!
The conditions of routes: all of several conditions, and the methods and formats that a route
serves. A route that serves requests for whole answers serves requests for heads too, and one that
serves a format serves the wider ones. The guard of a compiled route is three conditions, taken
apart here once.
-/

namespace Signpost.Guard

theorem holds_allOf {gs : List Guard} {q : Query} :
    (allOf gs).holds q = true ↔ ∀ g ∈ gs, g.holds q = true := by
  induction gs with
  | nil => simp [allOf, holds]
  | cons g gs ih =>
    rw [List.forall_mem_cons, ← ih, ← Bool.and_eq_true]
    rfl

@[simp]
theorem upperAscii_lowerAscii (t : Text) :
    Text.upperAscii (Text.lowerAscii t) = Text.upperAscii t := by
  simp [Text.upperAscii, Text.lowerAscii]

theorem upperAscii_upperAscii (t : Text) :
    Text.upperAscii (Text.upperAscii t) = Text.upperAscii t := by
  simp [Text.upperAscii]

/-- A route serves requests with its own method, and a route for any method those for a whole
answer. -/
@[simp]
theorem servesMethod_self (m : Text) :
    servesMethod m (if m = ['*'] then "GET".toList else m) = true := by
  have hself : Text.eqIgnoreCase m m = true := beq_self_eq_true _
  unfold servesMethod
  split_ifs with hany
  · rw [hany]
    rfl
  · rw [hself, Bool.or_true, Bool.true_or]

/-- A method in capitals that serves requests for a whole answer serves requests for a head. -/
theorem servesMethod_head {m asked : Text} (hasked : Text.eqIgnoreCase asked "HEAD".toList = true)
    (h : servesMethod (Text.upperAscii m) "GET".toList = true) :
    servesMethod (Text.upperAscii m) asked = true := by
  have hget : Text.eqIgnoreCase "GET".toList (Text.upperAscii m) = true →
      Text.upperAscii m = "GET".toList := by
    intro heq
    have hlower :
        Text.lowerAscii "GET".toList = Text.lowerAscii (Text.upperAscii m) := eq_of_beq heq
    have hupper := congrArg Text.upperAscii hlower
    rw [upperAscii_lowerAscii, upperAscii_lowerAscii, upperAscii_upperAscii] at hupper
    rw [← hupper]
    decide
  have hhead : Text.eqIgnoreCase "GET".toList "HEAD".toList = false := by decide
  unfold servesMethod at h ⊢
  rw [hhead, Bool.false_and, Bool.or_false, Bool.or_eq_true] at h
  rcases h with hany | hsame
  · simp [hany]
  · rw [hget hsame, hasked, Bool.true_and, beq_self_eq_true, Bool.or_true]

/-- What a wider format accepts contains what the format itself accepts. -/
theorem holds_format_wider {declared : List MediaType} {required : Bool} {q : Query}
    {f g : MediaType} (hwider : g.includes f = true)
    (h : (format declared required).holds { q with format := some f } = true) :
    (format declared required).holds { q with format := some g } = true := by
  simp only [holds, Bool.or_eq_true, List.any_eq_true] at h ⊢
  refine h.imp_right ?_
  rintro ⟨m, hm, hincludes⟩
  exact ⟨m, hm, MediaType.includes_trans hwider hincludes⟩

end Signpost.Guard

namespace Signpost.Route

/-- What a compiled route asks of a request: method, format and host, each for itself. -/
theorem CompiledFrom.guard_iff {d : RouteDefinition} {r : Route} (hfrom : r.CompiledFrom d)
    {q : Query} :
    r.guard.holds q = true ↔
      (Guard.ofMethod r.method).holds q = true ∧
        (Guard.format r.formats (pinnedFormat? r.staticArgs).isSome).holds q = true ∧
          (Guard.host r.template.hostPattern).holds q = true := by
  rw [hfrom.guard, Guard.holds_allOf]
  simp

end Signpost.Route
