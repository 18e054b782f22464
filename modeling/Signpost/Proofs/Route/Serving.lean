import Signpost.Proofs.Route.Guard
import Signpost.Proofs.Template.PlainPath
import Signpost.Proofs.Text.Map

/-!
What a request gives to the route that serves it. Of a route without host these are the pieces that
the placeholders of its path take, under static arguments. Main statement:
`Route.argsFor?_eq_some_iff`, with a look-up for each map in it.
-/

namespace Signpost.Route

def takenArgs (r : Route) (q : Query) (taken : Captures) : TextMap Text :=
  .ofList (r.template.arguments.filterMap fun a =>
    (r.boundValue q taken a).map fun v => (a.name, v))

variable {r : Route} {q : Query} {args : TextMap Text} {taken : Captures}

theorem argsFor?_eq_some_iff : r.argsFor? q = some args ↔
    r.guard.holds q = true ∧ ∃ taken, r.template.pathPattern.captures? q.path = some taken ∧
      (r.takenArgs q taken).overlay r.staticArgs = args := by
  unfold argsFor?
  split_ifs with hguard
  · rw [Option.map_eq_some_iff]
    exact (and_iff_right hguard).symm
  · simp [hguard]

theorem filterMap_names_sublist (value : Argument → Option Text) (arguments : List Argument) :
    ((arguments.filterMap fun a =>
      (value a).map fun v => (a.name, v)).map (·.1)).Sublist (arguments.map (·.name)) := by
  induction arguments with
  | nil => exact .slnil
  | cons a rest ih =>
    cases hv : value a with
    | none =>
      rw [List.filterMap_cons_none (by rw [hv, Option.map_none]), List.map_cons]
      exact ih.cons _
    | some v =>
      rw [List.filterMap_cons_some (by rw [hv, Option.map_some]), List.map_cons, List.map_cons]
      exact ih.cons_cons _

theorem get?_takenArgs (hnodup : (r.template.arguments.map (·.name)).Nodup) {name v : Text} :
    (r.takenArgs q taken).get? name = some v ↔
      ∃ a ∈ r.template.arguments, a.name = name ∧ r.boundValue q taken a = some v := by
  rw [takenArgs, TextMap.get?_ofList (hnodup.sublist (filterMap_names_sublist _ _)),
    List.mem_filterMap]
  constructor
  · rintro ⟨a, ha, hvalue⟩
    obtain ⟨w, hw, heq⟩ := Option.map_eq_some_iff.mp hvalue
    obtain ⟨rfl, rfl⟩ := Prod.mk.inj heq
    exact ⟨a, ha, rfl, hw⟩
  · rintro ⟨a, ha, rfl, hvalue⟩
    exact ⟨a, ha, by rw [hvalue, Option.map_some]⟩

section Hostless

variable (hr : r.IsCompiled) (hhost : r.host = [])
include hr hhost

theorem IsCompiled.boundValue_eq {a : Argument} (ha : a ∈ r.template.arguments) :
    r.boundValue q taken a = taken.get? a.name := by
  obtain ⟨text, hread⟩ := hr.readFrom
  obtain ⟨p, -, hpa⟩ := hread.exists_placeholder hhost ha
  rw [boundValue, hpa.ofPath]
  rfl

/-- A route without host and pinned format has no condition but the method on requests that ask for
none. -/
theorem IsCompiled.guard_holds (hformat : r.staticArgs.get? formatArg = none) {asked path : Text}
    (hmethod : Guard.servesMethod r.method asked = true) :
    r.guard.holds ⟨asked, path, none, none⟩ = true := by
  obtain ⟨d, hd⟩ := hr
  have hfrom := compile_compiledFrom hd
  have hcapital : Text.upperAscii r.method = r.method := by
    rw [hfrom.method, Guard.upperAscii_upperAscii]
  refine hfrom.guard_iff.mpr ⟨?_, ?_, ?_⟩
  · rw [Guard.ofMethod, hcapital]
    exact hmethod
  · rw [pinnedFormat?, hformat]
    rfl
  · rw [hfrom.template.hostPattern_eq_none hhost]
    rfl

end Hostless

end Signpost.Route
