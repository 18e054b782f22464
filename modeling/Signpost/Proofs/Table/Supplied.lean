import Signpost.Proofs.Route.Restating
import Signpost.Proofs.Table.WrittenUrl

/-!
Where the values in a path come from. Resolving an action binds every argument of a path to a value
that the action or the caller gave and that is deferred or meets the constraint. Only an argument
that is named like the host template, read without its braces, takes the empty value when nothing is
given for it. Main statement: `RouteTable.resolve_binds_supplied`.
-/

namespace Signpost

namespace CompiledTemplate

variable {template action : Text} {c : CompiledTemplate} {a : Argument}

theorem ReadFrom.fallback_eq (h : c.ReadFrom template action) (ha : a ∈ c.arguments) :
    a.fallback = fallsBack c.host.stripped a.name := by
  obtain ⟨known, found, -, -, harguments⟩ := h.arguments
  rw [harguments] at ha
  obtain ⟨b, -, rfl⟩ := List.mem_map.mp ha
  rfl

/-- An argument of a path falls back on the empty value just when its name is the host template
without braces. -/
theorem ReadFrom.fallback_iff (h : c.ReadFrom template action) (ha : a ∈ c.arguments)
    (hpath : a.isHost = false) :
    a.fallback = true ↔ a.name = c.host.stripped := by
  rcases h.argument_cases ha with ⟨hhost, -⟩ | ⟨-, p, hp, hname, -⟩
  · rw [hpath] at hhost
    cases hhost
  · rw [h.fallback_eq ha]
    exact fallsBack_iff (hname ▸ h.isName_placeholder hp)

end CompiledTemplate

namespace Route

variable {r : Route} {groups : Captures} {args : Args} {a : Argument}

/-- The action or the caller gives a value for the argument, deferred or accepted, and the route
binds the argument to it. -/
def BindsSupplied (r : Route) (groups : Captures) (args : Args) (a : Argument) : Prop :=
  ∃ v, (r.given groups args a.name).bind ArgValue.first? = some v ∧
    (isDeferred v = true ∨ a.accepts v = true) ∧ (r.boundArgs groups args).get? a.name = some v

/-- Nothing is given for the argument, and the route binds it to the empty value. -/
def BindsEmpty (r : Route) (groups : Captures) (args : Args) (a : Argument) : Prop :=
  (r.given groups args a.name).bind ArgValue.first? = none ∧
    (r.boundArgs groups args).get? a.name = some []

theorem binds_of_takes (hnodup : (r.template.arguments.map (·.name)).Nodup)
    (ha : a ∈ r.template.arguments) (h : a.Takes (r.given groups args a.name)) :
    r.BindsSupplied groups args a ∨ a.fallback = true ∧ r.BindsEmpty groups args a := by
  have hbound :
      (r.boundArgs groups args).get? a.name = some (Argument.taken (r.given groups args a.name)) :=
    (get?_boundArgs hnodup).mpr ⟨List.mem_map_of_mem ha, rfl⟩
  rcases h with ⟨v, hv, hadmitted⟩ | ⟨hnone, hfallback⟩
  · refine .inl ⟨v, hv, hadmitted, ?_⟩
    rw [hbound, Argument.taken, hv, Option.getD_some]
  · refine .inr ⟨hfallback, hnone, ?_⟩
    rw [hbound, Argument.taken, hnone, Option.getD_none]

/-- A route is not taken when nothing is given for an argument that does not fall back on the empty
value. -/
theorem not_satisfiable_of_missing {action : Text} {current : Option Request}
    (ha : a ∈ r.template.arguments) (hrequired : a.fallback = false)
    (hmissing : ∀ groups, r.template.actionPattern.captures? action = some groups →
      (r.given groups args a.name).bind ArgValue.first? = none) :
        ¬r.Satisfiable action args current := by
  rintro ⟨groups, hgroups, hsatisfied⟩
  rcases hsatisfied.arguments a ha with ⟨v, hv, -⟩ | ⟨-, hfallback⟩
  · rw [hmissing groups hgroups] at hv
    cases hv
  · rw [hrequired] at hfallback
    cases hfallback

end Route

namespace RouteTable

variable {t : RouteTable} {action : Text} {args : Args} {current : Option Request}

/-- No value in a path is made up. The URL of a resolved action is written by the first route that
can stand for it, and that binds every argument of its path to a value that the action or the caller
gave, deferred or accepted by the constraint. The one exception is an argument whose name is the
host template without braces: it takes the empty value when nothing is given for it. Just these
arguments of paths fall back on the empty value, and a route with nothing given for another one is
not taken. -/
theorem resolve_binds_supplied (ht : t.IsCompiled) (action : Text) (args : Args)
    (current : Option Request) :
    (∀ d, t.resolve action args current = .ok d → ∃ i r groups,
      FirstSatisfiable action args current t.routes i r ∧
        r.template.actionPattern.captures? action = some groups ∧
        d.WrittenBy r groups args current ∧
        ∀ a ∈ r.template.arguments, a.isHost = false →
          r.BindsSupplied groups args a ∨
            a.name = r.template.host.stripped ∧ r.BindsEmpty groups args a) ∧
    ∀ r ∈ t.routes, ∀ a ∈ r.template.arguments, a.isHost = false →
      (a.fallback = true ↔ a.name = r.template.host.stripped) ∧
        (a.name ≠ r.template.host.stripped →
          (∀ groups, r.template.actionPattern.captures? action = some groups →
            (r.given groups args a.name).bind ArgValue.first? = none) →
          r.urlFor? action args current = none) := by
  constructor
  · intro d hd
    obtain ⟨i, r, groups, hfirst, hgroups, hwritten⟩ := ht.exists_writer hd
    have hr : r.IsCompiled := ht r (List.mem_of_getElem? hfirst.route)
    obtain ⟨text, hread⟩ := hr.readFrom
    refine ⟨i, r, groups, hfirst, hgroups, hwritten, fun a ha hpath => ?_⟩
    rw [← hread.fallback_iff ha hpath]
    exact Route.binds_of_takes hr.nodup_names ha (hwritten.satisfied.arguments a ha)
  · intro r hr a ha hpath
    obtain ⟨text, hread⟩ := (ht r hr).readFrom
    have hfallback := hread.fallback_iff ha hpath
    refine ⟨hfallback, fun hname hmissing => ht.urlFor?_eq_none hr ?_⟩
    have hrequired : a.fallback = false := by rwa [Bool.eq_false_iff, ne_eq, hfallback]
    exact Route.not_satisfiable_of_missing ha hrequired hmissing

/-- An argument that the caller gives and one that the action gives, both in the path. -/
theorem resolve_binds_supplied_both :
    ∃ r d groups, Route.compile
        { method := "GET".toList, path := "/{area}/{<[0-9]+>id}".toList,
          action := "{area}.show".toList } = .ok r ∧
      resolve { routes := [r] } "Users.show".toList (.ofList [("id".toList, .single "7".toList)])
        none = .ok d ∧
      d.url = "/users/7".toList ∧
      ∀ a ∈ r.template.arguments,
        r.BindsSupplied groups (.ofList [("id".toList, .single "7".toList)]) a := by
  have hresolves : Route.compilesTo
      { method := "GET".toList, path := "/{area}/{<[0-9]+>id}".toList,
        action := "{area}.show".toList } (fun r =>
        decide (∀ a ∈ r.template.arguments, a.isHost = false ∧ a.name ≠ r.template.host.stripped) &&
        (resolve { routes := [r] } "Users.show".toList (.ofList [("id".toList, .single "7".toList)])
          none).toOption.any fun d => d.url == "/users/7".toList) = true := by
    decide +kernel
  obtain ⟨r, hr, hrest⟩ := Route.exists_of_compilesTo hresolves
  obtain ⟨hpath, hrest⟩ := Bool.and_eq_true _ _ ▸ hrest
  obtain ⟨d, hd, hurl⟩ := Except.exists_of_any hrest
  have ht : IsCompiled { routes := [r] } := .singleton hr
  obtain ⟨hbinds, -⟩ :=
    resolve_binds_supplied ht "Users.show".toList (.ofList [("id".toList, .single "7".toList)]) none
  obtain ⟨i, s, groups, hfirst, -, -, hsupplied⟩ := hbinds d hd
  obtain rfl := List.mem_singleton.mp (List.mem_of_getElem? hfirst.route)
  refine ⟨s, d, groups, hr, hd, eq_of_beq hurl, fun a ha => ?_⟩
  obtain ⟨hhost, hname⟩ := of_decide_eq_true hpath a ha
  exact (hsupplied a ha hhost).resolve_right fun hempty => hname hempty.1

/-- An argument of a path that is named like the literal host in front of it takes the empty
value. -/
theorem resolve_binds_unsupplied :
    ∃ r d a, Route.compile
        { method := "GET".toList, path := "api/{api}".toList, action := "show".toList } = .ok r ∧
      resolve { routes := [r] } "show".toList ∅ none = .ok d ∧ d.host = "api".toList ∧
      d.url = "/".toList ∧ a ∈ r.template.arguments ∧ a.isHost = false ∧
      ∀ groups, r.template.actionPattern.captures? "show".toList = some groups →
        (r.given groups ∅ a.name).bind ArgValue.first? = none := by
  have hresolves : Route.compilesTo
      { method := "GET".toList, path := "api/{api}".toList, action := "show".toList } (fun r =>
        (resolve { routes := [r] } "show".toList ∅ none).toOption.any fun d =>
          decide (d.host = "api".toList ∧ d.url = "/".toList) && r.template.arguments.any fun a =>
            decide (a.isHost = false ∧ ∀ groups ∈ r.template.actionPattern.captures? "show".toList,
              (r.given groups ∅ a.name).bind ArgValue.first? = none)) = true := by
    decide +kernel
  obtain ⟨r, hr, hrest⟩ := Route.exists_of_compilesTo hresolves
  obtain ⟨d, hd, hrest⟩ := Except.exists_of_any hrest
  obtain ⟨hwritten, hargument⟩ := Bool.and_eq_true _ _ ▸ hrest
  obtain ⟨hhost, hurl⟩ := of_decide_eq_true hwritten
  obtain ⟨a, ha, hfacts⟩ := List.any_eq_true.mp hargument
  obtain ⟨hpath, hnone⟩ := of_decide_eq_true hfacts
  exact ⟨r, d, a, hr, hd, hhost, hurl, ha, hpath, hnone⟩

end RouteTable

end Signpost
