import Signpost.Proofs.Route.Writing
import Signpost.Proofs.Table.Resolve

/-!
The URL of a resolved action in its parts. Whatever resolves has been written by the first route
that can stand for the action, with the values that this route binds. Main statement:
`RouteTable.IsCompiled.exists_writer`.
-/

namespace Signpost

/-- The route can stand for an action, and the resolution is its own: the method, and host and URL
as the route writes them for the values that it binds, with what it has no use for in the query. -/
structure Resolution.WrittenBy (d : Resolution) (r : Route) (groups : Captures) (args : Args)
    (current : Option Request) :
    Prop where
  satisfied : r.SatisfiedBy groups args (current.bind (·.format))
  method : d.method = (if r.method = ['*'] then "GET".toList else r.method)
  host : d.host = r.template.renderHost (r.boundArgs groups args)
  url : d.url = Route.withPairs (r.mountedPath (r.boundArgs groups args) current) (r.leftOver args)

namespace RouteTable

variable {t : RouteTable} {action : Text} {args : Args} {current : Option Request} {d : Resolution}

/-- The first route that can stand for an action writes a resolution of it. -/
theorem IsCompiled.exists_writtenBy (ht : t.IsCompiled) {i : Nat} {r : Route}
    (hfirst : FirstSatisfiable action args current t.routes i r) {groups : Captures}
    (hgroups : r.template.actionPattern.captures? action = some groups) :
    ∃ d, t.resolve action args current = .ok d ∧ d.WrittenBy r groups args current := by
  have hr : r.IsCompiled := ht r (List.mem_of_getElem? hfirst.route)
  obtain ⟨groups', hgroups', hsatisfied⟩ := hfirst.satisfiable
  obtain rfl : groups' = groups := Option.some.inj (hgroups'.symm.trans hgroups)
  obtain ⟨d, hdhost, hdurl, hdmethod, -, -, -, hgives⟩ :=
    resolveWith?_of_urlFor? t (hr.urlFor?_eq_writes hgroups hsatisfied)
  have hresolve := resolve_of_resolveWith? hfirst.split (hgives t) fun s hs =>
    ht.urlFor?_eq_none (List.mem_of_mem_take hs) (hfirst.not_satisfiable_before s hs)
  exact ⟨_, hresolve, hsatisfied, hdmethod, hdhost, hdurl⟩

theorem IsCompiled.writtenBy (ht : t.IsCompiled) {i : Nat} {r : Route}
    (hfirst : FirstSatisfiable action args current t.routes i r) {groups : Captures}
    (hgroups : r.template.actionPattern.captures? action = some groups)
    (hd : t.resolve action args current = .ok d) :
    d.WrittenBy r groups args current := by
  obtain ⟨d', hd', hwritten⟩ := ht.exists_writtenBy hfirst hgroups
  obtain rfl := Except.ok.inj (hd.symm.trans hd')
  exact hwritten

/-- What an action resolves to has been written by the first route that can stand for it. -/
theorem IsCompiled.exists_writer (ht : t.IsCompiled) (hd : t.resolve action args current = .ok d) :
    ∃ i r groups, FirstSatisfiable action args current t.routes i r ∧
      r.template.actionPattern.captures? action = some groups ∧
      d.WrittenBy r groups args current := by
  obtain ⟨i, r, hfirst⟩ := ht.exists_first hd
  obtain ⟨groups, hgroups, -⟩ := hfirst.satisfiable
  exact ⟨i, r, groups, hfirst, hgroups, ht.writtenBy hfirst hgroups hd⟩

theorem IsCompiled.isRelative_url (ht : t.IsCompiled) (hd : t.resolve action args current = .ok d) :
    Url.IsRelative d.url := by
  obtain ⟨i, r, groups, hfirst, -, hwritten⟩ := ht.exists_writer hd
  have hr : r.IsCompiled := ht r (List.mem_of_getElem? hfirst.route)
  rw [hwritten.url]
  exact hr.isRelative_withPairs _ current _

end RouteTable

end Signpost
