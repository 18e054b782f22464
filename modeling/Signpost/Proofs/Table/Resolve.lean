import Mathlib.Data.List.TakeDrop
import Signpost.Proofs.Route.Binding

/-!
Resolving against what it is for: the first route of a table that can stand for an action gives the
URL, and gives what it would give alone. Routes that cannot stand for the action leave no trace, and
neither do those behind the first one that can. Main statement:
`RouteTable.resolve_first_satisfiable`.
-/

namespace Signpost

/-- The route at an index of a list can stand for an action, and none before it can. -/
structure FirstSatisfiable (action : Text) (args : Args) (current : Option Request)
    (routes : List Route) (i : Nat) (r : Route) : Prop where
  route : routes[i]? = some r
  satisfiable : r.Satisfiable action args current
  first : ∀ j < i, ∀ s, routes[j]? = some s → ¬s.Satisfiable action args current

namespace FirstSatisfiable

variable {action : Text} {args : Args} {current : Option Request} {routes : List Route} {i : Nat}
  {r : Route}

theorem split (h : FirstSatisfiable action args current routes i r) :
    routes = routes.take i ++ r :: routes.drop (i + 1) := by
  obtain ⟨hi, rfl⟩ := List.getElem?_eq_some_iff.mp h.route
  rw [← List.drop_eq_getElem_cons hi, List.take_append_drop]

theorem not_satisfiable_before (h : FirstSatisfiable action args current routes i r) :
    ∀ s ∈ routes.take i, ¬s.Satisfiable action args current := by
  intro s hs
  obtain ⟨j, hj⟩ := List.mem_iff_getElem?.mp hs
  rw [List.getElem?_take] at hj
  split_ifs at hj with hlt
  exact h.first j hlt s hj

theorem exists_of_mem (hr : r ∈ routes) (hsatisfiable : r.Satisfiable action args current) :
    ∃ i s, FirstSatisfiable action args current routes i s := by
  induction routes with
  | nil => simp at hr
  | cons head routes ih =>
    by_cases hhead : head.Satisfiable action args current
    · exact ⟨0, head, rfl, hhead, fun j hj => absurd hj (Nat.not_lt_zero j)⟩
    · have hrest : r ∈ routes := by
        rcases List.mem_cons.mp hr with rfl | hrest
        · exact absurd hsatisfiable hhead
        · exact hrest
      obtain ⟨i, s, h⟩ := ih hrest
      refine ⟨i + 1, s, h.route, h.satisfiable, fun j hj s' hs' => ?_⟩
      cases j with
      | zero =>
        obtain rfl := Option.some.inj hs'
        exact hhead
      | succ j => exact h.first j (Nat.lt_of_succ_lt_succ hj) s' hs'

end FirstSatisfiable

namespace RouteTable

variable {t : RouteTable} {action : Text} {args : Args} {current : Option Request} {r : Route}

theorem IsCompiled.isSome_urlFor? (ht : t.IsCompiled) (hr : r ∈ t.routes) :
    (r.urlFor? action args current).isSome = true ↔ r.Satisfiable action args current :=
  Route.isSome_urlFor? (ht r hr).nodup_names

theorem IsCompiled.urlFor?_eq_none (ht : t.IsCompiled) (hr : r ∈ t.routes)
    (h : ¬r.Satisfiable action args current) : r.urlFor? action args current = none := by
  rw [← ht.isSome_urlFor? hr] at h
  simpa using h

/-- What a route gives has its host and URL, keeps action, arguments and table, and depends on the
table in nothing else. -/
theorem resolveWith?_of_urlFor? (t : RouteTable) {host url : Text}
    (h : r.urlFor? action args current = some (host, url)) :
    ∃ d : Resolution, d.host = host ∧ d.url = url ∧
      d.method = (if r.method = ['*'] then "GET".toList else r.method) ∧
      d.action = action ∧ d.args = args ∧ d.table = t ∧
      ∀ t' : RouteTable, t'.resolveWith? action args current r = some { d with table := t' } := by
  refine ⟨{
    host, url, action, args
    method := if r.method = ['*'] then "GET".toList else r.method
    anyMethod := r.method == ['*']
    table := t }, rfl, rfl, rfl, rfl, rfl, rfl, fun t' => ?_⟩
  rw [resolveWith?, h]
  rfl

/-- A route that gives a URL gives it in every table in which no route before it does. -/
theorem resolve_of_resolveWith? {before after : List Route} {d : Resolution}
    (ht : t.routes = before ++ r :: after) (hd : t.resolveWith? action args current r = some d)
    (hbefore : ∀ s ∈ before, s.urlFor? action args current = none) :
    t.resolve action args current = .ok d := by
  have hfirst : t.routes.findSome? (t.resolveWith? action args current) = some d := by
    refine List.findSome?_eq_some_iff.mpr ⟨before, r, after, ht, hd, fun s hs => ?_⟩
    rw [resolveWith?, hbefore s hs]
    rfl
  rw [resolve, hfirst]

theorem resolve_of_none (h : ∀ r ∈ t.routes, r.urlFor? action args current = none) :
    t.resolve action args current = .error (.noHandlerFound action args) := by
  have hnone : t.routes.findSome? (t.resolveWith? action args current) = none :=
    List.findSome?_eq_none_iff.mpr fun r hr => by rw [resolveWith?, h r hr, Option.map_none]
  rw [resolve, hnone]

theorem IsCompiled.exists_first (ht : t.IsCompiled) {d : Resolution}
    (hd : t.resolve action args current = .ok d) :
    ∃ i r, FirstSatisfiable action args current t.routes i r := by
  unfold resolve at hd
  split at hd
  · next found hfound =>
    obtain ⟨r, hr, hgives⟩ := List.exists_of_findSome?_eq_some hfound
    obtain ⟨written, hwritten, -⟩ := Option.map_eq_some_iff.mp hgives
    exact FirstSatisfiable.exists_of_mem hr
      ((ht.isSome_urlFor? hr).mp (Option.isSome_iff_exists.mpr ⟨written, hwritten⟩))
  · cases hd

/-- The route whose URL an action resolves to is the first that can stand for it. Then the
definition keeps action, arguments and table, and is otherwise what the route gives alone: routes
before it may be left out and what stands behind it may change. No URL is given just when no route
can stand for the action, and the error tells action and arguments. -/
theorem resolve_first_satisfiable (ht : t.IsCompiled) (action : Text) (args : Args)
    (current : Option Request) :
    ((∃ d, t.resolve action args current = .ok d) ↔
      ∃ r ∈ t.routes, r.Satisfiable action args current) ∧
      ((∀ r ∈ t.routes, ¬r.Satisfiable action args current) →
        t.resolve action args current = .error (.noHandlerFound action args)) ∧
      ∀ i r, FirstSatisfiable action args current t.routes i r →
        ∃ d,
          t.resolve action args current = .ok d ∧ d.action = action ∧ d.args = args ∧ d.table = t ∧
          resolve { routes := [r] } action args current = .ok
              { d with table := { routes := [r] } } ∧
          ∀ (t' : RouteTable) (before after : List Route), before.Sublist (t.routes.take i) →
            t'.routes = before ++ r :: after → t'.resolve action args current = .ok
              { d with table := t' } := by
  have hnone : (∀ r ∈ t.routes, ¬r.Satisfiable action args current) →
      t.resolve action args current = .error (.noHandlerFound action args) :=
    fun h => resolve_of_none fun r hr => ht.urlFor?_eq_none hr (h r hr)
  have hfirst : ∀ i r, FirstSatisfiable action args current t.routes i r →
      ∃ d, t.resolve action args current = .ok d ∧ d.action = action ∧ d.args = args ∧ d.table = t ∧
        resolve { routes := [r] } action args current = .ok { d with table := { routes := [r] } } ∧
        ∀ (t' : RouteTable) (before after : List Route), before.Sublist (t.routes.take i) →
          t'.routes = before ++ r :: after → t'.resolve action args current = .ok
            { d with table := t' } := by
    intro i r h
    have hr : r ∈ t.routes := List.mem_of_getElem? h.route
    obtain ⟨⟨host, url⟩, hurl⟩ :=
      Option.isSome_iff_exists.mp ((ht.isSome_urlFor? hr).mpr h.satisfiable)
    obtain ⟨d, -, -, -, haction, hargs, htable, hd⟩ := resolveWith?_of_urlFor? t hurl
    have hkept : ∀ (t' : RouteTable) (before after : List Route), before.Sublist (t.routes.take i) →
        t'.routes = before ++ r :: after → t'.resolve action args current = .ok
          { d with table := t' } := by
      intro t' before after hbefore ht'
      refine resolve_of_resolveWith? ht' (hd t') fun s hs => ?_
      have hs' := hbefore.subset hs
      exact ht.urlFor?_eq_none (List.mem_of_mem_take hs') (h.not_satisfiable_before s hs')
    have hwhole : t.resolve action args current = .ok { d with table := t } :=
      hkept t _ _ (List.Sublist.refl _) h.split
    refine ⟨d, ?_, haction, hargs, htable, hkept _ [] [] (List.nil_sublist _) rfl, hkept⟩
    rw [hwhole, ← htable]
  refine ⟨⟨?_, ?_⟩, hnone, hfirst⟩
  · rintro ⟨d, hd⟩
    by_contra hno
    push Not at hno
    rw [hnone hno] at hd
    cases hd
  · rintro ⟨r, hr, hsatisfiable⟩
    obtain ⟨i, s, h⟩ := FirstSatisfiable.exists_of_mem hr hsatisfiable
    obtain ⟨d, hd, -⟩ := hfirst i s h
    exact ⟨d, hd⟩

/-- Of two routes for one action, the first has a constraint that the argument does not meet. -/
theorem resolve_first_satisfiable_second :
    ∃ r s d,
      Route.compile { method := "GET".toList, path := "/users/{<[0-9]+>id}".toList,
                      action := "show".toList } = .ok r ∧
      Route.compile { method := "GET".toList, path := "/people/{id}".toList,
                      action := "show".toList } = .ok s ∧
      resolve { routes := [r, s] } "show".toList (.ofList [("id".toList, .single "eve".toList)])
        none = .ok d ∧
      resolve { routes := [s] } "show".toList (.ofList [("id".toList, .single "eve".toList)]) none =
        .ok { d with table := { routes := [s] } } := by
  have hurls : Route.compilesTo
      { method := "GET".toList, path := "/users/{<[0-9]+>id}".toList,
        action := "show".toList } (fun r =>
        (r.urlFor? "show".toList (.ofList [("id".toList, .single "eve".toList)]) none).isNone &&
        Route.compilesTo { method := "GET".toList, path := "/people/{id}".toList,
                           action := "show".toList } fun s =>
          (s.urlFor? "show".toList (.ofList [("id".toList, .single "eve".toList)])
            none).isSome) = true := by
    decide +kernel
  obtain ⟨r, hr, hrest⟩ := Route.exists_of_compilesTo hurls
  obtain ⟨hnone, hrest⟩ := Bool.and_eq_true _ _ ▸ hrest
  obtain ⟨s, hs, hsome⟩ := Route.exists_of_compilesTo hrest
  have ht : IsCompiled { routes := [r, s] } := by
    intro q hq
    rcases List.mem_pair.mp hq with rfl | rfl
    · exact ⟨_, hr⟩
    · exact ⟨_, hs⟩
  have hfirst : FirstSatisfiable "show".toList (.ofList [("id".toList, .single "eve".toList)]) none
      [r, s] 1 s := by
    refine ⟨rfl, (ht.isSome_urlFor? (by simp)).mp hsome, fun j hj q hq => ?_⟩
    obtain rfl := Nat.lt_one_iff.mp hj
    obtain rfl := Option.some.inj hq
    rw [← ht.isSome_urlFor? (by simp), Option.isNone_iff_eq_none.mp hnone]
    simp
  obtain ⟨-, -, hresolve⟩ :=
    resolve_first_satisfiable ht "show".toList (.ofList [("id".toList, .single "eve".toList)]) none
  obtain ⟨d, hd, -, -, -, halone, -⟩ := hresolve 1 s hfirst
  exact ⟨r, s, d, hr, hs, hd, halone⟩

end RouteTable

end Signpost
