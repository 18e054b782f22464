import Mathlib.Data.Nat.Find
import Signpost.Proofs.Router.History
import Signpost.Proofs.Table.Lookup
import Signpost.Proofs.Table.Resolve

/-!
Precedence under insertion. A route that is put into a table answers when it can and stands in front
of the route that answered before; otherwise everything is answered as before. Dispatching, look-ups
and resolving all take the first route that gives something, so the law is proved for that once.
Main statement: `RouteTable.insertAt_precedence`.
-/

namespace Signpost

/-- The route at an index of a list is the first that can answer. -/
structure FirstAble (able : Route → Prop) (routes : List Route) (i : Nat) : Prop where
  found : ∃ r, routes[i]? = some r ∧ able r
  first : ∀ j < i, ∀ s, routes[j]? = some s → ¬able s

def Route.Serves (r : Route) (q : Query) : Prop :=
  ∃ args, r.argsFor? q = some args

/-- A table that holds only this route resolves the action. -/
def Route.ResolvesAlone (r : Route) (action : Text) (args : Args)
    (current : Option Request) : Prop :=
  ∃ d, RouteTable.resolve { routes := [r] } action args current = .ok d

/-- The resolution without the table that it stays bound to. -/
def Resolution.unbound (d : Resolution) : Resolution :=
  { d with table := .empty }

namespace RouteTable

/-- A route put at this position, or at the end when the position lies beyond it, comes no later
than the first route that can answer, if there is one. -/
def Leads (t : RouteTable) (able : Route → Prop) (position : Nat) : Prop :=
  ∀ i, FirstAble able t.routes i → min position t.size ≤ i

/-- The law of precedence for one way of asking a table: a new route answers as it does alone if it
can answer and leads, and otherwise the answer is that of the table without it. -/
structure Precedence {α : Type} (able : Route → Prop) (ask : RouteTable → α) (t : RouteTable)
    (r : Route) (position : Nat) : Prop where
  taken : able r → t.Leads able position → ask (t.insertAt position r) = ask { routes := [r] }
  passed : ¬(able r ∧ t.Leads able position) → ask (t.insertAt position r) = ask t

theorem leads_iff {t : RouteTable} {able : Route → Prop} {position : Nat} :
    t.Leads able position ↔ ∀ s ∈ t.routes.take position, ¬able s := by
  classical
  constructor
  · intro hleads s hs hable
    obtain ⟨j, hj⟩ := List.mem_iff_getElem?.mp hs
    rw [List.getElem?_take] at hj
    split_ifs at hj with hlt
    have hexists : ∃ i, ∃ r, t.routes[i]? = some r ∧ able r := ⟨j, s, hj, hable⟩
    have hfirst : FirstAble able t.routes (Nat.find hexists) :=
      ⟨Nat.find_spec hexists, fun k hk u hu hu' => Nat.find_min hexists hk ⟨u, hu, hu'⟩⟩
    have hle := hleads _ hfirst
    have hfind : Nat.find hexists ≤ j := Nat.find_min' hexists ⟨s, hj, hable⟩
    have hsize : j < t.size := (List.getElem?_eq_some_iff.mp hj).1
    omega
  · intro hnone i hi
    obtain ⟨r, hr, hable⟩ := hi.found
    by_contra hlt
    refine hnone r (List.mem_iff_getElem?.mpr ⟨i, ?_⟩) hable
    rw [List.getElem?_take, if_pos (by omega)]
    exact hr

section FirstGiving

variable {β : Type} {gives : Route → Option β} {t : RouteTable} {r : Route} {position : Nat}

theorem findSome?_insertAt_of_none (h : gives r = none) :
    (t.insertAt position r).routes.findSome? gives = t.routes.findSome? gives := by
  rw [insertAt, List.findSome?_append, List.findSome?_cons, h, ← List.findSome?_append,
    List.take_append_drop]

theorem findSome?_insertAt_of_before {s : Route} (hs : s ∈ t.routes.take position)
    (h : (gives s).isSome = true) :
    (t.insertAt position r).routes.findSome? gives = t.routes.findSome? gives := by
  have hbefore : ((t.routes.take position).findSome? gives).isSome = true :=
    List.findSome?_isSome_iff.mpr ⟨s, hs, h⟩
  obtain ⟨b, hb⟩ := Option.isSome_iff_exists.mp hbefore
  conv_rhs => rw [← List.take_append_drop position t.routes]
  rw [insertAt, List.findSome?_append, List.findSome?_append, hb, Option.some_or, Option.some_or]

theorem findSome?_insertAt_of_leading (hr : (gives r).isSome = true)
    (h : ∀ s ∈ t.routes.take position, gives s = none) :
    (t.insertAt position r).routes.findSome? gives = [r].findSome? gives := by
  have hbefore : (t.routes.take position).findSome? gives = none := List.findSome?_eq_none_iff.mpr h
  obtain ⟨b, hb⟩ := Option.isSome_iff_exists.mp hr
  rw [insertAt, List.findSome?_append, hbefore, Option.none_or, List.findSome?_cons,
    List.findSome?_cons, hb]

/-- The law holds of every way of asking in which only the first route counts that gives
something. -/
theorem precedence_of_findSome? {α : Type} {able : Route → Prop} {ask : RouteTable → α}
    (hable : ∀ s, able s ↔ (gives s).isSome = true)
    (hask : ∀ u, u = { routes := [r] } ∨ u = t →
      (t.insertAt position r).routes.findSome? gives = u.routes.findSome? gives →
      ask (t.insertAt position r) = ask u) :
    Precedence able ask t r position := by
  have hnot : ∀ s, ¬able s ↔ gives s = none := fun s => by
    rw [hable, Bool.not_eq_true, Option.isSome_eq_false_iff, Option.isNone_iff_eq_none]
  constructor
  · intro hr hleads
    refine hask _ (.inl rfl) (findSome?_insertAt_of_leading ((hable r).mp hr) fun s hs => ?_)
    exact (hnot s).mp (leads_iff.mp hleads s hs)
  · intro hno
    refine hask _ (.inr rfl) ?_
    by_cases hr : able r
    · have hbehind : ¬∀ s ∈ t.routes.take position, ¬able s := fun h => hno ⟨hr, leads_iff.mpr h⟩
      push Not at hbehind
      obtain ⟨s, hs, hs'⟩ := hbehind
      exact findSome?_insertAt_of_before hs ((hable s).mp hs')
    · exact findSome?_insertAt_of_none ((hnot r).mp hr)

end FirstGiving

theorem firstServing_eq_findSome? (q : Query) (routes : List Route) :
    firstServing q routes = routes.findSome? fun r => (r.argsFor? q).map fun args => (r, args) := by
  induction routes with
  | nil => rfl
  | cons r rest ih =>
    rw [firstServing, List.findSome?_cons, ih]
    cases r.argsFor? q <;> rfl

theorem serves_iff {r : Route} {q : Query} :
    r.Serves q ↔ ((r.argsFor? q).map fun args => (r, args)).isSome = true := by
  rw [Option.isSome_map, Option.isSome_iff_exists]
  rfl

/-- How a request is dispatched depends on the first route that serves it and on nothing else in the
table. -/
theorem dispatch_eq_of_firstServing {t u : RouteTable} (ht : t.IsCompiled) (hu : u.IsCompiled)
    {request : Request} (h : firstServing request.withOverride.toQuery t.routes =
      firstServing request.withOverride.toQuery u.routes) :
    t.dispatch request = u.dispatch request := by
  cases hfirst : firstServing request.withOverride.toQuery u.routes with
  | some served =>
    obtain ⟨r, args⟩ := served
    rw [dispatch_of_serving (h.trans hfirst), dispatch_of_serving hfirst]
  | none =>
    cases hhead : request.asksHead with
    | false => rw [dispatch_of_none (h.trans hfirst) hhead, dispatch_of_none hfirst hhead]
    | true =>
      have hget : ∀ {v : RouteTable},
          v.IsCompiled → firstServing request.withOverride.toQuery v.routes = none →
          firstServing request.asGet.withOverride.toQuery v.routes = none := by
        intro v hv hnone
        rw [Request.withOverride_toQuery] at hnone
        rw [Request.withOverride_asGet hhead]
        exact firstServing_eq_none_iff.mpr fun r hr =>
          none_serves_get hv hhead r hr (firstServing_eq_none_iff.mp hnone r hr)
      rw [dispatch_of_head (h.trans hfirst) hhead (hget ht (h.trans hfirst)),
        dispatch_of_head hfirst hhead (hget hu hfirst)]

theorem resolve_unbound (t : RouteTable) (action : Text) (args : Args) (current : Option Request) :
    (t.resolve action args current).map Resolution.unbound =
      match t.routes.findSome? (empty.resolveWith? action args current) with
      | some d => .ok d
      | none => .error (.noHandlerFound action args) := by
  have hunbound : Option.map Resolution.unbound ∘ t.resolveWith? action args current =
      empty.resolveWith? action args current := by
    funext r
    rw [Function.comp_apply, resolveWith?, resolveWith?, Option.map_map]
    rfl
  rw [← hunbound, ← List.map_findSome?, resolve]
  cases t.routes.findSome? (t.resolveWith? action args current) <;> rfl

theorem resolvesAlone_iff {r : Route} {action : Text} {args : Args} {current : Option Request} :
    r.ResolvesAlone action args current ↔
      (empty.resolveWith? action args current r).isSome = true := by
  unfold Route.ResolvesAlone resolve
  rw [resolveWith?, Option.isSome_map, List.findSome?_singleton, resolveWith?]
  cases r.urlFor? action args current <;> simp

theorem IsCompiled.insertAt {t : RouteTable} (ht : t.IsCompiled) {r : Route} (hr : r.IsCompiled)
    (position : Nat) :
    (t.insertAt position r).IsCompiled := by
  intro s hs
  rcases List.mem_append.mp hs with hbefore | hafter
  · exact ht s (List.mem_of_mem_take hbefore)
  · rcases List.mem_cons.mp hafter with rfl | hafter
    · exact hr
    · exact ht s (List.mem_of_mem_drop hafter)

/-- Precedence under insertion, whatever the table, the route and the position. Dispatching and
look-ups give what the route gives alone if it serves the request and stands no later than the route
that served it before, or if none did; else they give exactly what they gave without it. So it is
for resolving, where the route has to resolve the action alone, up to the table that the resolution
stays bound to. The commands that insert are instances: at the position, at the end and in front. -/
theorem insertAt_precedence {t : RouteTable} (ht : t.IsCompiled) {r : Route} (hr : r.IsCompiled)
    (position : Nat) :
    (∀ request m, request.Asks m →
        Precedence (·.Serves (request.queryAs m)) (·.dispatch request) t r position ∧
        ∀ args, r.argsFor? (request.queryAs m) = some args →
          (dispatch { routes := [r] } request).1 = .ok r ∧
            (dispatch { routes := [r] } request).2.routeArgs = args) ∧
      (∀ q, Precedence (·.Serves q) (·.lookup q) t r position ∧
        ∀ args, r.argsFor? q = some args → lookup
          { routes := [r] } q = args.insert actionKey r.action) ∧
      (∀ action args current, Precedence (·.ResolvesAlone action args current)
        (fun u => (u.resolve action args current).map Resolution.unbound) t r position) ∧
      ((Command.insertAt position r).perform t).table = t.insertAt position r ∧
      ((Command.append r).perform t).table = t.insertAt t.size r ∧
      ((Command.prepend r).perform t).table = t.insertAt 0 r := by
  have hinserted : (t.insertAt position r).IsCompiled := ht.insertAt hr position
  have hcompiled : ∀ u, u = { routes := [r] } ∨ u = t → u.IsCompiled := by
    rintro u (rfl | rfl)
    · exact fun s hs => List.mem_singleton.mp hs ▸ hr
    · exact ht
  refine ⟨fun request m hm => ⟨?_, fun args hargs => ?_⟩, fun q => ⟨?_, fun args hargs => ?_⟩,
    fun action args current => ?_, rfl, ?_, rfl⟩
  · obtain rfl := Request.asks_iff.mp hm
    refine precedence_of_findSome? (fun s => serves_iff) fun u hu hsame => ?_
    refine dispatch_eq_of_firstServing hinserted (hcompiled u hu) ?_
    rw [Request.withOverride_toQuery, firstServing_eq_findSome?, firstServing_eq_findSome?, hsame]
  · obtain rfl := Request.asks_iff.mp hm
    obtain ⟨after, hdispatch, hafter, -⟩ := dispatch_singleton request hargs
    rw [hdispatch]
    exact ⟨rfl, hafter⟩
  · refine precedence_of_findSome? (fun s => serves_iff) fun u hu hsame => ?_
    unfold lookup
    rw [firstServing_eq_findSome?, firstServing_eq_findSome?, hsame]
  · exact lookup_of_firstServing (i := 0) ⟨rfl, hargs, fun j hj => absurd hj (Nat.not_lt_zero j)⟩
  · refine precedence_of_findSome? (fun s => resolvesAlone_iff) fun u hu hsame => ?_
    rw [resolve_unbound, resolve_unbound, hsame]
  · change t.append r = t.insertAt t.size r
    rw [append, insertAt, size, List.take_length, List.drop_length]

/-- A request for a head that both routes serve: the new one answers it in front, and changes
nothing far behind the end. -/
theorem insertAt_precedence_head :
    ∃ r s, Route.compile
        { method := "GET".toList, path := "/{page}".toList, action := "show".toList } = .ok r ∧
      Route.compile { method := "*".toList, path := "/me".toList, action := "me".toList } = .ok s ∧
      dispatch (insertAt { routes := [r] } 0 s) { method := "HEAD".toList, path := "/me".toList } =
        dispatch { routes := [s] } { method := "HEAD".toList, path := "/me".toList } ∧
      dispatch (insertAt { routes := [r] } 7 s) { method := "HEAD".toList, path := "/me".toList } =
        dispatch { routes := [r] } { method := "HEAD".toList, path := "/me".toList } := by
  have hserve : Route.compilesTo
      { method := "GET".toList, path := "/{page}".toList, action := "show".toList } (fun r =>
        (r.argsFor? ⟨"HEAD".toList, "/me".toList, none, none⟩).isSome &&
        Route.compilesTo
          { method := "*".toList, path := "/me".toList, action := "me".toList } fun s =>
          (s.argsFor? ⟨"HEAD".toList, "/me".toList, none, none⟩).isSome) = true := by decide +kernel
  obtain ⟨r, hr, hrest⟩ := Route.exists_of_compilesTo hserve
  obtain ⟨hrserves, hrest⟩ := Bool.and_eq_true _ _ ▸ hrest
  obtain ⟨s, hs, hsserves⟩ := Route.exists_of_compilesTo hrest
  have ht : IsCompiled { routes := [r] } := .singleton hr
  have hasks : Request.Asks { method := "HEAD".toList, path := "/me".toList } "HEAD".toList :=
    Request.asks_iff.mpr rfl
  refine ⟨r, s, hr, hs, ?_, ?_⟩
  · obtain ⟨hdispatch, -⟩ := insertAt_precedence ht ⟨_, hs⟩ 0
    exact (hdispatch _ _ hasks).1.taken (Option.isSome_iff_exists.mp hsserves)
      (leads_iff.mpr (by simp))
  · obtain ⟨hdispatch, -⟩ := insertAt_precedence ht ⟨_, hs⟩ 7
    refine (hdispatch _ _ hasks).1.passed fun hleads => ?_
    exact leads_iff.mp hleads.2 r (by simp) (Option.isSome_iff_exists.mp hrserves)

end RouteTable

end Signpost
