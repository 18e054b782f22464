import Signpost.Proofs.Route.Compiled
import Signpost.Proofs.Route.Guard
import Signpost.Proofs.Template.Tokens
import Signpost.Table.Dispatch

/-!
Dispatching against what it is for: the first route of a table that serves a request answers it, and
a request that no route serves is left as it was. The second attempt that a request for a head gets
finds nothing, because every route that serves it as a request for a whole answer serves it as it
is. Main statement: `RouteTable.dispatch_first_match`.
-/

namespace Signpost

/-- In a query, behind `before`, the mark stands in front of a method of the list. -/
def AsksAt (query before m : Text) : Prop :=
  m ∈ overridingMethods ∧ ∃ after, query = before ++ overrideMark ++ m ++ after

/-- The leftmost mark in a query with a method of the list behind it asks for this method. -/
def AsksFor (query m : Text) : Prop :=
  ∃ before, AsksAt query before m ∧ ∀ before' m', AsksAt query before' m' →
    before.length ≤ before'.length

theorem not_asksAt_nil {before m : Text} : ¬AsksAt [] before m := by
  rintro ⟨-, after, h⟩
  have hmark : overrideMark ≠ [] := by decide
  simp [hmark] at h

theorem asksAt_cons {c d : Char} {rest before m : Text} :
    AsksAt (c :: rest) (d :: before) m ↔ c = d ∧ AsksAt rest before m := by
  simp only [AsksAt, List.cons_append, List.cons.injEq]
  constructor
  · rintro ⟨hm, after, rfl, h⟩
    exact ⟨rfl, hm, after, h⟩
  · rintro ⟨rfl, hm, after, h⟩
    exact ⟨hm, after, rfl, h⟩

/-- No method of the list starts with another, so one mark asks for one method. -/
theorem overridingMethods_unique {m m' after after' : Text} (hm : m ∈ overridingMethods)
    (hm' : m' ∈ overridingMethods) (h : m ++ after = m' ++ after') : m = m' := by
  have hstarts : ∀ m ∈ overridingMethods, ∀ m' ∈ overridingMethods, m <+: m' → m = m' := by decide
  rcases List.prefix_or_prefix_of_prefix ⟨after, h⟩ (List.prefix_append m' after') with h₁ | h₂
  · exact hstarts m hm m' hm' h₁
  · exact (hstarts m' hm' m hm h₂).symm

theorem askedHere_iff {query m : Text} :
    ((Text.stripStart? overrideMark query).bind fun behind =>
      overridingMethods.find? fun m => m.isPrefixOf behind) = some m ↔ AsksAt query [] m := by
  rw [Option.bind_eq_some_iff]
  constructor
  · rintro ⟨behind, hstrip, hfind⟩
    have hstarts := List.find?_some hfind
    obtain ⟨after, hafter⟩ := List.isPrefixOf_iff_prefix.mp hstarts
    refine ⟨List.mem_of_find?_eq_some hfind, after, ?_⟩
    rw [Text.stripStart?_eq_some.mp hstrip, ← hafter, List.nil_append, List.append_assoc]
  · rintro ⟨hm, after, rfl⟩
    refine ⟨m ++ after, Text.stripStart?_eq_some.mpr (by simp), ?_⟩
    cases hfind : overridingMethods.find? fun m' => m'.isPrefixOf (m ++ after) with
    | none =>
      have hno := List.find?_eq_none.mp hfind m hm
      exact absurd (List.isPrefixOf_iff_prefix.mpr (List.prefix_append m after)) hno
    | some m' =>
      have hstarts := List.find?_some hfind
      obtain ⟨after', hafter'⟩ := List.isPrefixOf_iff_prefix.mp hstarts
      rw [overridingMethods_unique hm (List.mem_of_find?_eq_some hfind) hafter'.symm]

/-- The scan of a query finds the leftmost mark that asks for a method. -/
theorem overridingMethod?_eq_some_iff {query m : Text} :
    overridingMethod? query = some m ↔ AsksFor query m := by
  induction query with
  | nil =>
    constructor
    · intro h
      simp [overridingMethod?] at h
    · rintro ⟨before, h, -⟩
      exact absurd h not_asksAt_nil
  | cons c rest ih =>
    simp only [overridingMethod?, Option.orElse_eq_orElse, Option.orElse_eq_or,
      Option.or_eq_some_iff]
    constructor
    · rintro (here | ⟨hnone, later⟩)
      · exact ⟨[], askedHere_iff.mp here, fun _ _ _ => Nat.zero_le _⟩
      · obtain ⟨before, hbefore, hleast⟩ := ih.mp later
        refine ⟨c :: before, asksAt_cons.mpr ⟨rfl, hbefore⟩, fun before' m' h => ?_⟩
        cases before' with
        | nil =>
          rw [askedHere_iff.mpr h] at hnone
          simp at hnone
        | cons d before' => exact Nat.succ_le_succ (hleast before' m' (asksAt_cons.mp h).2)
    · rintro ⟨before, hbefore, hleast⟩
      cases before with
      | nil => exact .inl (askedHere_iff.mpr hbefore)
      | cons d before =>
        obtain ⟨rfl, hrest⟩ := asksAt_cons.mp hbefore
        refine .inr ⟨?_, ih.mpr ⟨before, hrest, fun before' m' h => ?_⟩⟩
        · rw [Option.eq_none_iff_forall_ne_some]
          intro m' here
          exact absurd (hleast [] m' (askedHere_iff.mp here)) (by simp)
        · exact Nat.le_of_succ_le_succ (hleast (c :: before') m' (asksAt_cons.mpr ⟨rfl, h⟩))

/-- The method that a request is dispatched with: the one its query asks for, or else its own. -/
def Request.Asks (request : Request) (m : Text) : Prop :=
  AsksFor request.query m ∨ (∀ m', ¬AsksFor request.query m') ∧ m = request.method

theorem Request.asks_iff {request : Request} {m : Text} :
    request.Asks m ↔ m = request.withOverride.method := by
  rw [Request.withOverride_method]
  unfold Request.Asks
  cases h : overridingMethod? request.query with
  | none =>
    have hnone : ∀ m', ¬AsksFor request.query m' := by
      intro m' hm'
      rw [overridingMethod?_eq_some_iff.mpr hm'] at h
      simp at h
    simp [hnone]
  | some v =>
    have hv := overridingMethod?_eq_some_iff.mp h
    constructor
    · rintro (hm | ⟨hnone, -⟩)
      · rw [overridingMethod?_eq_some_iff.mpr hm] at h
        exact Option.some.inj h
      · exact absurd hv (hnone v)
    · rintro rfl
      exact .inl hv

/-- The route at an index of a list serves a request, with these arguments, and none before it
does. -/
structure FirstServing (q : Query) (routes : List Route) (i : Nat) (r : Route)
    (args : TextMap Text) : Prop where
  route : routes[i]? = some r
  args : r.argsFor? q = some args
  first : ∀ j < i, ∀ s, routes[j]? = some s → s.argsFor? q = none

theorem FirstServing.head {q : Query} {r : Route} {args : TextMap Text}
    (h : r.argsFor? q = some args) (routes : List Route) : FirstServing q (r :: routes) 0 r args :=
  ⟨rfl, h, fun j hj => absurd hj (Nat.not_lt_zero j)⟩

namespace RouteTable

theorem firstServing_eq_some_iff {q : Query} {routes : List Route} {r : Route}
    {args : TextMap Text} :
    firstServing q routes = some (r, args) ↔ ∃ i, FirstServing q routes i r args := by
  induction routes with
  | nil =>
    constructor
    · intro h
      simp [firstServing] at h
    · rintro ⟨i, h⟩
      simpa using h.route
  | cons s routes ih =>
    rw [firstServing]
    cases hs : s.argsFor? q with
    | some args' =>
      constructor
      · intro h
        obtain ⟨rfl, rfl⟩ := Prod.mk.inj (Option.some.inj h)
        exact ⟨0, .head hs routes⟩
      · rintro ⟨i, h⟩
        cases i with
        | zero =>
          obtain rfl := Option.some.inj h.route
          rw [← Option.some.inj (hs.symm.trans h.args)]
        | succ i =>
          have hnone := h.first 0 (Nat.succ_pos i) s rfl
          rw [hs] at hnone
          simp at hnone
    | none =>
      rw [ih]
      constructor
      · rintro ⟨i, h⟩
        refine ⟨i + 1, h.route, h.args, fun j hj s' hs' => ?_⟩
        cases j with
        | zero =>
          obtain rfl := Option.some.inj hs'
          exact hs
        | succ j => exact h.first j (Nat.lt_of_succ_lt_succ hj) s' hs'
      · rintro ⟨i, h⟩
        cases i with
        | zero =>
          obtain rfl := Option.some.inj h.route
          rw [h.args] at hs
          simp at hs
        | succ i =>
          exact ⟨i, h.route, h.args, fun j hj s' hs' =>
            h.first (j + 1) (Nat.succ_lt_succ hj) s' hs'⟩

theorem firstServing_eq_none_iff {q : Query} {routes : List Route} :
    firstServing q routes = none ↔ ∀ r ∈ routes, r.argsFor? q = none := by
  induction routes with
  | nil => simp [firstServing]
  | cons s routes ih =>
    rw [firstServing, List.forall_mem_cons, ← ih]
    cases s.argsFor? q <;> simp

end RouteTable

/-- A compiled route that serves a request as one for a whole answer serves it as one for a head. -/
theorem Route.IsCompiled.argsFor?_get {r : Route} (hr : r.IsCompiled) {q : Query}
    (hq : Text.eqIgnoreCase q.method RouteTable.headMethod = true) (h : r.argsFor? q = none) :
    r.argsFor? { q with method := RouteTable.getMethod } = none := by
  obtain ⟨d, hd⟩ := hr
  have hfrom := compile_compiledFrom hd
  have hmono : r.guard.holds { q with method := RouteTable.getMethod } = true →
      r.guard.holds q = true := by
    rw [hfrom.guard_iff, hfrom.guard_iff]
    exact And.imp_left (Guard.servesMethod_head hq)
  unfold argsFor? at h ⊢
  split_ifs with hget
  · rw [if_pos (hmono hget)] at h
    exact h
  · rfl

namespace Request

/-- The parts of a request that say where it goes are the same. -/
structure SameTarget (a b : Request) : Prop where
  path : a.path = b.path
  query : a.query = b.query
  host : a.host = b.host
  port : a.port = b.port
  secure : a.secure = b.secure
  contextPath : a.contextPath = b.contextPath
  servletPath : a.servletPath = b.servletPath

theorem withOverride_eq (request : Request) :
    request.withOverride = { request with method := request.withOverride.method } := by
  unfold withOverride
  split <;> rfl

def queryAs (request : Request) (m : Text) : Query :=
  ⟨m, request.routingPath, request.format, request.host⟩

@[simp]
theorem withOverride_toQuery (request : Request) :
    request.withOverride.toQuery = request.queryAs request.withOverride.method := by
  rw [withOverride_eq]
  rfl

/-- No query asks for a head, so the query of a request for a head asks for nothing. -/
theorem overridingMethod?_of_asksHead {request : Request} (h : request.asksHead = true) :
    overridingMethod? request.query = none := by
  cases hm : overridingMethod? request.query with
  | none => rfl
  | some m =>
    have hverbs : ∀ m ∈ overridingMethods, Text.eqIgnoreCase m RouteTable.headMethod = false := by
      decide
    have hmethod : request.withOverride.method = m := by
      rw [withOverride_method, hm, Option.getD_some]
    unfold asksHead at h
    rw [hmethod, hverbs m (overridingMethod?_mem hm)] at h
    simp at h

theorem withOverride_asGet {request : Request} (h : request.asksHead = true) :
    request.asGet.withOverride = { request with method := RouteTable.getMethod } := by
  have hnone := overridingMethod?_of_asksHead h
  have hsame : request.withOverride = request := by
    unfold withOverride
    rw [hnone]
  unfold asGet
  rw [hsame]
  unfold withOverride
  rw [hnone]

end Request

namespace RouteTable

theorem dispatch_of_serving {t : RouteTable} {request : Request} {r : Route} {args : TextMap Text}
    (h : firstServing request.withOverride.toQuery t.routes = some (r, args)) :
    t.dispatch request = (.ok r, request.withOverride.answered r args) := by
  rw [dispatch]
  simp only [h]

theorem dispatch_of_none {t : RouteTable} {request : Request}
    (h : firstServing request.withOverride.toQuery t.routes = none)
    (hhead : request.asksHead = false) :
    t.dispatch request =
      (.error (.noRouteFound request.withOverride.method request.path), request.withOverride) := by
  rw [dispatch]
  simp only [h, hhead]
  rw [Request.withOverride_eq]
  rfl

theorem dispatch_of_head {t : RouteTable} {request : Request}
    (h : firstServing request.withOverride.toQuery t.routes = none)
    (hhead : request.asksHead = true)
    (hget : firstServing request.asGet.withOverride.toQuery t.routes = none) :
    t.dispatch request = (.error (.noRouteFound headMethod request.path),
      { request with method := headMethod }) := by
  have hretry := dispatch_of_none hget request.asksHead_asGet
  rw [dispatch]
  simp only [h, hhead, hretry, Request.withOverride_asGet hhead]
  rfl

theorem dispatch_served {t : RouteTable} {request : Request} {i : Nat} {r : Route}
    {args : TextMap Text}
    (h : FirstServing (request.queryAs request.withOverride.method) t.routes i r args) :
    t.dispatch request = (.ok r, { request with
      method := request.withOverride.method
      format := match args.get? Route.formatArg with
        | some f => MediaType.ofFormat? f
        | none => request.format
      routeArgs := args
      action := some (fillAction r.action args) }) := by
  have hfirst : firstServing request.withOverride.toQuery t.routes = some (r, args) := by
    rw [Request.withOverride_toQuery]
    exact firstServing_eq_some_iff.mpr ⟨i, h⟩
  rw [dispatch_of_serving hfirst, Request.withOverride_eq]
  rfl

/-- A table of one route dispatches to it what it serves. -/
theorem dispatch_singleton {r : Route} (request : Request) {args : TextMap Text}
    (h : r.argsFor? (request.queryAs request.withOverride.method) = some args) :
    ∃ after, dispatch { routes := [r] } request = (.ok r, after) ∧ after.routeArgs = args ∧
      after.action = some (fillAction r.action args) := by
  exact ⟨_, dispatch_served (t := { routes := [r] }) (.head h []), rfl, rfl⟩

/-- A route that compiles and serves a request, with what is checked of the arguments: alone in a
table, it is dispatched to. -/
theorem dispatch_of_compilesTo (d : RouteDefinition) (request : Request)
    (check : Route → TextMap Text → Bool) (h : Route.compilesTo d (fun r =>
      (r.argsFor? (request.queryAs request.withOverride.method)).any (check r)) = true) :
    ∃ r after, Route.compile d = .ok r ∧ dispatch { routes := [r] } request = (.ok r, after) ∧
      after.action = some (fillAction r.action after.routeArgs) ∧
      check r after.routeArgs = true := by
  obtain ⟨r, hr, hchecked⟩ := Route.exists_of_compilesTo h
  obtain ⟨args, hargs, hcheck⟩ := (Option.any_eq_true _ _).mp hchecked
  obtain ⟨after, hdispatch, rfl, haction⟩ := dispatch_singleton request hargs
  exact ⟨r, after, hr, hdispatch, haction, hcheck⟩

theorem none_serves_get {t : RouteTable} (ht : t.IsCompiled) {request : Request} {m : Text}
    (hm : Text.eqIgnoreCase m headMethod = true) :
    ∀ r ∈ t.routes, r.argsFor? (request.queryAs m) = none →
      r.argsFor? (request.queryAs getMethod) = none :=
  fun r hr hnone => (ht r hr).argsFor?_get (q := request.queryAs m) hm hnone

theorem dispatch_missed {t : RouteTable} (ht : t.IsCompiled) {request : Request}
    (h : ∀ r ∈ t.routes, r.argsFor? (request.queryAs request.withOverride.method) = none) :
    ∃ last, Text.eqIgnoreCase last request.withOverride.method = true ∧
      t.dispatch request = (.error (.noRouteFound last request.path),
        { request with method := last }) := by
  have hfirst : firstServing request.withOverride.toQuery t.routes = none := by
    rw [Request.withOverride_toQuery]
    exact firstServing_eq_none_iff.mpr h
  cases hhead : request.asksHead with
  | false =>
    refine ⟨request.withOverride.method, beq_self_eq_true _, ?_⟩
    rw [dispatch_of_none hfirst hhead]
    exact congrArg (Prod.mk _) request.withOverride_eq
  | true =>
    have hget : firstServing request.asGet.withOverride.toQuery t.routes = none := by
      rw [Request.withOverride_asGet hhead]
      exact firstServing_eq_none_iff.mpr fun r hr => none_serves_get ht hhead r hr (h r hr)
    refine ⟨headMethod, ?_, dispatch_of_head hfirst hhead hget⟩
    have hlower : Text.lowerAscii request.withOverride.method = Text.lowerAscii headMethod :=
      eq_of_beq hhead
    exact beq_iff_eq.mpr hlower.symm

/-- A request is answered for a query: by the first route that serves the query, with the arguments
that it gives, and with an error when no route serves it, for the method of the query in whatever
case and the whole path of the request. -/
structure AnswersFor (t : RouteTable) (q : Query) (request : Request) : Prop where
  served : ∀ i r args, FirstServing q t.routes i r args →
    t.dispatch request = (.ok r, { request with method := q.method }.answered r args)
  missed : (∀ r ∈ t.routes, r.argsFor? q = none) → ∃ last, Text.eqIgnoreCase last q.method = true ∧
    t.dispatch request = (.error (.noRouteFound last request.path), { request with method := last })

theorem IsCompiled.answersFor {t : RouteTable} (ht : t.IsCompiled) (request : Request) :
    t.AnswersFor (request.queryAs request.withOverride.method) request :=
  ⟨fun _ _ _ => dispatch_served, dispatch_missed ht⟩

/-- A request that is dispatched to a route is the answer of the first route that serves it. -/
theorem served_of_dispatch {t : RouteTable} (ht : t.IsCompiled) {request after : Request}
    {r : Route} (h : t.dispatch request = (.ok r, after)) :
    ∃ i args, FirstServing (request.queryAs request.withOverride.method) t.routes i r args ∧
      after = request.withOverride.answered r args := by
  cases hfirst : firstServing (request.queryAs request.withOverride.method) t.routes with
  | none =>
    obtain ⟨last, -, hmissed⟩ := dispatch_missed ht (firstServing_eq_none_iff.mp hfirst)
    rw [hmissed] at h
    cases (Prod.mk.inj h).1
  | some found =>
    obtain ⟨s, args⟩ := found
    obtain ⟨i, hi⟩ := firstServing_eq_some_iff.mp hfirst
    rw [← Request.withOverride_toQuery] at hfirst
    rw [dispatch_of_serving hfirst] at h
    obtain ⟨hroute, rfl⟩ := Prod.mk.inj h
    obtain rfl := Except.ok.inj hroute
    exact ⟨i, args, hi, rfl⟩

/-- Dispatching is the first match, whatever the request. The method is the one that the query asks
for, or else that of the request. When a route serves the request so, the one of least index answers
it. When none does, the error tells the last method and the whole path, and format, arguments and
action stay as they were. The second attempt of a request for a head is not for a head again, and no
route serves it that does not serve the request as it is. -/
theorem dispatch_first_match {t : RouteTable} (ht : t.IsCompiled) (request : Request) :
    ∃ m, request.Asks m ∧ (∀ m', request.Asks m' → m' = m) ∧
      (∀ i r args, FirstServing (request.queryAs m) t.routes i r args →
        t.dispatch request = (.ok r, { request with
          method := m
          format := match args.get? Route.formatArg with
            | some f => MediaType.ofFormat? f
            | none => request.format
          routeArgs := args
          action := some (fillAction r.action args) })) ∧
      ((∀ r ∈ t.routes, r.argsFor? (request.queryAs m) = none) →
        ∃ last, Text.eqIgnoreCase last m = true ∧
          t.dispatch request = (.error (.noRouteFound last request.path),
            { request with method := last })) ∧
      (Text.eqIgnoreCase m headMethod = true →
        (∀ r ∈ t.routes, r.argsFor? (request.queryAs m) = none →
          r.argsFor? (request.queryAs getMethod) = none) ∧
        request.asGet.withOverride.toQuery = request.queryAs getMethod ∧
        request.asGet.asksHead = false) ∧
      (t.dispatch request).2.SameTarget request := by
  refine ⟨_, Request.asks_iff.mpr rfl, fun m' hm' => Request.asks_iff.mp hm', ?_, ?_, ?_, ?_⟩
  · intro i r args h
    exact dispatch_served h
  · exact dispatch_missed ht
  · intro hhead
    refine ⟨none_serves_get ht hhead, ?_, request.asksHead_asGet⟩
    rw [Request.withOverride_asGet hhead]
    rfl
  · cases hfirst : firstServing request.withOverride.toQuery t.routes with
    | none =>
      rw [Request.withOverride_toQuery] at hfirst
      obtain ⟨last, -, hmissed⟩ := dispatch_missed ht (firstServing_eq_none_iff.mp hfirst)
      rw [hmissed]
      exact ⟨rfl, rfl, rfl, rfl, rfl, rfl, rfl⟩
    | some served =>
      obtain ⟨r, args⟩ := served
      rw [Request.withOverride_toQuery] at hfirst
      obtain ⟨i, h⟩ := firstServing_eq_some_iff.mp hfirst
      rw [dispatch_served h]
      exact ⟨rfl, rfl, rfl, rfl, rfl, rfl, rfl⟩

/-- A request for the head of a page that a route serves for whole answers only. -/
theorem dispatch_first_match_head :
    ∃ r, Route.compile { method := "get".toList, path := "/".toList, action := "home".toList } =
      .ok r ∧
      (dispatch { routes := [r] } { method := "HEAD".toList, path := "/".toList }).1 = .ok r ∧
      (dispatch { routes := [r] } { method := "HEAD".toList, path := "/".toList }).2.method =
        "HEAD".toList := by
  have hserves : Route.compilesTo
      { method := "get".toList, path := "/".toList, action := "home".toList }
      (fun r => r.argsFor? ⟨"HEAD".toList, "/".toList, none, none⟩ == some ∅) = true := by
        decide +kernel
  obtain ⟨r, hr, hargs⟩ := Route.exists_of_compilesTo hserves
  have ht : IsCompiled { routes := [r] } := .singleton hr
  obtain ⟨m, -, hunique, hserved, -⟩ :=
    dispatch_first_match ht { method := "HEAD".toList, path := "/".toList }
  obtain rfl : "HEAD".toList = m := hunique _ (Request.asks_iff.mpr rfl)
  have hfirst : FirstServing ⟨"HEAD".toList, "/".toList, none, none⟩ [r] 0 r ∅ :=
    ⟨rfl, eq_of_beq hargs, fun j hj => absurd hj (Nat.not_lt_zero j)⟩
  have hdispatch := hserved 0 r ∅ hfirst
  exact ⟨r, hr, by rw [hdispatch], by rw [hdispatch]⟩

end RouteTable

end Signpost
