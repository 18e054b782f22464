import Signpost.Proofs.Table.Dispatch
import Signpost.Proofs.Text.Map

/-!
The read-only look-up against dispatching. Both take the first route that serves the parts of a
request; the second attempt that only dispatching makes finds nothing, so they agree on requests for
heads too. Main statement: `RouteTable.lookup_agrees_with_dispatch`.
-/

namespace Signpost

namespace Request

/-- The request has these parts for routing and no more: no query that could ask for a method, and
no mount point. -/
structure HasParts (request : Request) (q : Query) : Prop where
  method : request.method = q.method
  path : request.path = q.path
  format : request.format = q.format
  host : request.host = q.host
  query : request.query = []
  contextPath : request.contextPath = []

/-- Such a request is dispatched with its own method and its whole path. -/
theorem HasParts.queryAs_eq {request : Request} {q : Query} (h : request.HasParts q) :
    request.queryAs request.withOverride.method = q := by
  have hmethod : request.withOverride.method = q.method := by
    rw [withOverride_method, h.query, ← h.method]
    rfl
  have hpath : request.routingPath = q.path := by
    unfold routingPath
    rw [if_pos (Or.inl h.contextPath), h.path]
  unfold queryAs
  rw [hmethod, hpath, h.format, h.host]

end Request

namespace RouteTable

theorem lookup_of_firstServing {t : RouteTable} {q : Query} {i : Nat} {r : Route}
    {args : TextMap Text} (h : FirstServing q t.routes i r args) :
    t.lookup q = args.insert actionKey r.action := by
  unfold lookup
  rw [firstServing_eq_some_iff.mpr ⟨i, h⟩]

theorem lookup_of_none {t : RouteTable} {q : Query} (h : ∀ r ∈ t.routes, r.argsFor? q = none) :
    t.lookup q = ∅ := by
  unfold lookup
  rw [firstServing_eq_none_iff.mpr h]

/-- A look-up and the dispatching of a request with the same parts agree. The look-up is empty just
when dispatching fails. Otherwise dispatching answers with the first route that serves the parts,
and the look-up is made from that route: the arguments that the request has afterwards, with the
action template of the route as `action`. -/
theorem lookup_agrees_with_dispatch {t : RouteTable} (ht : t.IsCompiled) {request : Request}
    {q : Query} (hparts : request.HasParts q) :
    (t.lookup q = ∅ ↔ ∃ e, (t.dispatch request).1 = .error e) ∧
      ∀ r, (t.dispatch request).1 = .ok r →
        (∃ i, FirstServing q t.routes i r (t.dispatch request).2.routeArgs) ∧
          t.lookup q = (t.dispatch request).2.routeArgs.insert actionKey r.action ∧
          (t.lookup q).get? actionKey = some r.action ∧
          ∀ name, name ≠ actionKey →
            (t.lookup q).get? name = (t.dispatch request).2.routeArgs.get? name := by
  cases hfirst : firstServing q t.routes with
  | none =>
    have hnone := firstServing_eq_none_iff.mp hfirst
    have hasked : ∀ r ∈ t.routes,
        r.argsFor? (request.queryAs request.withOverride.method) = none := by
      rwa [hparts.queryAs_eq]
    obtain ⟨last, -, hmissed⟩ := dispatch_missed ht hasked
    rw [hmissed]
    refine ⟨⟨fun _ => ⟨_, rfl⟩, fun _ => lookup_of_none hnone⟩, fun r hr => ?_⟩
    cases hr
  | some served =>
    obtain ⟨r, args⟩ := served
    obtain ⟨i, h⟩ := firstServing_eq_some_iff.mp hfirst
    have hlookup := lookup_of_firstServing h
    have haction : (t.lookup q).get? actionKey = some r.action := by
      simp [hlookup]
    have hasked : FirstServing (request.queryAs request.withOverride.method) t.routes i r args := by
      rwa [hparts.queryAs_eq]
    rw [dispatch_served hasked]
    constructor
    · constructor
      · intro hempty
        rw [hempty, TextMap.get?_empty] at haction
        cases haction
      · rintro ⟨e, he⟩
        cases he
    · intro s hs
      obtain rfl := Except.ok.inj hs
      refine ⟨⟨i, h⟩, hlookup, haction, fun name hname => ?_⟩
      simp [hlookup, hname]

/-- A request for the head of a page, whose route has an argument of the name under which look-ups
report the action. -/
theorem lookup_agrees_with_dispatch_head :
    ∃ r after, Route.compile
        { method := "GET".toList, path := "/do/{action}".toList, action := "run".toList } = .ok r ∧
      dispatch { routes := [r] }
        { method := "HEAD".toList, path := "/do/stop".toList } = (.ok r, after) ∧
      after.routeArgs.get? actionKey = some "stop".toList ∧
      lookup { routes := [r] } ⟨"HEAD".toList, "/do/stop".toList, none, none⟩ =
        after.routeArgs.insert actionKey "run".toList := by
  have hserves : Route.compilesTo
      { method := "GET".toList, path := "/do/{action}".toList, action := "run".toList }
      (fun r => r.action == "run".toList &&
        r.argsFor? ⟨"HEAD".toList, "/do/stop".toList, none, none⟩ ==
          some (.ofList [("action".toList, "stop".toList)])) = true := by decide +kernel
  obtain ⟨r, hr, hchecked⟩ := Route.exists_of_compilesTo hserves
  obtain ⟨haction, hargs⟩ := Bool.and_eq_true _ _ ▸ hchecked
  have ht : IsCompiled { routes := [r] } := .singleton hr
  have hparts : Request.HasParts { method := "HEAD".toList, path := "/do/stop".toList }
      ⟨"HEAD".toList, "/do/stop".toList, none, none⟩ := ⟨rfl, rfl, rfl, rfl, rfl, rfl⟩
  obtain ⟨after, hdispatch, hafter, -⟩ :=
    dispatch_singleton { method := "HEAD".toList, path := "/do/stop".toList } (eq_of_beq hargs)
  obtain ⟨-, hlookup, -⟩ := (lookup_agrees_with_dispatch ht hparts).2 r (by rw [hdispatch])
  refine ⟨r, after, hr, hdispatch, by rw [hafter]; rfl, ?_⟩
  rw [hlookup, hdispatch, eq_of_beq haction]

end RouteTable

end Signpost
