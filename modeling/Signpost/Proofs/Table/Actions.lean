import Signpost.Proofs.Route.Restating
import Signpost.Proofs.Table.Dispatch

/-!
From a request to its action and back to the route. The action that dispatching records is one that
the route can stand for, in whatever order the arguments were put into it, as long as the action
pattern can tell every text that was put in. Main statement:
`RouteTable.mem_resolveActions_of_dispatch`.
-/

namespace Signpost

open CompiledTemplate

namespace RouteTable

theorem exists_firstServing_of_dispatch {t : RouteTable} (ht : t.IsCompiled)
    {request after : Request} {r : Route} (h : t.dispatch request = (.ok r, after)) :
    ∃ i, FirstServing (request.queryAs request.withOverride.method) t.routes i r after.routeArgs ∧
      after.action = some (fillAction r.action after.routeArgs) := by
  obtain ⟨i, args, hfirst, rfl⟩ := served_of_dispatch ht h
  exact ⟨i, hfirst, rfl⟩

/-- The route that a request is dispatched to is among those that the recorded action can stand for,
in whatever order the names of the arguments were replaced in it. -/
theorem mem_resolveActions_of_dispatch {t : RouteTable} (ht : t.IsCompiled)
    {request after : Request} {r : Route} (h : t.dispatch request = (.ok r, after))
    (hrestates : ∀ token ∈ tokenize r.action, r.Restates request.host after.routeArgs token) :
    ∃ action, after.action = some action ∧
      (∀ order, order.Perm after.routeArgs.entries → fillIn order r.action = action) ∧
      r ∈ t.resolveActions action := by
  obtain ⟨i, hfirst, haction⟩ := exists_firstServing_of_dispatch ht h
  have hmem : r ∈ t.routes := List.mem_of_getElem? hfirst.route
  have hr : r.IsCompiled := ht r hmem
  obtain ⟨text, hread⟩ := hr.readFrom
  have hfills : ∀ token ∈ tokenize r.action, token.Fills after.routeArgs.entries :=
    fun token htoken => (hrestates token htoken).fills
  have hfilled : ∀ order, order.Perm after.routeArgs.entries →
      fillIn order r.action = (tokenize r.action).flatMap (Token.filled after.routeArgs.get?) :=
    fun order horder => fillIn_perm hfills horder
  refine ⟨_, haction, fun order horder => ?_, List.mem_filter.mpr ⟨hmem, ?_⟩⟩
  · rw [hfilled order horder, fillAction_eq_fillIn, hfilled _ (.refl _)]
  · rw [fillAction_eq_fillIn, hfilled _ (.refl _)]
    exact isMatch_filled (fun token htoken =>
      hr.suits_filled hfirst.args htoken (hrestates token htoken))
      hread.actionPattern

/-- A host, a path and a static argument each put a value into one action. -/
theorem mem_resolveActions_of_dispatch_hosted :
    ∃ r, Route.compile
        { method := "GET".toList, path := "{tenant}.example.com/{controller}/{<[a-z]+>verb}".toList
          action := "{tenant}.{controller}.{verb}".toList
          staticArgs := .ofList [("verb".toList, "List".toList)] } = .ok r ∧
      r ∈ resolveActions { routes := [r] } "acme.Users.List".toList := by
  have hserves : Route.compilesTo
      { method := "GET".toList, path := "{tenant}.example.com/{controller}/{<[a-z]+>verb}".toList
        action := "{tenant}.{controller}.{verb}".toList
        staticArgs := .ofList [("verb".toList, "List".toList)] } (fun r =>
        decide (∃ args ∈ r.argsFor? ⟨"GET".toList, "/Users/show".toList, none,
          some "acme.example.com".toList⟩, fillAction r.action args = "acme.Users.List".toList ∧
          ∀ token ∈ tokenize r.action, token.Fills args.entries ∧
            (∀ a ∈ namedArgument? r.template.arguments token,
              (r.staticArgs.get? a.name = none ∧
                if a.isHost then ∀ h ∈ some "acme.example.com".toList, '\n' ∉ h
                else r.template.FreePath ∧ a.constraint = pathConstraint) ∨
              AcceptsAnyCase a.constraint (token.filled args.get?)) ∧
            (namedArgument? r.template.arguments token = none →
              ∀ name ∈ token.bareName?, r.staticArgs.get? name = none))) = true := by decide +kernel
  obtain ⟨r, hr, hchecked⟩ := Route.exists_of_compilesTo hserves
  obtain ⟨args, hargs, hfilled, htokens⟩ := of_decide_eq_true hchecked
  have ht : IsCompiled { routes := [r] } := .singleton hr
  obtain ⟨after, hdispatch, rfl, haction⟩ := dispatch_singleton
    { method := "GET".toList, path := "/Users/show".toList,
      host := some "acme.example.com".toList } hargs
  obtain ⟨action, haction', -, hmem⟩ :=
    mem_resolveActions_of_dispatch ht hdispatch fun token htoken => by
    obtain ⟨hfills, hnamed, hother⟩ := htokens token htoken
    exact ⟨hfills, fun a ha => (hnamed a ha).imp_left fun hbinds =>
      .of_default hbinds.1 hbinds.2, hother⟩
  refine ⟨r, hr, ?_⟩
  rw [← hfilled, Option.some.inj (haction.symm.trans haction')]
  exact hmem

/-- The route of this definition, alone in a table, serves the request, and the action it gives to
it is not one that it can stand for. -/
def Forgets (d : RouteDefinition) (request : Request) : Prop :=
  ∃ r after action, Route.compile d = .ok r ∧ dispatch { routes := [r] } request = (.ok r, after) ∧
    after.action = some action ∧ r ∉ resolveActions { routes := [r] } action

theorem forgets_of_compilesTo {d : RouteDefinition} {request : Request}
    (h : Route.compilesTo d (fun r =>
    (r.argsFor? (request.queryAs request.withOverride.method)).any fun args =>
      !r.template.actionPattern.isMatch (fillAction r.action args)) = true) :
        Forgets d request := by
  obtain ⟨r, after, hr, hdispatch, haction, hfails⟩ := dispatch_of_compilesTo d request _ h
  refine ⟨r, after, _, hr, hdispatch, haction, fun hmem => ?_⟩
  rw [Bool.not_eq_true'] at hfails
  exact absurd (List.mem_filter.mp hmem).2 (by simp [hfails])

/-- A value that only a static argument has, or that the constraint does not accept, at all or when
case does not matter; a constraint that looks around or is no pattern on its own; literal text of a
path with a group in it and a host of two lines; and a value and a literal text that bring about a
placeholder. -/
theorem not_mem_resolveActions_of_dispatch :
    Forgets { method := "GET".toList, path := "/users".toList, action := "{controller}.list".toList
              staticArgs := .ofList [("controller".toList, "Users".toList)] }
      { method := "GET".toList, path := "/users".toList } ∧
    Forgets { method := "GET".toList, path := "/{<[0-9]+>id}".toList, action := "Show{id}".toList
              staticArgs := .ofList [("id".toList, "x".toList)] }
      { method := "GET".toList, path := "/7".toList } ∧
    Forgets { method := "GET".toList, path := "/{<[^a]+>x}".toList, action := "{x}.show".toList }
      { method := "GET".toList, path := "/A".toList } ∧
    Forgets { method := "GET".toList, path := "/{<a$>x}".toList, action := "{x}.show".toList }
      { method := "GET".toList, path := "/a".toList } ∧
    Forgets { method := "GET".toList, path := "/{<a)|(b>x}".toList, action := "{x}.show".toList }
      { method := "GET".toList, path := "/a".toList } ∧
    Forgets { method := "GET".toList, path := "/(?P<x>a/b)[{x}]".toList,
              action := "{x}.show".toList }
      { method := "GET".toList, path := "/a/bP".toList } ∧
    Forgets { method := "GET".toList, path := "a\n{x}b/".toList, action := "{x}.show".toList }
      { method := "GET".toList, path := "/".toList, host := some "a\nxb".toList } ∧
    Forgets { method := "GET".toList, path := "/{a}/{<.*>b}".toList, action := "{a}.show".toList }
      { method := "GET".toList, path := "/{b}/p/q".toList } ∧
    Forgets { method := "GET".toList, path := "/{a}/{bx}".toList, action := "{b{a}}.show".toList }
      { method := "GET".toList, path := "/x/y".toList } := by
  refine ⟨?_, ?_, ?_, ?_, ?_, ?_, ?_, ?_, ?_⟩ <;> exact forgets_of_compilesTo (by decide +kernel)

end RouteTable

end Signpost
