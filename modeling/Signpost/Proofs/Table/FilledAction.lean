import Signpost.Proofs.Table.Actions

/-!
The action that dispatching records. The arguments have no order of their own, and each in turn
gives way to its value wherever its name stands between braces in what the earlier ones have left.
When no value and no text of the action brings about another name between braces, every order gives
the action with all values put in at once; otherwise a value can be taken for a placeholder, and
then the order can show. Main statement: `RouteTable.dispatch_fills_action`.
-/

namespace Signpost

namespace RouteTable

/-- When the action is a row of tokens that only their own values fill, the request records the
action with all values put in at once, in whatever order the names of the arguments are replaced. -/
theorem dispatch_fills_action {t : RouteTable} (ht : t.IsCompiled) {request after : Request}
    {r : Route} (h : t.dispatch request = (.ok r, after)) {tokens : List Token}
    (htext : tokens.flatMap Token.text = r.action)
    (hfills : ∀ token ∈ tokens, token.Fills after.routeArgs.entries) :
    after.action = some (tokens.flatMap (Token.filled after.routeArgs.get?)) ∧
      ∀ order, order.Perm after.routeArgs.entries →
        fillIn order r.action = tokens.flatMap (Token.filled after.routeArgs.get?) := by
  obtain ⟨i, -, haction⟩ := exists_firstServing_of_dispatch ht h
  have hfilled : ∀ order, order.Perm after.routeArgs.entries →
      fillIn order r.action = tokens.flatMap (Token.filled after.routeArgs.get?) := by
    intro order horder
    rw [← htext]
    exact fillIn_tokens hfills horder
  refine ⟨?_, hfilled⟩
  rw [haction, fillAction_eq_fillIn, hfilled _ (.refl _)]

/-- An action with a name that is no argument, which stays as it is, and a value with a closing
sign. -/
theorem dispatch_fills_action_partly :
    ∃ r after, Route.compile
        { method := "GET".toList, path := "/{controller}/{id}".toList
          action := "{controller}.show-{id}{page}".toList } = .ok r ∧
      dispatch { routes := [r] }
        { method := "GET".toList, path := "/Users/7\x7d".toList } = (.ok r, after) ∧
      after.action = some "Users.show-7\x7d{page}".toList := by
  obtain ⟨r, after, hr, hdispatch, -, hchecked⟩ := dispatch_of_compilesTo
    { method := "GET".toList, path := "/{controller}/{id}".toList
      action := "{controller}.show-{id}{page}".toList }
    { method := "GET".toList, path := "/Users/7\x7d".toList }
    (fun r args => decide ((∀ token ∈ tokenize r.action, token.IsSimple) ∧
      args.entries.all (fun e =>
        !e.1.contains '{' && !e.1.contains '}' && !e.2.contains '{') = true ∧
      (tokenize r.action).flatMap (Token.filled args.get?) =
        "Users.show-7\x7d{page}".toList)) (by decide +kernel)
  obtain ⟨hsimple, hentries, hfilled⟩ := of_decide_eq_true hchecked
  have hfills : ∀ token ∈ tokenize r.action, token.Fills after.routeArgs.entries :=
    fun token htoken =>
    Token.fills_of_isSimple (hsimple token htoken) fun e he => by
      simpa [and_assoc] using List.all_eq_true.mp hentries e he
  obtain ⟨haction, -⟩ :=
    dispatch_fills_action (.singleton hr) hdispatch (flatMap_text_tokenize r.action) hfills
  exact ⟨r, after, hr, hdispatch, haction.trans (congrArg some hfilled)⟩

/-- Two values that are taken for placeholders: whatever the order, one of them is put into the
other. And one value that is the name of the other argument: the order decides what becomes of
it. -/
theorem dispatch_fills_values :
    (∃ r after, Route.compile
        { method := "GET".toList, path := "/{a}/{b}".toList, action := "{a}{b}".toList } = .ok r ∧
      dispatch { routes := [r] }
        { method := "GET".toList, path := "/{a}{b}{a}/{b}{a}{b}".toList } = (.ok r, after) ∧
      ∀ order, order.Perm after.routeArgs.entries →
        fillIn order r.action ≠ (tokenize r.action).flatMap (Token.filled after.routeArgs.get?)) ∧
    ∃ r after, Route.compile
      { method := "GET".toList, path := "/{a}/{b}".toList, action := "{a}".toList } = .ok r ∧
      dispatch { routes := [r] }
        { method := "GET".toList, path := "/{b}/x".toList } = (.ok r, after) ∧
      ∃ order other, order.Perm after.routeArgs.entries ∧ other.Perm after.routeArgs.entries ∧
        fillIn order r.action ≠ fillIn other r.action := by
  constructor
  · obtain ⟨r, after, hr, hdispatch, -, hchecked⟩ := dispatch_of_compilesTo
      { method := "GET".toList, path := "/{a}/{b}".toList, action := "{a}{b}".toList }
      { method := "GET".toList, path := "/{a}{b}{a}/{b}{a}{b}".toList }
      (fun r args => decide (
        args.entries = [("a".toList, "{a}{b}{a}".toList), ("b".toList, "{b}{a}{b}".toList)] ∧
        fillIn args.entries r.action ≠ (tokenize r.action).flatMap (Token.filled args.get?) ∧
        fillIn args.entries.reverse r.action ≠
          (tokenize r.action).flatMap (Token.filled args.get?)))
      (by decide +kernel)
    obtain ⟨hentries, hforth, hback⟩ := of_decide_eq_true hchecked
    refine ⟨r, after, hr, hdispatch, fun order horder => ?_⟩
    -- two arguments have two orders
    rw [hentries] at horder hforth hback
    obtain rfl | rfl := List.perm_pair.mp horder
    · exact hforth
    · exact hback
  · obtain ⟨r, after, hr, hdispatch, -, hchecked⟩ := dispatch_of_compilesTo
      { method := "GET".toList, path := "/{a}/{b}".toList, action := "{a}".toList }
      { method := "GET".toList, path := "/{b}/x".toList }
      (fun r args => decide (fillIn args.entries r.action ≠ fillIn args.entries.reverse r.action))
        (by decide +kernel)
    exact ⟨r, after, hr, hdispatch, _, _, .refl _, List.reverse_perm _, of_decide_eq_true hchecked⟩

end RouteTable

end Signpost
