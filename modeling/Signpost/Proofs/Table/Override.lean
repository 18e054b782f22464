import Signpost.Proofs.Table.Dispatch

/-!
The method that the parameters of a query ask for. The scan of a query looks for the mark of an
override as it stands, so it finds one in each parameter that has the mark with a method of the list
behind it, and the first such parameter decides. The parameter with the name of the mark and a
method for its value is one of them; the others have the mark inside a name or a value, or go on
behind the method. Main statement: `RouteTable.dispatch_overridden`.
-/

namespace Signpost

/-- Name of the parameter that overrides the method. -/
def overrideName : Text := "x-http-method-override".toList

/-- The parameter has the name that overrides the method, and this method for its value. -/
def OverridesWith (parameter m : Text) : Prop :=
  m ∈ overridingMethods ∧ Text.cutFirst '=' parameter = some (overrideName, m)

instance (parameter m : Text) : Decidable (OverridesWith parameter m) :=
  inferInstanceAs (Decidable (_ ∧ _))

/-- The method that parameters tell: that of the first to tell one, or the one in use when none
does. -/
def Told (tells : Text → Text → Prop) (parameters : List Text) (own m : Text) : Prop :=
  (∃ before p after, parameters = before ++ p :: after ∧ tells p m ∧ ∀ q ∈ before, ∀ m',
    ¬tells q m') ∨
    (∀ p ∈ parameters, ∀ m', ¬tells p m') ∧ m = own

theorem Told.congr {tells tells' : Text → Text → Prop} {parameters : List Text} {own m : Text}
    (h : ∀ p ∈ parameters, ∀ m, tells p m ↔ tells' p m) (htold : Told tells parameters own m) :
    Told tells' parameters own m := by
  rcases htold with ⟨before, p, after, rfl, htells, hbefore⟩ | ⟨hnone, hown⟩
  · refine .inl ⟨before, p, after, rfl,
      (h p (List.mem_append_right _ List.mem_cons_self) m).mp htells, ?_⟩
    intro q hq m' hq'
    exact hbefore q hq m' ((h q (List.mem_append_left _ hq) m').mpr hq')
  · exact .inr ⟨fun p hp m' hp' => hnone p hp m' ((h p hp m').mpr hp'), hown⟩

theorem asksFor_of_overridesWith {parameter m : Text} (h : OverridesWith parameter m) :
    AsksFor parameter m := by
  obtain ⟨hm, hcut⟩ := h
  have hmark : overrideMark = overrideName ++ ['='] := by decide
  refine ⟨[], ⟨hm, [], ?_⟩, fun _ _ _ => Nat.zero_le _⟩
  rw [Text.cutFirst_sound hcut, hmark, List.nil_append, List.append_nil, List.append_assoc,
    List.singleton_append]

/-- No mark with a method behind it reaches from one parameter into the next. -/
theorem asksAt_nil_append_iff {t u m : Text} : AsksAt (t ++ '&' :: u) [] m ↔ AsksAt t [] m := by
  have hstarts : ∀ query, AsksAt query [] m ↔
      m ∈ overridingMethods ∧ overrideMark ++ m <+: query := fun query =>
    and_congr_right fun _ => exists_congr fun after => eq_comm
  have hsigns : ∀ m ∈ overridingMethods, '&' ∉ overrideMark ++ m := by decide
  rw [hstarts, hstarts]
  exact and_congr_right fun hm => Text.prefix_append_separator_iff (hsigns m hm) t u

theorem overridingMethod?_append (t u : Text) :
    overridingMethod? (t ++ '&' :: u) = (overridingMethod? t).or (overridingMethod? u) := by
  induction t with
  | nil => rfl
  | cons c t ih =>
    have hhere : ((Text.stripStart? overrideMark (c :: (t ++ '&' :: u))).bind fun behind =>
          overridingMethods.find? fun m => m.isPrefixOf behind) =
        (Text.stripStart? overrideMark (c :: t)).bind fun behind =>
          overridingMethods.find? fun m => m.isPrefixOf behind := by
      refine Option.ext fun m => ?_
      rw [askedHere_iff, askedHere_iff]
      exact asksAt_nil_append_iff (t := c :: t)
    simp only [List.cons_append, overridingMethod?, Option.orElse_eq_orElse, Option.orElse_eq_or]
    rw [hhere, ih, Option.or_assoc]

/-- The scan of a query finds what the scan of its parameters finds first. -/
theorem overridingMethod?_eq_findSome? (query : Text) :
    overridingMethod? query = (Text.splitOn '&' query).findSome? overridingMethod? := by
  -- By the length of the query, since what follows its first separator is shorter.
  induction hn : query.length using Nat.strong_induction_on generalizing query with
  | _ n ih =>
    subst hn
    by_cases hmem : '&' ∈ query
    · obtain ⟨p, rest, rfl, hp⟩ := List.eq_append_cons_of_mem hmem
      have hrest :=
        ih rest.length (by simp only [List.length_append, List.length_cons]; omega) rest rfl
      rw [overridingMethod?_append, Text.splitOn_append hp, List.findSome?_cons, hrest]
      cases overridingMethod? p <;> rfl
    · rw [Text.splitOn_of_not_mem hmem, List.findSome?_singleton]

/-- The parameters of a query tell the method that its scan finds. -/
theorem told_iff {query own m : Text} :
    Told AsksFor (Text.splitOn '&' query) own m ↔ m = (overridingMethod? query).getD own := by
  have hnone : ∀ p, overridingMethod? p = none ↔ ∀ m, ¬AsksFor p m := fun p => by
    simp only [Option.eq_none_iff_forall_ne_some, ne_eq, overridingMethod?_eq_some_iff]
  have hfirst : ∀ m, overridingMethod? query = some m ↔ ∃ before p after,
      Text.splitOn '&' query = before ++ p :: after ∧ AsksFor p m ∧ ∀ q ∈ before, ∀ m',
      ¬AsksFor q m' := fun m => by
    rw [overridingMethod?_eq_findSome?, List.findSome?_eq_some_iff]
    simp only [overridingMethod?_eq_some_iff, hnone]
  have hunasked : overridingMethod? query = none ↔ ∀ p ∈ Text.splitOn '&' query, ∀ m,
      ¬AsksFor p m := by
    rw [overridingMethod?_eq_findSome?, List.findSome?_eq_none_iff]
    simp only [hnone]
  unfold Told
  rw [← hfirst, ← hunasked]
  cases overridingMethod? query <;> simp [eq_comm]

namespace RouteTable

/-- The routes are matched with the method that the parameters of the query tell. A parameter tells
the method of the list that stands directly behind the leftmost mark in it with such a method. So
does a parameter with the name of the mark and such a method for its value, and when no other
parameter tells one, the value of the first of these is the method. -/
theorem dispatch_overridden {t : RouteTable} (ht : t.IsCompiled) (request : Request) :
    (∃ m, Told AsksFor (Text.splitOn '&' request.query) request.method m) ∧
    (∀ m, Told AsksFor (Text.splitOn '&' request.query) request.method m →
      t.AnswersFor (request.queryAs m) request) ∧
    (∀ p m, OverridesWith p m → AsksFor p m) ∧
    ((∀ p ∈ Text.splitOn '&' request.query, ∀ m, AsksFor p m → OverridesWith p m) →
      ∀ m, Told OverridesWith (Text.splitOn '&' request.query) request.method m →
        t.AnswersFor (request.queryAs m) request) := by
  have htold : ∀ m, Told AsksFor (Text.splitOn '&' request.query) request.method m →
      t.AnswersFor (request.queryAs m) request := by
    intro m hm
    rw [told_iff.mp hm, ← Request.withOverride_method]
    exact ht.answersFor request
  refine ⟨⟨_, told_iff.mpr rfl⟩, htold, fun p m => asksFor_of_overridesWith,
    fun honly m hm => htold m ?_⟩
  exact hm.congr fun p hp m => ⟨asksFor_of_overridesWith, honly p hp m⟩

/-- Two routes at one path, one to create what is there and one to delete it: the method decides. -/
theorem exists_items :
    ∃ r s args,
      Route.compile { method := "POST".toList, path := "/items/{id}".toList,
                      action := "create".toList } = .ok r ∧
      Route.compile { method := "DELETE".toList, path := "/items/{id}".toList,
                      action := "delete".toList } = .ok s ∧
      r ≠ s ∧ (r.argsFor? ⟨"POST".toList, "/items/3".toList, none, none⟩).isSome = true ∧
      FirstServing ⟨"DELETE".toList, "/items/3".toList, none, none⟩ [r, s] 1 s args := by
  have hserve : Route.compilesTo
      { method := "POST".toList, path := "/items/{id}".toList, action := "create".toList } (fun r =>
        decide (r.argsFor? ⟨"DELETE".toList, "/items/3".toList, none, none⟩ = none) &&
        (r.argsFor? ⟨"POST".toList, "/items/3".toList, none, none⟩).isSome &&
        Route.compilesTo { method := "DELETE".toList, path := "/items/{id}".toList,
                           action := "delete".toList } fun s =>
          decide (r.action ≠ s.action) &&
            (s.argsFor? ⟨"DELETE".toList, "/items/3".toList, none, none⟩).isSome) = true := by
    decide +kernel
  obtain ⟨r, hr, hrest⟩ := Route.exists_of_compilesTo hserve
  obtain ⟨hrest, hsecond⟩ := Bool.and_eq_true_iff.mp hrest
  obtain ⟨hpasses, hpost⟩ := Bool.and_eq_true_iff.mp hrest
  obtain ⟨s, hs, hrest⟩ := Route.exists_of_compilesTo hsecond
  obtain ⟨hdiffer, hdelete⟩ := Bool.and_eq_true_iff.mp hrest
  obtain ⟨args, hargs⟩ := Option.isSome_iff_exists.mp hdelete
  have hfirst : FirstServing ⟨"DELETE".toList, "/items/3".toList, none, none⟩ [r, s] 1 s args := by
    refine ⟨rfl, hargs, fun j hj q hq => ?_⟩
    obtain rfl := Nat.lt_one_iff.mp hj
    obtain rfl := Option.some.inj hq
    exact of_decide_eq_true hpasses
  have hne : r ≠ s := fun hsame => of_decide_eq_true hdiffer (congrArg Route.action hsame)
  exact ⟨r, s, args, hr, hs, hne, hpost, hfirst⟩

/-- A request that its second parameter turns into one to delete. -/
theorem dispatch_overridden_delete :
    ∃ r s,
      Route.compile { method := "POST".toList, path := "/items/{id}".toList,
                      action := "create".toList } = .ok r ∧
      Route.compile { method := "DELETE".toList, path := "/items/{id}".toList,
                      action := "delete".toList } = .ok s ∧
      (dispatch { routes := [r, s] }
        { method := "POST".toList, path := "/items/3".toList
          query := "v=1&x-http-method-override=DELETE".toList }).1 = .ok s := by
  obtain ⟨r, s, args, hr, hs, -, -, hfirst⟩ := exists_items
  have ht : IsCompiled { routes := [r, s] } := by
    intro q hq
    rcases List.mem_pair.mp hq with rfl | rfl
    · exact ⟨_, hr⟩
    · exact ⟨_, hs⟩
  have hlisted : ∀ p ∈ Text.splitOn '&' "v=1&x-http-method-override=DELETE".toList,
      ∀ m ∈ overridingMethods, overridingMethod? p = some m → OverridesWith p m := by decide
  have honly : ∀ p ∈ Text.splitOn '&' "v=1&x-http-method-override=DELETE".toList, ∀ m,
      AsksFor p m → OverridesWith p m := by
    intro p hp m hasks
    have hm := overridingMethod?_eq_some_iff.mpr hasks
    exact hlisted p hp m (overridingMethod?_mem hm) hm
  have htold : Told AsksFor (Text.splitOn '&' "v=1&x-http-method-override=DELETE".toList)
      "POST".toList "DELETE".toList :=
    told_iff.mpr (by decide)
  obtain ⟨-, -, -, hexact⟩ := dispatch_overridden ht
    { method := "POST".toList, path := "/items/3".toList,
      query := "v=1&x-http-method-override=DELETE".toList }
  have hanswers :=
    hexact honly _ (htold.congr fun p hp m => ⟨honly p hp m, asksFor_of_overridesWith⟩)
  refine ⟨r, s, hr, hs, ?_⟩
  rw [hanswers.served 1 s args hfirst]

/-- The mark inside a value, at the end of a name and with more behind the method: no parameter has
the name of the mark and a method for its value, and each request to create is dispatched as one to
delete. -/
theorem dispatch_overridden_inside :
    ∃ r s,
      Route.compile { method := "POST".toList, path := "/items/{id}".toList,
                      action := "create".toList } = .ok r ∧
      Route.compile { method := "DELETE".toList, path := "/items/{id}".toList,
                      action := "delete".toList } = .ok s ∧
      r ≠ s ∧ (r.argsFor? ⟨"POST".toList, "/items/3".toList, none, none⟩).isSome = true ∧
      ∀ query ∈ ["next=x-http-method-override=DELETE".toList,
          "ax-http-method-override=DELETE".toList, "x-http-method-override=DELETED".toList],
        (∀ p ∈ Text.splitOn '&' query, ∀ m, ¬OverridesWith p m) ∧
        (dispatch { routes := [r, s] }
          { method := "POST".toList, path := "/items/3".toList, query }).1 = .ok s := by
  obtain ⟨r, s, args, hr, hs, hne, hpost, hfirst⟩ := exists_items
  have hlisted : ∀ query ∈ ["next=x-http-method-override=DELETE".toList,
      "ax-http-method-override=DELETE".toList, "x-http-method-override=DELETED".toList],
      overridingMethod? query = some "DELETE".toList ∧
        ∀ p ∈ Text.splitOn '&' query, ∀ m ∈ overridingMethods, ¬OverridesWith p m := by decide
  refine ⟨r, s, hr, hs, hne, hpost, fun query hquery => ?_⟩
  obtain ⟨hfound, hnone⟩ := hlisted query hquery
  refine ⟨fun p hp m htells => hnone p hp m htells.1 htells, ?_⟩
  have hmethod : Request.withOverride
      { method := "POST".toList, path := "/items/3".toList, query } =
      { method := "DELETE".toList, path := "/items/3".toList, query } := by
    rw [Request.withOverride, hfound]
  have hserving :
      firstServing ⟨"DELETE".toList, "/items/3".toList, none, none⟩ [r, s] = some (s, args) :=
    firstServing_eq_some_iff.mpr ⟨1, hfirst⟩
  rw [dispatch_of_serving (t := { routes := [r, s] }) (by rw [hmethod]; exact hserving)]

end RouteTable

end Signpost
