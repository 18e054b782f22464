import Signpost.Proofs.Table.WrittenUrl
import Signpost.Proofs.Template.Rendering
import Signpost.Proofs.Text.Replace

/-!
Values that are left for a client to fill in. A route takes such a value for any argument, whatever
the constraint, and writes it as it is where it would have written another value encoded: in the
host, the path or the query. All else in host and URL is the same, so a client that puts an encoded
value in the place of the deferred one has what the value resolves to. Main statement:
`RouteTable.resolve_deferred`.
-/

namespace Signpost

/-- The place in a host and a URL where one value stands, with the text around it. -/
inductive Slot where
  | inHost (before after url : Text)
  | inUrl (host before after : Text)

namespace Slot

variable {slot : Slot} {t u : Text}

/-- Host and URL with a text in the place. -/
def fill : Slot → Text → Text × Text
  | inHost before after url, t => (before ++ t ++ after, url)
  | inUrl host before after, t => (host, before ++ t ++ after)

/-- Host and URL with the text in the place have it nowhere else. -/
def Alone : Slot → Text → Prop
  | inHost before after url, t =>
    (∀ x y, before ++ t ++ after = x ++ t ++ y → x = before) ∧ ¬t <:+: url
  | inUrl host before after, t =>
    (∀ x y, before ++ t ++ after = x ++ t ++ y → x = before) ∧ ¬t <:+: host

theorem Alone.replaceAll_fill (h : slot.Alone t) (ht : t ≠ []) :
    Text.replaceAll t u (slot.fill t).1 = (slot.fill u).1 ∧
      Text.replaceAll t u (slot.fill t).2 = (slot.fill u).2 := by
  cases slot with
  | inHost before after url => exact ⟨Text.replaceAll_only ht h.1, Text.replaceAll_of_not_infix h.2⟩
  | inUrl host before after => exact ⟨Text.replaceAll_of_not_infix h.2, Text.replaceAll_only ht h.1⟩

/-- A deferred value is alone when its colon is the only one. -/
theorem alone_of_count (ht : isDeferred t = true)
    (h : ((slot.fill t).1 ++ (slot.fill t).2).count ':' = 1) : slot.Alone t := by
  obtain ⟨t, rfl⟩ : ∃ rest, t = ':' :: rest := List.head?_eq_some_iff.mp (eq_of_beq ht)
  have honly : ∀ before after other : Text,
      (before ++ ':' :: t ++ after).count ':' + other.count ':' = 1 →
      (∀ x y, before ++ ':' :: t ++ after = x ++ ':' :: t ++ y → x = before) ∧
        ¬(':' :: t <:+: other) := by
    intro before after other hcount
    refine ⟨fun x y heq => ?_, fun hinfix => ?_⟩
    · have hx : (x ++ ':' :: t ++ y).count ':' + other.count ':' = 1 := heq ▸ hcount
      simp only [List.count_append, List.count_cons_self] at hcount hx
      have hbefore : ':' ∉ before := List.count_eq_zero.mp (by omega)
      have hlater : ':' ∉ x := List.count_eq_zero.mp (by omega)
      simp only [List.append_assoc, List.cons_append] at heq
      exact (Text.append_separator_inj hbefore hlater heq).1.symm
    · have hother : ':' ∈ other := hinfix.subset List.mem_cons_self
      have hpositive := List.count_pos_iff.mpr hother
      simp only [List.count_append, List.count_cons_self] at hcount
      omega
  rw [List.count_append] at h
  cases slot with
  | inHost before after url => exact honly before after url h
  | inUrl host before after => exact honly before after host (Nat.add_comm _ _ ▸ h)

end Slot

namespace Route

variable {r : Route} {action name : Text} {groups : Captures} {args : Args}
  {current : Option Request}

theorem given_insert (h : r.fromAction groups name = none) (value : ArgValue) (other : Text) :
    r.given groups (args.insert name value) other = if other = name then some value
      else r.given groups args other := by
  by_cases heq : other = name
  · simp [given, heq, h]
  · simp [given, heq]

/-- Values bound to other arguments do not depend on what the caller gives for one. -/
theorem boundArgs_insert (hnodup : (r.template.arguments.map (·.name)).Nodup)
    (h : r.fromAction groups name = none)
    (v : Text) : r.boundArgs groups (args.insert name (.single v)) =
      if name ∈ r.template.arguments.map (·.name) then (r.boundArgs groups args).insert name v
      else r.boundArgs groups args := by
  refine TextMap.eq_of_get? fun other => Option.ext fun w => ?_
  rw [get?_boundArgs hnodup, given_insert h]
  by_cases hname : name ∈ r.template.arguments.map (·.name)
  · rw [if_pos hname, TextMap.get?_insert]
    split_ifs with hother
    · rw [hother, Option.some.injEq]
      exact and_iff_right hname
    · exact (get?_boundArgs hnodup).symm
  · rw [if_neg hname, get?_boundArgs hnodup]
    refine and_congr_right fun hmem => ?_
    rw [if_neg]
    rintro rfl
    exact hname hmem

/-- A deferred value is taken in the place of any other. -/
theorem SatisfiedBy.defer {format : Option MediaType} {value : ArgValue} {t : Text}
    (h : r.fromAction groups name = none) (hstatic : r.staticArgs.get? name = none)
    (ht : isDeferred t = true) (hsatisfied : r.SatisfiedBy groups (args.insert name value) format) :
    r.SatisfiedBy groups (args.insert name (.single t)) format := by
  have hother : ∀ other ≠ name,
      r.given groups (args.insert name (.single t)) other =
        r.given groups (args.insert name value) other := by
    intro other hne
    rw [given_insert h, given_insert h, if_neg hne, if_neg hne]
  refine ⟨fun a ha => ?_, fun key v hkey hformat => ?_, hsatisfied.format⟩
  · by_cases hname : a.name = name
    · refine .inl ⟨t, ?_, .inl ht⟩
      rw [given_insert h, if_pos hname]
      rfl
    · rw [hother a.name hname]
      exact hsatisfied.arguments a ha
  · have hne : key ≠ name := by
      rintro rfl
      rw [hstatic] at hkey
      cases hkey
    rw [← hsatisfied.statics key v hkey hformat, entered, entered, hother key hne]

theorem leftOver_insert_of_uses (h : r.uses name = true) (value : ArgValue) :
    r.leftOver (args.insert name value) = r.leftOver args := by
  have hsame : ∀ other, (!r.uses other) = true →
      (args.insert name value).get? other = args.get? other := by
    intro other hother
    have hne : other ≠ name := by
      rintro rfl
      simp [h] at hother
    simp [hne]
  exact congrArg (List.flatMap _) (TextMap.filter_entries_congr hsame)

/-- An argument that the route has no use for gives one pair among the others. -/
theorem exists_leftOver_insert (h : r.uses name = false) (args : Args) :
    ∃ before after, ∀ v,
      r.leftOver (args.insert name (.single v)) = before ++ (name, v) :: after := by
  obtain ⟨before, after, hentries⟩ := args.exists_entries_insert name
  let kept (es : List (Text × ArgValue)) : List (Text × Text) :=
    (es.filter fun e => !r.uses e.1).flatMap fun e => e.2.values.map fun v => (e.1, v)
  refine ⟨kept before, kept after, fun v => ?_⟩
  have hunused : (!r.uses name) = true := by rw [h]; rfl
  rw [leftOver, hentries, List.filter_append, List.filter_cons, if_pos hunused, List.flatMap_append,
    List.flatMap_cons]
  rfl

/-- The value of one pair stands in one place of a query. -/
theorem exists_withPairs_append (path name : Text) (before after : List (Text × Text)) :
    ∃ x y, ∀ v, withPairs path (before ++ (name, v) :: after) = x ++ Url.encodeValue v ++ y := by
  obtain ⟨x, y, hjoin⟩ := Text.exists_join_append ['&'] (before.map pairText) (after.map pairText)
  refine ⟨path ++ '?' :: (x ++ Url.encode name ++ ['=']), y, fun v => ?_⟩
  have hpairs : withPairs path (before ++ (name, v) :: after) =
      path ++ '?' :: Text.join ['&'] ((before ++ (name, v) :: after).map pairText) := by
    cases before <;> rfl
  rw [hpairs, List.map_append, List.map_cons, hjoin, pairText]
  simp only [List.append_assoc, List.cons_append, List.nil_append]

theorem uses_iff_of_not_static (hstatic : r.staticArgs.get? name = none) :
    r.uses name = true ↔ name ∈ r.template.arguments.map (·.name) := by
  rw [uses, TextMap.contains, hstatic, Option.isSome_none, Bool.or_false, any_name_iff]

/-- An argument of the template is written into host and path and leaves the query as it is. -/
theorem IsCompiled.writes_insert_argument (hr : r.IsCompiled) (h : r.fromAction groups name = none)
    (hname : name ∈ r.template.arguments.map (·.name)) (v : Text) :
    r.writes groups (args.insert name (.single v)) current =
      (r.template.renderHost ((r.boundArgs groups args).insert name v),
        mountPrefix current ++ r.template.renderPath ((r.boundArgs groups args).insert name v) ++
          withPairs [] (r.leftOver args)) := by
  have huses : r.uses name = true := Bool.or_eq_true_iff.mpr (.inl (any_name_iff.mpr hname))
  rw [writes, boundArgs_insert hr.nodup_names h, if_pos hname, leftOver_insert_of_uses huses,
    withPairs_eq_append, mountedPath_eq_append]

/-- The value of an argument that is neither static nor given by the action is written in one
place. -/
theorem IsCompiled.exists_slot (hr : r.IsCompiled) (hstatic : r.staticArgs.get? name = none)
    (h : r.fromAction groups name = none) (args : Args) (current : Option Request) :
    ∃ slot : Slot, ∀ v,
      r.writes groups (args.insert name (.single v)) current = slot.fill (Url.encodeValue v) := by
  obtain ⟨text, hread⟩ := hr.readFrom
  have hnames := hread.nodup_names
  rw [hread.names_eq] at hnames
  obtain ⟨-, hdistinct, hapart⟩ := List.nodup_append.mp hnames
  by_cases hname : name ∈ r.template.arguments.map (·.name)
  · rcases hread.name_mem_iff.mp hname with hhost | hpath
    · have hnotpath : name ∉ (placeholders r.template.pathTokens).map (·.1) := fun hpath =>
        hapart name (Option.mem_toList.mpr hhost) name hpath rfl
      refine ⟨.inHost r.template.host.before r.template.host.after (mountPrefix current ++
        r.template.renderPath (r.boundArgs groups args) ++ withPairs [] (r.leftOver args)),
          fun v => ?_⟩
      rw [hr.writes_insert_argument h hname, CompiledTemplate.renderHost_insert, if_pos hhost,
        CompiledTemplate.renderPath_insert_of_not_mem hnotpath, Slot.fill]
    · have hnothost : r.template.host.placeholder ≠ some name := fun hhost =>
        hapart name (Option.mem_toList.mpr hhost) name hpath rfl
      obtain ⟨before, after, hrender⟩ :=
        CompiledTemplate.exists_renderPath_insert hdistinct hpath (r.boundArgs groups args)
      refine ⟨.inUrl (r.template.renderHost (r.boundArgs groups args))
        (mountPrefix current ++ before)
        (after ++ withPairs [] (r.leftOver args)), fun v => ?_⟩
      rw [hr.writes_insert_argument h hname, CompiledTemplate.renderHost_insert, if_neg hnothost,
        hrender, Slot.fill]
      simp only [List.append_assoc]
  · have hunused : r.uses name = false := by
      rwa [Bool.eq_false_iff, ne_eq, uses_iff_of_not_static hstatic]
    obtain ⟨front, back, hpairs⟩ := exists_leftOver_insert hunused args
    obtain ⟨before, after, hquery⟩ :=
      exists_withPairs_append (r.mountedPath (r.boundArgs groups args) current) name front back
    refine ⟨.inUrl (r.template.renderHost (r.boundArgs groups args)) before after, fun v => ?_⟩
    rw [writes, boundArgs_insert hr.nodup_names h, if_neg hname, hpairs, hquery, Slot.fill]

end Route

namespace RouteTable

variable {r : Route} {action : Text} {args : Args} {current : Option Request} {d : Resolution}

theorem resolve_singleton_iff : resolve { routes := [r] } action args current = .ok d ↔
    resolveWith? { routes := [r] } action args current r = some d := by
  rw [resolve, List.findSome?_singleton]
  cases resolveWith? { routes := [r] } action args current r <;> simp

/-- Resolving commutes with leaving a value for the client to fill in. When an action resolves on
one route with a value that is not deferred for an argument that is neither static nor given by the
action, it resolves with every deferred one. Method and all else of the resolution are the same, and
host and URL have the deferred value in the one place where they had the encoding of the other. When
it stands in no other place of host and URL, replacing it by that encoding gives host and URL
back. -/
theorem resolve_deferred (hr : r.IsCompiled) (action name : Text)
    (hstatic : r.staticArgs.get? name = none) (huncaptured : ∀ groups,
      r.template.actionPattern.captures? action = some groups → r.fromAction groups name = none)
    (args : Args) (current : Option Request) :
    ∃ slot : Slot, ∀ v d, isDeferred v = false →
      resolve { routes := [r] } action (args.insert name (.single v)) current = .ok d →
      (d.host, d.url) = slot.fill (Url.encode v) ∧
      ∀ t, isDeferred t = true →
        resolve { routes := [r] } action (args.insert name (.single t)) current =
          .ok { d with args := args.insert name (.single t), host := (slot.fill t).1,
                       url := (slot.fill t).2 } ∧
        (slot.Alone t → Text.replaceAll t (Url.encode v) (slot.fill t).1 = d.host ∧
          Text.replaceAll t (Url.encode v) (slot.fill t).2 = d.url) := by
  cases hgroups : r.template.actionPattern.captures? action with
  | none =>
    refine ⟨.inUrl [] [] [], fun v d _ hd => ?_⟩
    rw [resolve_singleton_iff, resolveWith?, Route.urlFor?, hgroups] at hd
    cases hd
  | some groups =>
    have hfree := huncaptured groups hgroups
    obtain ⟨slot, hslot⟩ := hr.exists_slot hstatic hfree args current
    refine ⟨slot, fun v d hv hd => ?_⟩
    rw [resolve_singleton_iff] at hd
    have hsome : (r.urlFor? action (args.insert name (.single v)) current).isSome = true := by
      rw [← Option.isSome_map, ← resolveWith?, hd]
      rfl
    obtain ⟨groups', hgroups', hsatisfied⟩ := (Route.isSome_urlFor? hr.nodup_names).mp hsome
    obtain rfl : groups = groups' := Option.some.inj (hgroups.symm.trans hgroups')
    have hwritten : Url.encodeValue v = Url.encode v :=
      if_neg (by rw [hv]; exact Bool.false_ne_true)
    rw [resolveWith?, hr.urlFor?_eq_writes hgroups hsatisfied, hslot, hwritten] at hd
    obtain rfl := Option.some.inj hd
    refine ⟨rfl, fun t ht => ⟨?_, fun halone => halone.replaceAll_fill ?_⟩⟩
    · have hkept : Url.encodeValue t = t := if_pos ht
      rw [resolve_singleton_iff, resolveWith?,
        hr.urlFor?_eq_writes hgroups (hsatisfied.defer hfree hstatic ht), hslot,
        hkept]
      rfl
    · rintro rfl
      cases ht

/-- A number in a path that is left for the client to fill in, with a query behind it. -/
theorem resolve_deferred_number :
    ∃ r d e,
      Route.compile { method := "GET".toList, path := "/clients/{<[0-9]+>id}".toList,
                      action := "Clients.show".toList } = .ok r ∧
      resolve { routes := [r] } "Clients.show".toList
        (.insert (.ofList [("q".toList, .single "a b".toList)]) "id".toList (.single "7".toList))
        none = .ok d ∧
      resolve { routes := [r] } "Clients.show".toList
        (.insert (.ofList [("q".toList, .single "a b".toList)]) "id".toList (.single ":id".toList))
        none = .ok e ∧
      e.url = "/clients/:id?q=a+b".toList ∧
      Text.replaceAll ":id".toList "7".toList e.url = d.url := by
  have hresolves : Route.compilesTo
      { method := "GET".toList, path := "/clients/{<[0-9]+>id}".toList,
        action := "Clients.show".toList } (fun r =>
        decide (r.staticArgs.get? "id".toList = none ∧
          ∀ groups ∈ r.template.actionPattern.captures? "Clients.show".toList,
            r.fromAction groups "id".toList = none) &&
        (resolve { routes := [r] } "Clients.show".toList
          (.insert (.ofList [("q".toList, .single "a b".toList)]) "id".toList (.single "7".toList))
          none).toOption.any fun _ =>
        (resolve { routes := [r] } "Clients.show".toList
          (.insert (.ofList [("q".toList, .single "a b".toList)]) "id".toList
            (.single ":id".toList))
          none).toOption.any fun e =>
        decide (e.host = [] ∧ e.url = "/clients/:id?q=a+b".toList)) = true := by
    decide +kernel
  obtain ⟨r, hr, hrest⟩ := Route.exists_of_compilesTo hresolves
  obtain ⟨hfacts, hrest⟩ := Bool.and_eq_true_iff.mp hrest
  obtain ⟨hstatic, hfree⟩ := of_decide_eq_true hfacts
  obtain ⟨d, hd, hrest⟩ := Except.exists_of_any hrest
  obtain ⟨e, he, hwritten⟩ := Except.exists_of_any hrest
  obtain ⟨hhost, hurl⟩ := of_decide_eq_true hwritten
  obtain ⟨slot, hslot⟩ := resolve_deferred ⟨_, hr⟩ "Clients.show".toList "id".toList hstatic hfree
    (.ofList [("q".toList, .single "a b".toList)]) none
  obtain ⟨-, hdefer⟩ := hslot "7".toList d (by decide) hd
  obtain ⟨hsame, hback⟩ := hdefer ":id".toList (by decide)
  obtain rfl := Except.ok.inj (he.symm.trans hsame)
  have hfilled : slot.fill ":id".toList = ([], "/clients/:id?q=a+b".toList) := Prod.ext hhost hurl
  have halone : slot.Alone ":id".toList := by
    refine Slot.alone_of_count (by decide) ?_
    rw [hfilled]
    decide
  exact ⟨r, d, _, hr, hd, hsame, hurl, (hback halone).2⟩

end RouteTable

end Signpost
