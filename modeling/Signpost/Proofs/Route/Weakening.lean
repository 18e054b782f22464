import Signpost.Proofs.Route.HostBinding

/-!
Requests that ask for less. A request that leaves out its host or its format, asks for a wider
format, or asks for the head of what it asked for as a whole is served by every route that served it
before, and with the same arguments: only the argument that the host gave goes with the host. Each
part of the guard is taken on its own, since what the path gives does not depend on method and
format. Main statement: `Route.weaker_request_served`.
-/

namespace Signpost

namespace Guard

theorem servesMethod_congr {a b : Text} (h : Text.eqIgnoreCase a b = true) (m : Text) :
    servesMethod m a = servesMethod m b := by
  have hlower : Text.lowerAscii a = Text.lowerAscii b := eq_of_beq h
  simp only [servesMethod, Text.eqIgnoreCase, hlower]

end Guard

/-- The argument of the host is the one that the placeholder of the host template names. -/
theorem CompiledTemplate.ReadFrom.isHost_iff {template action : Text} {c : CompiledTemplate}
    (h : c.ReadFrom template action) {a : Argument} (ha : a ∈ c.arguments) :
    a.isHost = true ↔ c.host.placeholder = some a.name := by
  constructor
  · intro hhost
    obtain ⟨known, more, hknown, hmore, harguments⟩ := h.arguments_eq
    rw [harguments] at ha
    obtain ⟨b, hb, rfl⟩ := List.mem_map.mp ha
    rcases List.mem_append.mp hb with hb | hb
    · unfold hostArguments at hknown
      split at hknown
      · next name hname =>
        obtain ⟨b', hb', hknown⟩ := Except.bind_eq_ok hknown
        obtain rfl := Except.ok.inj hknown
        obtain rfl := List.mem_singleton.mp hb
        rw [hname, ← (Argument.read_eq_ok hb').1]
        rfl
      · obtain rfl := Except.ok.inj hknown
        cases hb
    · obtain ⟨p, -, hread⟩ := exists_right_of_mem hmore.flip hb
      have hpath : b.isHost = false := (Argument.read_eq_ok hread).2.2.2
      have hsame : b.isHost = true := hhost
      rw [hpath] at hsame
      cases hsame
  · intro hname
    obtain ⟨b, hb, hbname, hbhost⟩ := h.exists_hostArgument hname
    obtain rfl := List.inj_on_of_nodup_map h.nodup_names hb ha hbname
    exact hbhost

namespace Route

/-- Arguments without the one that the host gives; it stays when a static argument has its name. -/
def withoutHostArg (r : Route) (args : TextMap Text) : TextMap Text :=
  match r.template.host.placeholder with
  | some name => if r.staticArgs.contains name then args else args.erase name
  | none => args

variable {d : RouteDefinition} {r : Route} {q q' : Query} {args : TextMap Text} {taken : Captures}

/-- Method and format only decide whether the route serves the request, so it serves every request
with the same path and host that passes its guard alike. -/
theorem argsFor?_of_guard (hpath : q'.path = q.path) (hhost : q'.host = q.host)
    (hguard : r.guard.holds q = true → r.guard.holds q' = true) (h : r.argsFor? q = some args) :
    r.argsFor? q' = some args := by
  obtain ⟨hholds, taken, htaken, rfl⟩ := argsFor?_eq_some_iff.mp h
  refine argsFor?_eq_some_iff.mpr ⟨hguard hholds, taken, hpath ▸ htaken, ?_⟩
  simp only [takenArgs, boundValue, hhost]

theorem get?_withoutHostArg (r : Route) (args : TextMap Text) (name : Text) :
    (r.withoutHostArg args).get? name =
      if r.template.host.placeholder = some name ∧ r.staticArgs.get? name = none then none
        else args.get? name := by
  unfold withoutHostArg
  cases r.template.host.placeholder with
  | none => simp
  | some host =>
    by_cases hname : name = host
    · subst hname
      cases hstatic : r.staticArgs.get? name <;> simp [TextMap.contains, hstatic]
    · have hother : ¬(some host = some name ∧ r.staticArgs.get? name = none) :=
        fun h => hname (Option.some.inj h.1).symm
      rw [if_neg hother]
      dsimp only
      split_ifs
      · rfl
      · simp [hname]

/-- Without a host, all arguments but that of the host are taken as with one. -/
theorem CompiledFrom.get?_takenArgs_hostless (hfrom : r.CompiledFrom d) (host : Option Text)
    (name : Text) :
    (r.takenArgs { q with host := none } taken).get? name =
      if r.template.host.placeholder = some name then none
      else (r.takenArgs { q with host := host } taken).get? name := by
  have hnodup := hfrom.template.nodup_names
  refine Option.ext fun v => ?_
  split_ifs with hname
  · rw [get?_takenArgs hnodup]
    refine iff_of_false ?_ (by simp)
    rintro ⟨a, ha, rfl, hv⟩
    rw [boundValue, if_pos ((hfrom.template.isHost_iff ha).mpr hname)] at hv
    cases hv
  · rw [get?_takenArgs hnodup, get?_takenArgs hnodup]
    refine exists_congr fun a => and_congr_right fun ha => and_congr_right fun haname => ?_
    have hpath : ¬a.isHost = true := by rwa [hfrom.template.isHost_iff ha, haname]
    rw [boundValue, boundValue, if_neg hpath, if_neg hpath]

theorem CompiledFrom.withoutHostArg_overlay (hfrom : r.CompiledFrom d) (host : Option Text) :
    r.withoutHostArg ((r.takenArgs { q with host := host } taken).overlay r.staticArgs) =
      (r.takenArgs { q with host := none } taken).overlay r.staticArgs := by
  refine TextMap.eq_of_get? fun name => ?_
  simp only [get?_withoutHostArg, TextMap.get?_overlay, hfrom.get?_takenArgs_hostless host]
  cases hstatic : r.staticArgs.get? name <;> simp

/-- A route that serves a request serves what asks for less, with the same arguments. It serves the
request without its host, except for the argument that the host gave and no static argument gives,
and a request that it serves without host it serves with any host that its pattern accepts. It
serves a request for a head when it serves one for a whole answer, a request without format unless
it pins one itself, and a request for a format that includes the one asked for. -/
theorem weaker_request_served (hr : r.IsCompiled) (q : Query) :
    (∀ host args, r.argsFor? { q with host := some host } = some args →
      r.argsFor? { q with host := none } = some (r.withoutHostArg args)) ∧
    (∀ host args, r.argsFor? { q with host := none } = some args → r.AcceptsHost host →
      ∃ more, r.argsFor? { q with host := some host } = some more ∧ r.withoutHostArg more = args) ∧
    (∀ get head args, Text.eqIgnoreCase get "GET".toList = true →
      Text.eqIgnoreCase head "HEAD".toList = true →
      r.argsFor? { q with method := get } = some args → r.argsFor?
        { q with method := head } = some args) ∧
    (pinnedFormat? r.staticArgs = none → ∀ args, r.argsFor? q = some args →
      r.argsFor? { q with format := none } = some args) ∧
    ∀ f g args, g.includes f = true → r.argsFor? { q with format := some f } = some args →
      r.argsFor? { q with format := some g } = some args := by
  obtain ⟨d, hd⟩ := hr
  have hfrom := compile_compiledFrom hd
  refine ⟨fun host args h => ?_, fun host args h haccepts => ?_,
    fun get head args hget hhead h => ?_,
    fun hpinned args h => ?_, fun f g args hwider h => ?_⟩
  · obtain ⟨hholds, taken, htaken, rfl⟩ := argsFor?_eq_some_iff.mp h
    rw [hfrom.withoutHostArg_overlay]
    exact argsFor?_eq_some_iff.mpr ⟨(hfrom.guard_host_iff.mp hholds).1, taken, htaken, rfl⟩
  · obtain ⟨hholds, taken, htaken, rfl⟩ := argsFor?_eq_some_iff.mp h
    refine ⟨_, argsFor?_eq_some_iff.mpr ⟨hfrom.guard_host_iff.mpr ⟨hholds, haccepts⟩, taken,
      htaken, rfl⟩, ?_⟩
    exact hfrom.withoutHostArg_overlay (some host)
  · refine argsFor?_of_guard (q := { q with method := get }) rfl rfl (fun hholds => ?_) h
    rw [hfrom.guard_iff] at hholds ⊢
    refine hholds.imp_left fun hmethod => ?_
    have hwhole : Guard.servesMethod (Text.upperAscii r.method) get = true := hmethod
    rw [Guard.servesMethod_congr hget] at hwhole
    exact Guard.servesMethod_head hhead hwhole
  · refine argsFor?_of_guard (q := q) rfl rfl (fun hholds => ?_) h
    rw [hfrom.guard_iff] at hholds ⊢
    refine hholds.imp_right (And.imp_left fun _ => ?_)
    rw [hpinned]
    rfl
  · refine argsFor?_of_guard (q := { q with format := some f }) rfl rfl (fun hholds => ?_) h
    rw [hfrom.guard_iff] at hholds ⊢
    exact hholds.imp_right (And.imp_left (Guard.holds_format_wider hwider))

/-- A page of a tenant in one format, then without the tenant, in a wider format, its head only, in
no format, and for another tenant. -/
theorem weaker_request_served_tenant :
    ∃ r more, compile
        { method := "GET".toList, path := "{tenant}.example.com/{page}".toList,
          action := "show".toList
          staticArgs := .ofList [("lang".toList, "en".toList)]
          formats := [.new "application".toList "atom+xml".toList] } = .ok r ∧
      r.argsFor? ⟨"GET".toList, "/news".toList, some (.new "application".toList "atom+xml".toList),
        some "ACME.example.com".toList⟩ =
          some (.ofList [("lang".toList, "en".toList), ("page".toList, "news".toList),
            ("tenant".toList, "acme".toList)]) ∧
      r.argsFor? ⟨"Head".toList, "/news".toList,
        some (.new "application".toList "*+xml".toList), none⟩ =
        some (.ofList [("lang".toList, "en".toList), ("page".toList, "news".toList)]) ∧
      r.argsFor? ⟨"Head".toList, "/news".toList, none, none⟩ =
        some (.ofList [("lang".toList, "en".toList), ("page".toList, "news".toList)]) ∧
      r.argsFor? ⟨"Head".toList, "/news".toList, none, some "Beta.example.com".toList⟩ = some more ∧
      r.withoutHostArg more = .ofList [("lang".toList, "en".toList),
        ("page".toList, "news".toList)] := by
  have hserves : compilesTo
      { method := "GET".toList, path := "{tenant}.example.com/{page}".toList,
        action := "show".toList
        staticArgs := .ofList [("lang".toList, "en".toList)]
        formats := [.new "application".toList "atom+xml".toList] } (fun r =>
        decide (pinnedFormat? r.staticArgs = none ∧
          (∀ p ∈ r.template.hostPattern,
            p.isMatch (Text.lowerAscii "Beta.example.com".toList) = true) ∧
          r.withoutHostArg (.ofList [("lang".toList, "en".toList), ("page".toList, "news".toList),
            ("tenant".toList, "acme".toList)]) = .ofList [("lang".toList, "en".toList),
            ("page".toList, "news".toList)] ∧
          r.argsFor? ⟨"GET".toList, "/news".toList,
            some (.new "application".toList "atom+xml".toList),
            some "ACME.example.com".toList⟩ = some (.ofList [("lang".toList, "en".toList),
              ("page".toList, "news".toList), ("tenant".toList, "acme".toList)]))) = true := by
          decide +kernel
  obtain ⟨r, hr, hfacts⟩ := exists_of_compilesTo hserves
  obtain ⟨hpinned, haccepts, hwithout, hargs⟩ := of_decide_eq_true hfacts
  have hwider : MediaType.includes (.new "application".toList "*+xml".toList)
      (.new "application".toList "atom+xml".toList) = true := by decide
  obtain ⟨hdrop, -, -, -, hwiden⟩ := weaker_request_served ⟨_, hr⟩
    ⟨"GET".toList, "/news".toList, some (.new "application".toList "atom+xml".toList), none⟩
  obtain ⟨-, -, hhead, -⟩ := weaker_request_served ⟨_, hr⟩
    ⟨"GET".toList, "/news".toList, some (.new "application".toList "*+xml".toList), none⟩
  obtain ⟨-, -, -, hany, -⟩ := weaker_request_served ⟨_, hr⟩
    ⟨"Head".toList, "/news".toList, some (.new "application".toList "*+xml".toList), none⟩
  obtain ⟨-, hextend, -⟩ :=
    weaker_request_served ⟨_, hr⟩ ⟨"Head".toList, "/news".toList, none, none⟩
  have hhostless := hdrop _ _ hargs
  rw [hwithout] at hhostless
  have hheads := hhead _ "Head".toList _ (by decide) (by decide) (hwiden _ _ _ hwider hhostless)
  obtain ⟨more, hmore, hsame⟩ := hextend _ _ (hany hpinned _ hheads) haccepts
  exact ⟨r, more, hr, hargs, hheads, hany hpinned _ hheads, hmore, hsame⟩

end Route

end Signpost
