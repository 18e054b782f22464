import Signpost.Proofs.Route.Restating
import Signpost.Proofs.Template.HostPattern

/-!
What the host of a request gives to the placeholder of a host template. Whether the route serves the
request is decided by the host pattern, which asks for the literal text around the placeholder; the
value is made by removing that text, the part in front of the placeholder and the part behind it in
one piece, wherever it occurs in the host. The two agree when the literal text stands on one side
only and occurs in the host once. Main statement: `Route.IsCompiled.host_binding`.
-/

namespace Signpost

namespace HostTemplate

variable {h : HostTemplate} {value host : Text}

theorem Spells.unique {other : Text} (hv : h.Spells value host) (hw : h.Spells other host) :
    value = other :=
  List.append_cancel_left (List.append_cancel_right (hv.symm.trans hw))

/-- The literal text of the template stands on one side of the value and nowhere else in the host,
if there is any, or the value is empty. -/
def StandsOut (h : HostTemplate) (value : Text) : Prop :=
  h.fixedText = [] ∨ value = [] ∨
    h.before = [] ∧ ¬Text.lowerAscii h.after <:+: value ++ (Text.lowerAscii h.after).dropLast ∨
    h.after = [] ∧ ¬Text.lowerAscii h.before <:+: value

instance (h : HostTemplate) (value : Text) : Decidable (h.StandsOut value) :=
  inferInstanceAs (Decidable (_ ∨ _ ∨ _ ∨ _))

instance (h : HostTemplate) (value host : Text) : Decidable (h.Spells value host) :=
  inferInstanceAs (Decidable (_ = _))

theorem valueIn_of_standsOut (hspells : h.Spells value host) (hout : h.StandsOut value) :
    h.valueIn (Text.lowerAscii host) = value := by
  unfold valueIn
  rw [hspells]
  have hlower : Text.lowerAscii h.fixedText = Text.lowerAscii h.before ++ Text.lowerAscii h.after :=
    List.map_append
  by_cases hfixed : h.fixedText = []
  · obtain ⟨hbefore, hafter⟩ := List.append_eq_nil_iff.mp hfixed
    rw [hfixed, hbefore, hafter]
    exact (Text.replaceAll_nil_piece _).trans (by simp [Text.lowerAscii])
  have hne : Text.lowerAscii h.fixedText ≠ [] :=
    fun heq => hfixed (Text.lowerAscii_eq_nil_iff.mp heq)
  rcases hout with hnone | rfl | ⟨hbefore, honce⟩ | ⟨hafter, honce⟩
  · exact absurd hnone hfixed
  · rw [List.append_nil, ← hlower]
    exact Text.replaceAll_self hne
  · have hpiece : Text.lowerAscii h.fixedText = Text.lowerAscii h.after := by
      rw [hlower, hbefore]; rfl
    rw [hpiece] at hne ⊢
    rw [hbefore]
    exact (Text.replaceAll_end hne honce).trans (List.append_nil value)
  · have hpiece : Text.lowerAscii h.fixedText = Text.lowerAscii h.before := by
      rw [hlower, hafter]
      exact List.append_nil _
    rw [hpiece] at hne ⊢
    rw [hafter, List.append_assoc, Text.replaceAll_start hne, List.nil_append]
    exact (congrArg _ (List.append_nil value)).trans (Text.replaceAll_of_not_infix honce)

/-- A host that is rendered for a value in small letters that the encoding keeps has that value in
it. -/
theorem spells_render {values : TextMap Text} {name : Text} (hname : h.placeholder = some name)
    (hvalue : values.get? name = some value)
    (hsafe : ∀ c ∈ value, Url.isFormSafe c = true ∧ c.toLower = c) :
    h.Spells value (h.render values) := by
  have hsmall : value.map Char.toLower = value :=
    (List.map_congr_left fun c hc => (hsafe c hc).2).trans (List.map_id value)
  have hrender : h.render values = h.before ++ value ++ h.after := by
    simp only [render, hname, Option.bind_some, hvalue, Url.encodeValue_of_safe fun c hc =>
      (hsafe c hc).1]
  rw [Spells, hrender, Text.lowerAscii, List.map_append, List.map_append, hsmall]
  rfl

theorem valueIn_of_not_infix (hnone : ¬Text.lowerAscii h.fixedText <:+: Text.lowerAscii host) :
    h.valueIn (Text.lowerAscii host) = Text.lowerAscii host :=
  Text.replaceAll_of_not_infix hnone

end HostTemplate

theorem CompiledTemplate.ReadFrom.exists_hostArgument {template action : Text}
    {c : CompiledTemplate} (h : c.ReadFrom template action) {name : Text}
    (hname : c.host.placeholder = some name) :
    ∃ a ∈ c.arguments, a.name = name ∧ a.isHost = true := by
  obtain ⟨known, more, hknown, -, harguments⟩ := h.arguments_eq
  unfold hostArguments at hknown
  rw [hname] at hknown
  obtain ⟨a, ha, hknown⟩ := Except.bind_eq_ok hknown
  obtain rfl := Except.ok.inj hknown
  rw [harguments]
  exact ⟨_, List.mem_map_of_mem List.mem_cons_self, (Argument.read_eq_ok ha).1, rfl⟩

namespace Route

variable {r : Route} {q : Query}

theorem isSome_argsFor?_iff :
    (r.argsFor? q).isSome = true ↔
      r.guard.holds q = true ∧ r.template.pathPattern.isMatch q.path = true := by
  unfold argsFor?
  split_ifs with hguard
  · rw [Option.isSome_map]
    exact (and_iff_right hguard).symm
  · simp [hguard]

/-- The host pattern of the route matches the host, in small letters, if the route has one. -/
def AcceptsHost (r : Route) (host : Text) : Prop :=
  ∀ p ∈ r.template.hostPattern, p.isMatch (Text.lowerAscii host) = true

/-- The guard asks of the host what the host pattern does, and of the rest what it asks of a request
without host. -/
theorem CompiledFrom.guard_host_iff {d : RouteDefinition} (hfrom : r.CompiledFrom d) {host : Text} :
    r.guard.holds { q with host := some host } = true ↔
      r.guard.holds { q with host := none } = true ∧ r.AcceptsHost host := by
  have haccepts : (Guard.host r.template.hostPattern).holds { q with host := some host } = true ↔
      r.AcceptsHost host := by
    unfold AcceptsHost
    cases r.template.hostPattern <;> simp [Guard.holds]
  have hnone : (Guard.host r.template.hostPattern).holds { q with host := none } = true := by
    cases r.template.hostPattern <;> rfl
  rw [hfrom.guard_iff, hfrom.guard_iff, haccepts, and_iff_left hnone, and_assoc]
  rfl

theorem CompiledFrom.guard_holds_host {d : RouteDefinition} (hfrom : r.CompiledFrom d) {p : Pattern}
    (hp : r.template.hostPattern = some p) {host : Text} :
    r.guard.holds { q with host := some host } = true ↔
      r.guard.holds { q with host := none } = true ∧ p.isMatch (Text.lowerAscii host) = true := by
  rw [hfrom.guard_host_iff, AcceptsHost, hp]
  simp

/-- The host template of a route in its parts. -/
theorem CompiledFrom.host_eq {d : RouteDefinition} (hfrom : r.CompiledFrom d)
    {before inside after : Text} (hhost : r.host = before ++ '{' :: (inside ++ '}' :: after))
    (hopen : '{' ∉ before) (hclose : '}' ∉ after) :
    r.template.host = ⟨r.host, before, some (HostTemplate.withoutBraces inside), after⟩ := by
  have hraw : r.template.host.raw = before ++ '{' :: (inside ++ '}' :: after) := hhost
  rw [hfrom.template.host_eq_read, hraw, hhost, HostTemplate.read_braces hopen hclose]

/-- A route whose host template has a placeholder, all its literal text ASCII, serves a request with
an ASCII host on one line just when it serves it without host and the host is the literal text, in
whatever case, around some value. If no static argument goes over it, the argument of the host is
then bound to the host with every occurrence of the literal text removed, the two parts of it taken
as one piece. That is the value if the literal text stands out, and the whole host if the piece does
not occur. A host rendered for a value of small letters that the encoding keeps has that value. -/
theorem IsCompiled.host_binding (hr : r.IsCompiled) {before inside after : Text}
    (hhost : r.host = before ++ '{' :: (inside ++ '}' :: after)) (hopen : '{' ∉ before)
    (hclose : '}' ∉ after) (hbefore : before.IsAscii) (hafter : after.IsAscii) {host : Text}
    (hascii : host.IsAscii) (hline : '\n' ∉ host) :
    ((r.argsFor? { q with host := some host }).isSome = true ↔
      (r.argsFor? { q with host := none }).isSome = true ∧ ∃ v, r.template.host.Spells v host) ∧
    (∀ args, r.argsFor? { q with host := some host } = some args →
      r.staticArgs.get? (HostTemplate.withoutBraces inside) = none →
      ∃ v bound,
        r.template.host.Spells v host ∧ args.get? (HostTemplate.withoutBraces inside) = some bound ∧
        bound = Text.replaceAll (Text.lowerAscii (before ++ after)) [] (Text.lowerAscii host) ∧
        (r.template.host.StandsOut v → bound = v) ∧
        (¬Text.lowerAscii (before ++ after) <:+: Text.lowerAscii host →
          bound = Text.lowerAscii host)) ∧
    ∀ values value, values.get? (HostTemplate.withoutBraces inside) = some value →
      (∀ c ∈ value, Url.isFormSafe c = true ∧ c.toLower = c) →
      r.template.host.Spells value (r.template.renderHost values) := by
  obtain ⟨d, hd⟩ := hr
  have hfrom := compile_compiledFrom hd
  have hread := hfrom.template
  have hparts := hfrom.host_eq hhost hopen hclose
  have hname : r.template.host.placeholder = some (HostTemplate.withoutBraces inside) := by
    rw [hparts]
  have hraw : r.template.host.raw ≠ [] := by simp [hparts, hhost]
  obtain ⟨p, hp, hmatch⟩ :=
    hread.isMatch_hostPattern_iff hname hraw (by rwa [hparts]) (by rwa [hparts]) hascii
  have hserves : (r.argsFor? { q with host := some host }).isSome = true ↔
      (r.argsFor? { q with host := none }).isSome = true ∧ ∃ v, r.template.host.Spells v host := by
    have hspells : (∃ v, '\n' ∉ v ∧ r.template.host.Spells v host) ↔
        ∃ v, r.template.host.Spells v host := by
      refine exists_congr fun v => and_iff_right_of_imp fun hv hmem => hline ?_
      refine Text.mem_of_mem_lowerAscii (c := '\n') ?_ (by decide)
      rw [hv]
      exact List.mem_append_left _ (List.mem_append_right _ hmem)
    rw [isSome_argsFor?_iff, isSome_argsFor?_iff, hfrom.guard_holds_host hp, hmatch, hspells]
    exact and_right_comm
  refine ⟨hserves, fun args hargs hstatic => ?_, fun values value =>
    HostTemplate.spells_render hname⟩
  obtain ⟨-, v, hv⟩ := hserves.mp (Option.isSome_iff_exists.mpr ⟨args, hargs⟩)
  obtain ⟨-, taken, -, rfl⟩ := argsFor?_eq_some_iff.mp hargs
  obtain ⟨a, ha, haname, hahost⟩ := hread.exists_hostArgument hname
  have hfixed : r.template.host.fixedText = before ++ after := by
    rw [hparts]
    rfl
  rw [← hfixed]
  refine ⟨v, r.template.host.valueIn (Text.lowerAscii host), hv, ?_, rfl,
    HostTemplate.valueIn_of_standsOut hv, HostTemplate.valueIn_of_not_infix⟩
  rw [TextMap.get?_overlay, hstatic, Option.none_or, ← haname,
    get?_takenArgs_of_mem hread.nodup_names ha, boundValue, if_pos hahost]
  rfl

/-- A tenant in front of a domain, in a host in capitals. -/
theorem host_binding_tenant :
    ∃ r args, compile
        { method := "GET".toList, path := "{tenant}.Example.com/home".toList,
          action := "home".toList } = .ok r ∧
      r.argsFor? ⟨"GET".toList, "/home".toList, none, some "ACME.example.COM".toList⟩ = some args ∧
      args.get? "tenant".toList = some "acme".toList := by
  have hserves : compilesTo
      { method := "GET".toList, path := "{tenant}.Example.com/home".toList,
        action := "home".toList } (fun r =>
        decide (r.host = [] ++ '{' :: ("tenant".toList ++ '}' :: ".Example.com".toList) ∧
          r.staticArgs.get? "tenant".toList = none ∧ r.template.host.StandsOut "acme".toList ∧
          r.template.host.Spells "acme".toList "ACME.example.COM".toList) &&
        (r.argsFor? ⟨"GET".toList, "/home".toList, none, none⟩).isSome) = true := by decide +kernel
  obtain ⟨r, hr, hchecked⟩ := exists_of_compilesTo hserves
  obtain ⟨hfacts, hserved⟩ := Bool.and_eq_true_iff.mp hchecked
  obtain ⟨hhost, hstatic, hout, hspells⟩ := of_decide_eq_true hfacts
  have hascii : Text.IsAscii "ACME.example.COM".toList := by decide
  have hdomain : Text.IsAscii ".Example.com".toList := by decide
  obtain ⟨hmatches, hbinds, -⟩ :=
    IsCompiled.host_binding (q := ⟨"GET".toList, "/home".toList, none, none⟩) ⟨_, hr⟩ hhost
    (by decide) (by decide) (by decide) hdomain hascii (by decide)
  obtain ⟨args, hargs⟩ := Option.isSome_iff_exists.mp (hmatches.mpr ⟨hserved, _, hspells⟩)
  obtain ⟨v, bound, hv, hbound, -, hvalue, -⟩ := hbinds args hargs hstatic
  obtain rfl := hv.unique hspells
  exact ⟨r, args, hr, hargs, hvalue hout ▸ hbound⟩

/-- The route of this definition serves the host, which is its template with this value, and binds
another value. -/
def Misbinds (d : RouteDefinition) (name host value : Text) : Prop :=
  ∃ r args,
    compile d = .ok r ∧ r.argsFor? ⟨"GET".toList, "/home".toList, none, some host⟩ = some args ∧
    r.template.host.Spells value host ∧ args.get? name ≠ some value

theorem misbinds_of_compilesTo {d : RouteDefinition} {name host value : Text}
    (h : compilesTo d (fun r =>
    decide (r.template.host.Spells value host) &&
      (r.argsFor? ⟨"GET".toList, "/home".toList, none, some host⟩).any fun args =>
        decide (args.get? name ≠ some value)) = true) : Misbinds d name host value := by
  obtain ⟨r, hr, hchecked⟩ := exists_of_compilesTo h
  obtain ⟨hspells, hserved⟩ := Bool.and_eq_true_iff.mp hchecked
  obtain ⟨args, hargs, hdiffers⟩ := (Option.any_eq_true _ _).mp hserved
  exact ⟨r, args, hr, hargs, of_decide_eq_true hspells, of_decide_eq_true hdiffers⟩

/-- With literal text on both sides the whole host is bound, and a value that ends in the literal
text loses its end. -/
theorem host_binding_differs :
    Misbinds { method := "GET".toList, path := "api.{c}.example.com/home".toList,
               action := "home".toList }
      "c".toList "api.acme.example.com".toList "acme".toList ∧
    Misbinds { method := "GET".toList, path := "{c}.com/home".toList, action := "home".toList }
      "c".toList "x.com.com".toList "x.com".toList :=
  ⟨misbinds_of_compilesTo (by decide +kernel), misbinds_of_compilesTo (by decide +kernel)⟩

end Route

end Signpost
