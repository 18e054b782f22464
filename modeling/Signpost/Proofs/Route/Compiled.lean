import Signpost.Table.Basic

/-!
Routes and tables as programs come by them. A route is made by compiling a definition and in no
other way; what that says of its parts is stated here once, so that nothing below takes compilation
apart again.
-/

namespace Signpost

theorem Except.bind_eq_ok {ε α β : Type} {x : Except ε α} {f : α → Except ε β} {b : β}
    (h : (x >>= f) = .ok b) : ∃ a, x = .ok a ∧ f a = .ok b := by
  cases x with
  | error e => cases h
  | ok a => exact ⟨a, rfl, h⟩

theorem Except.map_eq_ok {ε α β : Type} {x : Except ε α} {f : α → β} {b : β} (h : x.map f = .ok b) :
    ∃ a, x = .ok a ∧ f a = b := by
  cases x with
  | error e => cases h
  | ok a => exact ⟨a, rfl, Except.ok.inj h⟩

theorem Except.exists_of_any {ε α : Type} {x : Except ε α} {check : α → Bool}
    (h : x.toOption.any check = true) :
    ∃ a, x = .ok a ∧ check a = true := by
  cases x with
  | error e => cases h
  | ok a => exact ⟨a, rfl, h⟩

theorem Pattern.read_eq_ok {i : Bool} {source : Text} {p : Pattern}
    (h : Pattern.read i source = .ok p) :
    Regex.read? i source = some p.regex ∧ p.source = source := by
  unfold Pattern.read at h
  split at h
  · next regex hread =>
    obtain rfl := Except.ok.inj h
    exact ⟨hread, rfl⟩
  · cases h

theorem Argument.read_eq_ok {name constraint : Text} {a : Argument}
    (h : Argument.read name constraint = .ok a) :
    a.name = name ∧ a.constraint = constraint ∧
      Regex.read? false (Pattern.whole constraint) = some a.pattern.regex ∧ a.isHost = false := by
  obtain ⟨p, hp, h⟩ := Except.bind_eq_ok h
  obtain rfl := Except.ok.inj h
  exact ⟨rfl, rfl, (Pattern.read_eq_ok hp).1, rfl⟩

namespace CompiledTemplate

/-- The parts of a compiled template, each read from the text of the template or of the action. -/
structure ReadFrom (template action : Text) (c : CompiledTemplate) : Prop where
  slash : '/' ∈ template
  host : c.host = HostTemplate.read (template.takeWhile (· ≠ '/'))
  path : c.path = template.dropWhile (· ≠ '/')
  arguments : ∃ known found, hostArguments c.host = .ok known ∧
    readArguments template known (tokenize c.path) = .ok found ∧
    c.arguments = found.map (markFallback c.host)
  pathPattern :
    Pattern.read false (Pattern.whole ((tokenize c.path).flatMap pathPiece)) = .ok c.pathPattern
  hostPattern : readHostPattern c.host = .ok c.hostPattern
  actionPattern :
    Pattern.read true (Pattern.whole (actionPieces c.arguments [] (tokenize action)).1) =
      .ok c.actionPattern
  actionArguments : c.actionArguments = (actionPieces c.arguments [] (tokenize action)).2
  pathTokens : c.pathTokens = dropOptionalSlash (tokenize c.path)

theorem compile_readFrom {template action : Text} {c : CompiledTemplate}
    (h : compile template action = .ok c) : c.ReadFrom template action := by
  obtain ⟨⟨host, path⟩, hcut, h⟩ := Except.bind_eq_ok h
  obtain ⟨known, hknown, h⟩ := Except.bind_eq_ok h
  obtain ⟨found, hfound, h⟩ := Except.bind_eq_ok h
  obtain ⟨pathPattern, hpath, h⟩ := Except.bind_eq_ok h
  obtain ⟨hostPattern, hhost, h⟩ := Except.bind_eq_ok h
  obtain ⟨actionPattern, haction, h⟩ := Except.bind_eq_ok h
  obtain rfl := Except.ok.inj h
  unfold cutHost at hcut
  split at hcut
  · next hslash =>
    obtain ⟨rfl, rfl⟩ := Prod.mk.inj (Except.ok.inj hcut)
    exact ⟨hslash, rfl, rfl, ⟨known, found, hknown, hfound, rfl⟩, hpath, hhost, haction, rfl, rfl⟩
  · cases hcut

end CompiledTemplate

namespace Route

/-- The route is what some definition compiles to. -/
def IsCompiled (r : Route) : Prop :=
  ∃ d, compile d = .ok r

/-- The definition compiles, and the check finds nothing against the route. -/
def compilesTo (d : RouteDefinition) (check : Route → Bool) : Bool :=
  match compile d with
  | .ok r => check r
  | .error _ => false

theorem exists_of_compilesTo {d : RouteDefinition} {check : Route → Bool}
    (h : compilesTo d check = true) :
    ∃ r, compile d = .ok r ∧ check r = true := by
  unfold compilesTo at h
  split at h
  · next r hr => exact ⟨r, hr, h⟩
  · cases h

structure CompiledFrom (d : RouteDefinition) (r : Route) : Prop where
  template : r.template.ReadFrom d.path d.action
  method : r.method = Text.upperAscii (Text.trim d.method)
  action : r.action = d.action
  staticArgs : r.staticArgs = d.staticArgs
  formats : r.formats = allFormats d.formats (pinnedFormat? d.staticArgs)
  guard : r.guard = .allOf [.ofMethod r.method,
    .format r.formats (pinnedFormat? r.staticArgs).isSome, .host r.template.hostPattern]
  origin : r.origin = d.origin

theorem compile_compiledFrom {d : RouteDefinition} {r : Route} (h : compile d = .ok r) :
    r.CompiledFrom d := by
  obtain ⟨template, htemplate, h⟩ := Except.bind_eq_ok h
  obtain rfl := Except.ok.inj h
  exact ⟨CompiledTemplate.compile_readFrom htemplate, rfl, rfl, rfl, rfl, rfl, rfl⟩

/-- Where a definition stands makes no difference to what it compiles to. -/
theorem compile_placed (d : RouteDefinition) (origin : Option Origin) :
    compile { d with origin := origin } = (compile d).map fun r => { r with origin := origin } := by
  unfold compile
  cases CompiledTemplate.compile d.path d.action <;> rfl

theorem IsCompiled.readFrom {r : Route} (hr : r.IsCompiled) :
    ∃ text, r.template.ReadFrom text r.action := by
  obtain ⟨d, hd⟩ := hr
  have hfrom := compile_compiledFrom hd
  rw [hfrom.action]
  exact ⟨d.path, hfrom.template⟩

end Route

def RouteTable.IsCompiled (t : RouteTable) : Prop :=
  ∀ r ∈ t.routes, r.IsCompiled

theorem RouteTable.IsCompiled.singleton {d : RouteDefinition} {r : Route}
    (h : Route.compile d = .ok r) :
    RouteTable.IsCompiled { routes := [r] } :=
  fun _ hs => ⟨d, List.mem_singleton.mp hs ▸ h⟩

end Signpost
