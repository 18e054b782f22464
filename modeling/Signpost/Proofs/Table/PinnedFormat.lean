import Signpost.Proofs.MediaType.Inclusion
import Signpost.Proofs.Table.Actions

/-!
Routes that pin a format. Such a route serves only requests that ask for a format, and what they ask
for has to accept the pinned format or one that is declared beside it; then the request is served as
one for the pinned format and is said to have asked for that. Main statement:
`RouteTable.pinned_format_gates`.
-/

namespace Signpost

namespace Route

theorem mem_allFormats {declared : List MediaType} {f g : MediaType} :
    g ∈ allFormats declared (some f) ↔ g = f ∨ g ∈ declared := by
  change g ∈ (if f ∈ declared then declared else declared ++ [f]) ↔ _
  split_ifs with hf
  · exact (or_iff_right_of_imp fun h => h ▸ hf).symm
  · rw [List.mem_append, List.mem_singleton, or_comm]

/-- What a request has to ask for where `f` is pinned beside declared formats: a type that accepts
`f`, or one of those that do not. -/
def Reaches (declared : List MediaType) (f m : MediaType) : Prop :=
  m.includes f = true ∨ ∃ g ∈ declared, g.includes f = false ∧ m.includes g = true

instance (declared : List MediaType) (f m : MediaType) : Decidable (Reaches declared f m) :=
  inferInstanceAs (Decidable (_ ∨ _))

theorem reaches_iff {declared : List MediaType} {f m : MediaType} :
    Reaches declared f m ↔ ∃ g ∈ allFormats declared (some f), m.includes g = true := by
  constructor
  · rintro (hf | ⟨g, hg, -, hm⟩)
    · exact ⟨f, mem_allFormats.mpr (.inl rfl), hf⟩
    · exact ⟨g, mem_allFormats.mpr (.inr hg), hm⟩
  · rintro ⟨g, hg, hm⟩
    obtain rfl | hdeclared := mem_allFormats.mp hg
    · exact .inl hm
    · cases hgf : g.includes f with
      | true => exact .inl (MediaType.includes_trans hm hgf)
      | false => exact .inr ⟨g, hdeclared, hgf, hm⟩

theorem holds_pinned_iff {declared : List MediaType} {f : MediaType} {q : Query} :
    (Guard.format (allFormats declared (some f)) true).holds q = true ↔
      ∃ m, q.format = some m ∧ Reaches declared f m := by
  have hne : allFormats declared (some f) ≠ [] := List.ne_nil_of_mem (mem_allFormats.mpr (.inl rfl))
  unfold Guard.holds
  cases q.format with
  | none => simp
  | some m => simp [reaches_iff, hne]

variable {d : RouteDefinition} {r : Route} {f : MediaType}

/-- The route answers every request that it serves as one for the pinned format. -/
theorem CompiledFrom.argsFor?_pinned_iff (hfrom : r.CompiledFrom d)
    (hf : pinnedFormat? d.staticArgs = some f) {q : Query}
    {args : TextMap Text} : r.argsFor? q = some args ↔
      (∃ m, q.format = some m ∧ Reaches d.formats f m) ∧
        r.argsFor? { q with format := some f } = some args := by
  have hself : ∃ m, some f = some m ∧ Reaches d.formats f m :=
    ⟨f, rfl, .inl (MediaType.includes_self f)⟩
  have hguard : ∀ p : Query, r.guard.holds p = true ↔ (Guard.ofMethod r.method).holds p = true ∧
      (∃ m, p.format = some m ∧ Reaches d.formats f m) ∧
      (Guard.host r.template.hostPattern).holds p = true := by
    intro p
    rw [hfrom.guard_iff, hfrom.formats, hfrom.staticArgs, hf, ← holds_pinned_iff]
    rfl
  rw [argsFor?_eq_some_iff, argsFor?_eq_some_iff, hguard, hguard]
  -- method, host and what the path binds do not depend on the format
  constructor
  · rintro ⟨⟨hmethod, hformat, hhost⟩, htaken⟩
    exact ⟨hformat, ⟨hmethod, hself, hhost⟩, htaken⟩
  · rintro ⟨hformat, ⟨hmethod, -, hhost⟩, htaken⟩
    exact ⟨⟨hmethod, hformat, hhost⟩, htaken⟩

theorem CompiledFrom.get?_formatArg (hfrom : r.CompiledFrom d)
    (hf : pinnedFormat? d.staticArgs = some f) {q : Query} {args : TextMap Text}
    (h : r.argsFor? q = some args) :
    ∃ name, args.get? formatArg = some name ∧ MediaType.ofFormat? name = some f := by
  obtain ⟨name, hname, hnamed⟩ := Option.bind_eq_some_iff.mp hf
  obtain ⟨-, taken, -, rfl⟩ := argsFor?_eq_some_iff.mp h
  rw [TextMap.get?_overlay, hfrom.staticArgs, hname]
  exact ⟨name, rfl, hnamed⟩

end Route

namespace RouteTable

/-- A route that pins a format serves exactly the requests that ask for what accepts the pinned
format, or accepts a format declared beside it that does not, and serves them as requests for the
pinned format. So a request that is dispatched to it has asked for that, and is said afterwards to
have asked for the pinned format. -/
theorem pinned_format_gates {d : RouteDefinition} {r : Route} {f : MediaType}
    (hr : Route.compile d = .ok r) (hf : Route.pinnedFormat? d.staticArgs = some f) :
    (∀ q args, r.argsFor? q = some args ↔
      (∃ m, q.format = some m ∧ Route.Reaches d.formats f m) ∧
        r.argsFor? { q with format := some f } = some args) ∧
    ∀ t : RouteTable, t.IsCompiled → ∀ request after, t.dispatch request = (.ok r, after) →
      after.format = some f ∧ ∃ m, request.format = some m ∧ Route.Reaches d.formats f m := by
  have hfrom := Route.compile_compiledFrom hr
  have hgate : ∀ q args, r.argsFor? q = some args ↔
      (∃ m, q.format = some m ∧ Route.Reaches d.formats f m) ∧
        r.argsFor? { q with format := some f } = some args :=
    fun q args => hfrom.argsFor?_pinned_iff hf
  refine ⟨hgate, fun t ht request after hdispatch => ?_⟩
  obtain ⟨i, args, hfirst, rfl⟩ := served_of_dispatch ht hdispatch
  obtain ⟨name, hname, hnamed⟩ := hfrom.get?_formatArg hf hfirst.args
  refine ⟨?_, ((hgate _ _).mp hfirst.args).1⟩
  simp only [Request.answered, hname, hnamed]

/-- A feed of data that declares a page too, asked for any data and for a picture. -/
theorem pinned_format_gates_star :
    ∃ r after, Route.compile
        { method := "GET".toList, path := "/feed".toList, action := "feed".toList
          staticArgs := .ofList [("format".toList, "json".toList)]
          formats := [.new "text".toList "html".toList] } = .ok r ∧
      dispatch { routes := [r] }
        { method := "GET".toList, path := "/feed".toList
          format := some (.new "application".toList "*".toList) } = (.ok r, after) ∧
      after.format = some (.new "application".toList "json".toList) ∧
      ∀ args, r.argsFor? ⟨"GET".toList, "/feed".toList, some (.new "image".toList "png".toList),
        none⟩ ≠ some args := by
  have hserves : Route.compilesTo
      { method := "GET".toList, path := "/feed".toList, action := "feed".toList
        staticArgs := .ofList [("format".toList, "json".toList)]
        formats := [.new "text".toList "html".toList] } (fun r =>
        (r.argsFor? ⟨"GET".toList, "/feed".toList, some (.new "application".toList "*".toList),
          none⟩).isSome) = true := by
    decide +kernel
  obtain ⟨r, hr, hsome⟩ := Route.exists_of_compilesTo hserves
  obtain ⟨args, hargs⟩ := Option.isSome_iff_exists.mp hsome
  have ht : IsCompiled { routes := [r] } := .singleton hr
  obtain ⟨hgate, hserved⟩ :=
    pinned_format_gates (f := .new "application".toList "json".toList) hr (by decide)
  obtain ⟨after, hdispatch, -, -⟩ := dispatch_singleton
    { method := "GET".toList, path := "/feed".toList,
      format := some (.new "application".toList "*".toList) } hargs
  refine ⟨r, after, hr, hdispatch, (hserved _ ht _ _ hdispatch).1, fun args h => ?_⟩
  obtain ⟨⟨m, hm, hreaches⟩, -⟩ := (hgate _ _).mp h
  obtain rfl := Option.some.inj hm
  have hpicture :
      ¬Route.Reaches [.new "text".toList "html".toList] (.new "application".toList "json".toList)
      (.new "image".toList "png".toList) := by decide
  exact hpicture hreaches

/-- A request for a page is served by a route that pins data and declares the page beside it, and is
said to have asked for data. -/
theorem pinned_format_reached_by_declared :
    ∃ r after, Route.compile
        { method := "GET".toList, path := "/".toList, action := "home".toList
          staticArgs := .ofList [("format".toList, "json".toList)]
          formats := [.new "text".toList "html".toList] } = .ok r ∧
      Route.pinnedFormat? r.staticArgs = some (.new "application".toList "json".toList) ∧
      (MediaType.new "text".toList "html".toList).includes
        (.new "application".toList "json".toList) = false ∧
      dispatch { routes := [r] }
        { method := "GET".toList, path := "/".toList,
          format := some (.new "text".toList "html".toList) } =
          (.ok r, after) ∧
      after.format = some (.new "application".toList "json".toList) := by
  have hserves : Route.compilesTo
      { method := "GET".toList, path := "/".toList, action := "home".toList
        staticArgs := .ofList [("format".toList, "json".toList)]
        formats := [.new "text".toList "html".toList] } (fun r =>
        Route.pinnedFormat? r.staticArgs == some (.new "application".toList "json".toList) &&
        (r.argsFor? ⟨"GET".toList, "/".toList, some (.new "text".toList "html".toList),
          none⟩).any fun args =>
          args.get? Route.formatArg == some "json".toList) = true := by decide +kernel
  obtain ⟨r, hr, hchecked⟩ := Route.exists_of_compilesTo hserves
  obtain ⟨hpinned, hserved⟩ := Bool.and_eq_true_iff.mp hchecked
  obtain ⟨args, hargs, hformat⟩ := (Option.any_eq_true _ _).mp hserved
  have hfirst : FirstServing ⟨"GET".toList, "/".toList, some (.new "text".toList "html".toList),
      none⟩ [r] 0 r args :=
    ⟨rfl, hargs, fun j hj => absurd hj (Nat.not_lt_zero j)⟩
  refine ⟨r, _, hr,
    eq_of_beq hpinned, by decide, dispatch_served (t := { routes := [r] }) hfirst, ?_⟩
  simp only [eq_of_beq hformat]
  decide

end RouteTable

end Signpost
