import Signpost.Proofs.Route.Serving
import Signpost.Proofs.Route.Writing
import Signpost.Proofs.Table.Resolve
import Signpost.Proofs.Template.ActionPattern

/-!
From a request back to its URL. Resolving the action of a route with the arguments that a request
gave to it succeeds and writes the path of the request again, but for a slash that may be left out.
Main statement: `RouteTable.resolve_served`.
-/

namespace Signpost

open CompiledTemplate

namespace Route

variable {r : Route}

/-- An action that names no argument of its route is one that the route can stand for, and gives no
argument. -/
theorem IsCompiled.captures_action (hr : r.IsCompiled)
    (hnames : NamesNone r.template.arguments (tokenize r.action)) :
    r.template.actionArguments = [] ∧ ∃ groups,
      r.template.actionPattern.captures? r.action = some groups := by
  obtain ⟨text, hread⟩ := hr.readFrom
  have harguments := hread.actionArguments
  rw [hnames.actionPieces_names] at harguments
  exact ⟨harguments, Option.isSome_iff_exists.mp (isMatch_plainAction hnames hread.actionPattern)⟩

/-- The static arguments say nothing of the format and name no argument of the path. -/
def StaticApart (r : Route) : Prop :=
  ∀ name, r.staticArgs.contains name = true →
    name ≠ formatArg ∧ name ∉ r.template.arguments.map (·.name)

instance (r : Route) : Decidable r.StaticApart :=
  decidable_of_iff ((r.staticArgs.entries.all fun e =>
      e.1 != formatArg && !r.template.arguments.any (·.name == e.1)) = true) <| by
    have hentry : ∀ e : Text × Text,
        (e.1 != formatArg && !r.template.arguments.any (·.name == e.1)) = true ↔
        e.1 ≠ formatArg ∧ e.1 ∉ r.template.arguments.map (·.name) := by simp
    rw [List.all_eq_true]
    constructor
    · intro h name hname
      obtain ⟨v, hv⟩ := Option.isSome_iff_exists.mp hname
      exact (hentry (name, v)).mp (h (name, v) (TextMap.mem_entries.mpr hv))
    · intro h e he
      exact (hentry e).mpr (h e.1 (Option.isSome_iff_exists.mpr ⟨e.2, TextMap.mem_entries.mp he⟩))

theorem IsCompiled.served_get? (hr : r.IsCompiled) (hplain : r.template.PlainPath)
    (hstatic : r.StaticApart) {q : Query} {args : TextMap Text} (h : r.argsFor? q = some args) :
    ∃ taken, r.template.pathPattern.captures? q.path = some taken ∧
      (∀ a ∈ r.template.arguments, args.get? a.name = taken.get? a.name) ∧
      (∀ name v, r.staticArgs.get? name = some v → args.get? name = some v) ∧
      ∀ name, name ∉ r.template.arguments.map (·.name) →
        args.get? name = r.staticArgs.get? name := by
  obtain ⟨-, taken, htaken, rfl⟩ := argsFor?_eq_some_iff.mp h
  have hget : ∀ name v, (r.takenArgs q taken).get? name = some v ↔
      ∃ a ∈ r.template.arguments, a.name = name ∧ taken.get? name = some v := by
    intro name v
    rw [get?_takenArgs hr.nodup_names]
    constructor
    · rintro ⟨a, ha, rfl, hv⟩
      rw [hr.boundValue_eq hplain.host ha] at hv
      exact ⟨a, ha, rfl, hv⟩
    · rintro ⟨a, ha, rfl, hv⟩
      exact ⟨a, ha, rfl, by rw [hr.boundValue_eq hplain.host ha, hv]⟩
  refine ⟨taken, htaken, fun a ha => ?_, fun name v hv => ?_, fun name hname => ?_⟩
  · have hnone : r.staticArgs.get? a.name = none := by
      by_contra hsome
      exact (hstatic a.name (Option.isSome_iff_ne_none.mpr hsome)).2 (List.mem_map_of_mem ha)
    rw [TextMap.get?_overlay, hnone, Option.none_or]
    refine Option.ext fun v => ?_
    rw [hget]
    exact ⟨fun ⟨_, _, _, hv⟩ => hv, fun hv => ⟨a, ha, rfl, hv⟩⟩
  · simp [hv]
  · have hnone : (r.takenArgs q taken).get? name = none := by
      rw [Option.eq_none_iff_forall_ne_some]
      intro v hv
      obtain ⟨a, ha, rfl, -⟩ := (hget name v).mp hv
      exact hname (List.mem_map_of_mem ha)
    simp [hnone]

theorem IsCompiled.given_eq (hr : r.IsCompiled)
    (hnames : NamesNone r.template.arguments (tokenize r.action))
    (args : TextMap Text) (groups : Captures) (name : Text) :
    r.given groups (args.map .single) name = (args.get? name).map .single := by
  obtain ⟨hnone, -⟩ := hr.captures_action hnames
  simp [given, fromAction, hnone]

section Served

variable (hr : r.IsCompiled) (hplain : r.template.PlainPath) (hstatic : r.StaticApart) {q : Query}
  {args : TextMap Text} (h : r.argsFor? q = some args)
include hr hplain hstatic h

/-- What the route writes for the arguments of a request is the path of the request with its values
encoded. -/
theorem IsCompiled.path_of_served :
    ('?' ∉ q.path → '?' ∉ r.template.renderPath args) ∧
      ((∀ a ∈ r.template.arguments, ∀ v,
        args.get? a.name = some v → ∀ c ∈ v, Url.isFormSafe c = true) →
        q.path = r.template.renderPath args ∨
          optionalSlash <:+ r.path ∧ q.path = r.template.renderPath args ++ ['/']) := by
  obtain ⟨text, hread⟩ := hr.readFrom
  obtain ⟨taken, htaken, hpath, -⟩ := hr.served_get? hplain hstatic h
  obtain ⟨⟨e, he, hwritten⟩, hvalues⟩ := hplain.captures hread htaken
  have hget : ∀ p ∈ placeholders r.template.pathTokens, ∃ a ∈ r.template.arguments, ∃ v,
      a.name = p.1 ∧
      taken.get? p.1 = some v ∧ args.get? p.1 = some v := by
    intro p hp
    obtain ⟨a, ha, hpa⟩ := hread.exists_argument hplain.host hp
    obtain ⟨v, hv, -⟩ := hvalues a ha
    rw [← hpa.name]
    exact ⟨a, ha, v, rfl, hv, (hpath a ha).trans hv⟩
  constructor
  · intro hmark
    refine hplain.mark_not_mem_renderPath fun p hp => ?_
    obtain ⟨a, -, v, -, hv, hargs⟩ := hget p hp
    refine ⟨v, hargs, fun hmem => hmark ?_⟩
    rw [hwritten]
    exact List.mem_append_left _ (mem_written hp hv hmem)
  · intro hsafe
    have hrender : r.template.renderPath args = written taken.get? r.template.pathTokens := by
      rw [renderPath_eq_written]
      · refine written_congr fun p hp => ?_
        obtain ⟨a, -, v, -, hv, hargs⟩ := hget p hp
        rw [hv, hargs]
      · intro p hp
        obtain ⟨a, ha, v, hname, -, hargs⟩ := hget p hp
        exact ⟨v, hargs, hsafe a ha v (hname ▸ hargs)⟩
    rw [hrender, hwritten]
    rcases he with rfl | ⟨hending, rfl⟩
    · exact .inl (List.append_nil _)
    · exact .inr ⟨hending, rfl⟩

/-- The route has a use for all that it gave to a request. -/
theorem IsCompiled.leftOver_of_served : r.leftOver (args.map .single) = [] := by
  obtain ⟨taken, -, -, -, hother⟩ := hr.served_get? hplain hstatic h
  have hused : ∀ e ∈ (args.map ArgValue.single).entries, r.uses e.1 = true := by
    intro e he
    obtain ⟨v, hv, -⟩ : ∃ v, args.get? e.1 = some v ∧ ArgValue.single v = e.2 := by
      simpa using TextMap.mem_entries.mp he
    rw [uses, Bool.or_eq_true]
    by_cases hargument : e.1 ∈ r.template.arguments.map (·.name)
    · exact .inl (any_name_iff.mpr hargument)
    · rw [hother e.1 hargument] at hv
      exact .inr (Option.isSome_iff_exists.mpr ⟨v, hv⟩)
  rw [leftOver, List.filter_eq_nil_iff.mpr, List.flatMap_nil]
  intro e he
  simp [hused e he]

variable (hnames : NamesNone r.template.arguments (tokenize r.action))
include hnames

theorem IsCompiled.satisfied_of_served (groups : Captures) :
    r.SatisfiedBy groups (args.map .single) none := by
  obtain ⟨text, hread⟩ := hr.readFrom
  obtain ⟨taken, htaken, hpath, hstatics, -⟩ := hr.served_get? hplain hstatic h
  have hvalues := (hplain.captures hread htaken).2
  refine ⟨fun a ha => ?_, fun name v hv hname => ?_, fun v hv => ?_⟩
  · obtain ⟨v, hv, haccepts⟩ := hvalues a ha
    refine .inl ⟨v, ?_, .inr haccepts⟩
    rw [hr.given_eq hnames, hpath a ha, hv]
    rfl
  · have hother := (hstatic name (Option.isSome_iff_exists.mpr ⟨v, hv⟩)).2
    rw [entered_of_not_mem hother, hr.given_eq hnames, hstatics name v hv]
    rfl
  · exact absurd rfl (hstatic formatArg (Option.isSome_iff_exists.mpr ⟨v, hv⟩)).1

theorem IsCompiled.renderPath_of_served (groups : Captures) :
    r.template.renderPath (r.boundArgs groups (args.map .single)) = r.template.renderPath args := by
  obtain ⟨text, hread⟩ := hr.readFrom
  obtain ⟨taken, htaken, hpath, -⟩ := hr.served_get? hplain hstatic h
  refine renderPath_congr fun p hp => ?_
  obtain ⟨a, ha, hpa⟩ := hread.exists_argument hplain.host hp
  obtain ⟨v, hv, -⟩ := (hplain.captures hread htaken).2 a ha
  have hget : args.get? p.1 = some v := by rw [← hpa.name, hpath a ha, hv]
  rw [hget, get?_boundArgs hr.nodup_names, ← hpa.name, hr.given_eq hnames, hpa.name, hget]
  exact ⟨hpa.name ▸ List.mem_map_of_mem ha, rfl⟩

end Served

end Route

/-- Resolving the action of a route with the arguments that a request gave to it succeeds, whatever
the request. The URL is the path alone, nothing is left for a query. When the values stand for
themselves in a URL, it is the path of the request, or that path without a slash at its end that the
template lets be left out. -/
theorem RouteTable.resolve_served {r : Route} (hr : r.IsCompiled) (hplain : r.template.PlainPath)
    (hnames : NamesNone r.template.arguments (tokenize r.action)) (hstatic : r.StaticApart)
    {q : Query} {args : TextMap Text} (h : r.argsFor? q = some args) {t : RouteTable}
    (ht : t.routes = [r]) :
    ∃ d, t.resolve r.action (args.map .single) none = .ok d ∧
      r.leftOver (args.map .single) = [] ∧ d.url = r.template.renderPath args ∧
      ('?' ∉ q.path → '?' ∉ d.url) ∧
      ((∀ a ∈ r.template.arguments, ∀ v,
        args.get? a.name = some v → ∀ c ∈ v, Url.isFormSafe c = true) →
        q.path = d.url ∨ optionalSlash <:+ r.path ∧ q.path = d.url ++ ['/']) := by
  obtain ⟨-, groups, hgroups⟩ := hr.captures_action hnames
  have hsatisfied :
      r.SatisfiedBy groups (args.map .single) ((none : Option Request).bind (·.format)) :=
    hr.satisfied_of_served hplain hstatic h hnames groups
  obtain ⟨working, hworking, hurl⟩ := Route.urlFor?_of_satisfied hr.nodup_names hgroups hsatisfied
  obtain ⟨d, -, hdurl, -, -, -, htable, hd⟩ := resolveWith?_of_urlFor? t hurl
  have hleft := hr.leftOver_of_served hplain hstatic h
  have hpath : d.url = r.template.renderPath args := by
    rw [hdurl, hr.queryPairs_eq_leftOver hworking, hleft]
    exact hr.renderPath_of_served hplain hstatic h hnames groups
  have hroutes : t.routes = [] ++ r :: [] := ht
  have hresolve : t.resolve r.action (args.map .single) none = .ok { d with table := t } :=
    resolve_of_resolveWith? hroutes (hd t) (by simp)
  obtain ⟨hmark, hsafe⟩ := hr.path_of_served hplain hstatic h
  refine ⟨d, ?_, hleft, hpath, ?_, ?_⟩
  · rw [hresolve, ← htable]
  · rwa [hpath]
  · rwa [hpath]

/-- A path with a slash at its end, which the URL of its route does not have. -/
theorem RouteTable.resolve_served_slash :
    ∃ r d, Route.compile
        { method := "GET".toList, path := "/users/{<[0-9]+>id}/?".toList,
          action := "show".toList } = .ok r ∧
      resolve { routes := [r] } "show".toList (.ofList [("id".toList, .single "7".toList)]) none =
        .ok d ∧
      "/users/7/".toList = d.url ++ ['/'] := by
  have hserves : Route.compilesTo
      { method := "GET".toList, path := "/users/{<[0-9]+>id}/?".toList,
        action := "show".toList } (fun r =>
        decide (r.template.PlainPath ∧ NamesNone r.template.arguments (tokenize r.action) ∧
          r.StaticApart ∧ r.action = "show".toList ∧
          r.template.renderPath (.ofList [("id".toList, "7".toList)]) = "/users/7".toList ∧
          r.argsFor? ⟨"GET".toList, "/users/7/".toList, none, none⟩ =
            some (.ofList [("id".toList, "7".toList)]))) = true := by decide +kernel
  obtain ⟨r, hr, hchecked⟩ := Route.exists_of_compilesTo hserves
  obtain ⟨hplain, hnames, hstatic, haction, hrender, hargs⟩ := of_decide_eq_true hchecked
  have hroutes : RouteTable.routes { routes := [r] } = [r] := rfl
  obtain ⟨d, hd, -, hurl, -⟩ := resolve_served ⟨_, hr⟩ hplain hnames hstatic hargs hroutes
  rw [haction] at hd
  refine ⟨r, d, hr, hd, ?_⟩
  rw [hurl, hrender]
  rfl

end Signpost
