import Signpost.Proofs.Route.Serving
import Signpost.Proofs.Table.Dispatch
import Signpost.Proofs.Table.WrittenUrl
import Signpost.Proofs.Template.Segments

/-!
From an action to its URL and back. A request that follows the URL of an action, from where the
application is mounted, is served, by the route that gave the URL if not by one before it, and that
route gives the values that were bound. Main statement: `RouteTable.dispatch_resolved`.
-/

namespace Signpost

open CompiledTemplate

/-- The current request names a mount point that starts with a slash and holds no question mark, if
any, and nothing below it. -/
structure Request.PlainMount (c : Request) : Prop where
  servlet : c.servletPath = [] ∨ c.servletPath = ['/']
  context : c.contextPath = [] ∨ ∃ rest, c.contextPath = '/' :: rest
  mark : '?' ∉ c.contextPath

def mountOf (current : Option Request) : Text :=
  (current.map (·.contextPath)).getD []

/-- The request asks for the path of a resolved action, with its method and from the mount point of
the current request, and for nothing in particular otherwise. -/
structure Request.Follows (request : Request) (d : Resolution)
    (current : Option Request) : Prop where
  method : request.method = d.method
  path : request.path = d.url.takeWhile (· ≠ '?')
  contextPath : request.contextPath = mountOf current
  query : request.query = []
  format : request.format = none
  host : request.host = none

namespace Route

theorem mountedPath_eq {r : Route} {current : Option Request} (hmount : ∀ c ∈ current, c.PlainMount)
    (bound : TextMap Text) :
    r.mountedPath bound current = mountPoint (mountOf current) ++ r.template.renderPath bound := by
  cases current with
  | none => rfl
  | some c =>
    have hservlet : mountPoint c.servletPath = [] := by
      rcases (hmount c rfl).servlet with h | h <;> rw [h] <;> rfl
    show mountPoint c.contextPath ++ (mountPoint c.servletPath ++ r.template.renderPath bound) = _
    rw [hservlet]
    rfl

theorem mountPoint_cases {context : Text} (h : context = [] ∨ ∃ rest, context = '/' :: rest) :
    (context = [] ∨ context = ['/']) ∧ mountPoint context = [] ∨
      ¬(context = [] ∨ context = ['/']) ∧ mountPoint context = context := by
  rcases h with rfl | ⟨rest, rfl⟩
  · exact .inl ⟨.inl rfl, rfl⟩
  · cases rest with
    | nil => exact .inl ⟨.inr rfl, rfl⟩
    | cons c rest => exact .inr ⟨by simp, rfl⟩

theorem mountPoint_plain {current : Option Request} (hmount : ∀ c ∈ current, c.PlainMount) :
    '?' ∉ mountPoint (mountOf current) ∧
      ∀ (request : Request) (path : Text), request.contextPath = mountOf current →
        request.path = mountPoint (mountOf current) ++ path → request.routingPath = path := by
  have hplain : (mountOf current = [] ∨ ∃ rest, mountOf current = '/' :: rest) ∧
      '?' ∉ mountOf current := by
    cases current with
    | none => exact ⟨.inl rfl, List.not_mem_nil⟩
    | some c => exact ⟨(hmount c rfl).context, (hmount c rfl).mark⟩
  rcases mountPoint_cases hplain.1 with ⟨hroot, hpoint⟩ | ⟨hbelow, hpoint⟩
  · rw [hpoint]
    refine ⟨List.not_mem_nil, fun request path hcontext hpath => ?_⟩
    rw [Request.routingPath, hcontext, if_pos hroot, hpath, List.nil_append]
  · rw [hpoint]
    refine ⟨hplain.2, fun request path hcontext hpath => ?_⟩
    have hstrip : Text.stripStart? (mountOf current) (mountOf current ++ path) = some path :=
      Text.stripStart?_eq_some.mpr rfl
    rw [Request.routingPath, hcontext, if_neg hbelow, hpath, hstrip, Option.getD_some]

theorem takeWhile_withPairs {path : Text} (hpath : '?' ∉ path) (pairs : List (Text × Text)) :
    (withPairs path pairs).takeWhile (· ≠ '?') = path := by
  cases pairs with
  | nil => exact Text.takeWhile_ne_of_not_mem hpath
  | cons pair pairs =>
    have htext : withPairs path (pair :: pairs) =
        path ++ '?' :: Text.join ['&'] ((pair :: pairs).map pairText) := rfl
    rw [htext, Text.takeWhile_ne_append, Text.takeWhile_ne_of_not_mem hpath]

theorem IsCompiled.bareSegments {r : Route} (hr : r.IsCompiled)
    (h : BareSegments (tokenize r.path)) :
    BareSegments r.template.pathTokens := by
  obtain ⟨text, hread⟩ := hr.readFrom
  rw [hread.pathTokens]
  exact h.dropOptionalSlash

section Resolved

variable {r : Route} (hr : r.IsCompiled) (hplain : r.template.PlainPath)
  (hsegments : BareSegments (tokenize r.path))
  {groups : Captures} {args : Args} {format : Option MediaType}
    (h : r.SatisfiedBy groups args format)
  (hsafe : ∀ name v, (r.boundArgs groups args).get? name = some v →
    ∀ c ∈ v, Url.isFormSafe c = true)
include hr hplain h hsafe

/-- Values that stand for themselves in a URL are not deferred, so the constraints accept them. -/
theorem IsCompiled.accepts_bound {a : Argument} (ha : a ∈ r.template.arguments) :
    ∃ v, (r.boundArgs groups args).get? a.name = some v ∧ (∀ c ∈ v, Url.isFormSafe c = true) ∧
      a.accepts v = true := by
  obtain ⟨text, hread⟩ := hr.readFrom
  obtain ⟨p, -, hpa⟩ := hread.exists_placeholder hplain.host ha
  rcases h.arguments a ha with ⟨v, hv, hadmitted⟩ | ⟨-, hfallback⟩
  · have hget : (r.boundArgs groups args).get? a.name = some v :=
      (get?_boundArgs hr.nodup_names).mpr
        ⟨List.mem_map_of_mem ha, by rw [Argument.taken, hv, Option.getD_some]⟩
    refine ⟨v, hget, hsafe a.name v hget, hadmitted.resolve_left fun hdeferred => ?_⟩
    have hcolon := hsafe a.name v hget ':' (List.mem_of_head? (eq_of_beq hdeferred))
    exact absurd hcolon (by decide)
  · rw [hpa.required] at hfallback
    cases hfallback

theorem IsCompiled.mark_not_mem_bound : '?' ∉ r.template.renderPath (r.boundArgs groups args) := by
  obtain ⟨text, hread⟩ := hr.readFrom
  refine hplain.mark_not_mem_renderPath fun p hp => ?_
  obtain ⟨a, ha, hpa⟩ := hread.exists_argument hplain.host hp
  obtain ⟨v, hv, hvsafe, -⟩ := hr.accepts_bound hplain h hsafe ha
  exact ⟨v, hpa.name ▸ hv, fun hmark => absurd (hvsafe '?' hmark) (by decide)⟩

include hsegments

/-- The path written for bound values is one that the route serves, and it gives the same values
back. -/
theorem IsCompiled.captures_bound :
    ∃ taken, r.template.pathPattern.captures? (r.template.renderPath (r.boundArgs groups args)) =
      some taken ∧
      ∀ a ∈ r.template.arguments, taken.get? a.name = (r.boundArgs groups args).get? a.name := by
  obtain ⟨text, hread⟩ := hr.readFrom
  have hbare := hr.bareSegments hsegments
  have hpaired : ∀ p ∈ placeholders r.template.pathTokens, ∃ a ∈ r.template.arguments,
      PathArgument p a :=
    fun p hp => hread.exists_argument hplain.host hp
  have hwritten : r.template.renderPath (r.boundArgs groups args) =
      written (r.boundArgs groups args).get? r.template.pathTokens := by
    refine renderPath_eq_written fun p hp => ?_
    obtain ⟨a, ha, hpa⟩ := hpaired p hp
    obtain ⟨v, hv, hvsafe, -⟩ := hr.accepts_bound hplain h hsafe ha
    exact ⟨v, hpa.name ▸ hv, hvsafe⟩
  have hmatch := hplain.isMatch hread fun a ha => by
    obtain ⟨v, hv, -, haccepts⟩ := hr.accepts_bound hplain h hsafe ha
    exact ⟨v, hv, haccepts⟩
  obtain ⟨taken, htaken⟩ := Option.isSome_iff_exists.mp hmatch
  obtain ⟨⟨e, he, hpath⟩, hvalues⟩ := hplain.captures hread htaken
  have hunique := hbare.unique (he.imp_right And.right) (fun p hp => ?_) (fun p hp => ?_) hpath.symm
  · rw [hwritten]
    refine ⟨taken, htaken, fun a ha => ?_⟩
    obtain ⟨p, hp, hpa⟩ := hread.exists_placeholder hplain.host ha
    obtain ⟨v, hv, -⟩ := hvalues a ha
    obtain ⟨w, hw, -⟩ := hr.accepts_bound hplain h hsafe ha
    have hvw := hunique p hp
    rw [← hpa.name, hv, hw, Option.getD_some, Option.getD_some] at hvw
    rw [hv, hw, hvw]
  · obtain ⟨a, ha, hpa⟩ := hpaired p hp
    obtain ⟨v, hv, haccepts⟩ := hvalues a ha
    obtain ⟨-, hpattern, -⟩ := hplain.argument hp hpa
    rw [hbare.constraint_eq p hp] at hpattern
    rw [← hpa.name, hv]
    exact slash_not_mem_of_accepts hpattern haccepts
  · obtain ⟨a, ha, hpa⟩ := hpaired p hp
    obtain ⟨v, hv, hvsafe, -⟩ := hr.accepts_bound hplain h hsafe ha
    rw [← hpa.name, hv]
    exact fun hslash => absurd (hvsafe '/' hslash) (by decide)

theorem IsCompiled.argsFor?_bound (hformat : r.staticArgs.get? formatArg = none) {asked : Text}
    (hmethod : Guard.servesMethod r.method asked = true) :
    r.argsFor? ⟨asked, r.template.renderPath (r.boundArgs groups args), none, none⟩ =
      some ((r.boundArgs groups args).overlay r.staticArgs) := by
  obtain ⟨taken, htaken, hsame⟩ := hr.captures_bound hplain hsegments h hsafe
  have hguard : r.guard.holds ⟨asked, r.template.renderPath (r.boundArgs groups args), none,
      none⟩ = true :=
    hr.guard_holds hplain.host hformat hmethod
  refine argsFor?_eq_some_iff.mpr ⟨hguard, taken, htaken, ?_⟩
  congr 1
  refine TextMap.eq_of_get? fun name => Option.ext fun v => ?_
  rw [get?_takenArgs hr.nodup_names]
  constructor
  · rintro ⟨a, ha, rfl, hv⟩
    rwa [hr.boundValue_eq hplain.host ha, hsame a ha] at hv
  · intro hv
    obtain ⟨hname, -⟩ := (get?_boundArgs hr.nodup_names).mp hv
    obtain ⟨a, ha, rfl⟩ := List.mem_map.mp hname
    exact ⟨a, ha, rfl, by rw [hr.boundValue_eq hplain.host ha, hsame a ha, hv]⟩

end Resolved

end Route

/-- Below the mount point, a request that follows a URL asks for the path that the route has
written. -/
theorem Request.Follows.routingPath {request : Request} {d : Resolution} {current : Option Request}
    (h : request.Follows d current) (hmount : ∀ c ∈ current, c.PlainMount) {r : Route}
    {bound : TextMap Text} {pairs : List (Text × Text)}
    (hurl : d.url = Route.withPairs (r.mountedPath bound current) pairs)
    (hmark : '?' ∉ r.template.renderPath bound) :
    request.routingPath = r.template.renderPath bound := by
  obtain ⟨hmarkMount, hbelow⟩ := Route.mountPoint_plain hmount
  refine hbelow request _ h.contextPath ?_
  rw [h.path, hurl, Route.mountedPath_eq hmount]
  refine Route.takeWhile_withPairs ?_ pairs
  rw [List.mem_append, not_or]
  exact ⟨hmarkMount, hmark⟩

namespace RouteTable

theorem dispatch_of_served {t : RouteTable} {request : Request} {i : Nat} {r : Route}
    {args : TextMap Text} (hroute : t.routes[i]? = some r)
    (hargs : r.argsFor? (request.queryAs request.withOverride.method) = some args) :
    ∃ j ≤ i, ∃ s, t.routes[j]? = some s ∧ (t.dispatch request).1 = .ok s := by
  cases hfirst : firstServing (request.queryAs request.withOverride.method) t.routes with
  | none =>
    rw [firstServing_eq_none_iff.mp hfirst r (List.mem_of_getElem? hroute)] at hargs
    cases hargs
  | some served =>
    obtain ⟨s, sargs⟩ := served
    obtain ⟨j, hj⟩ := firstServing_eq_some_iff.mp hfirst
    refine ⟨j, ?_, s, hj.route, by rw [dispatch_served hj]⟩
    by_contra hlt
    rw [hj.first i (Nat.lt_of_not_le hlt) r hroute] at hargs
    cases hargs

/-- Following the URL of a resolved action always ends at a route, at the one that gave the URL or
at one before it, when the path of the route is plain and every value bound stands for itself in a
URL. On the path of the URL below the mount point the route gives the values that were bound, under
its static arguments. -/
theorem dispatch_resolved {t : RouteTable} (ht : t.IsCompiled) {action : Text} {args : Args}
    {current : Option Request} {d : Resolution} (hd : t.resolve action args current = .ok d)
    {i : Nat} {r : Route} (hfirst : FirstSatisfiable action args current t.routes i r)
    (hhost : r.host = []) (hformat : r.staticArgs.get? Route.formatArg = none)
    (hliterals : PlainLiterals r.template.pathTokens) (hsegments : BareSegments (tokenize r.path))
    {groups : Captures} (hgroups : r.template.actionPattern.captures? action = some groups)
    (hsafe : ∀ name v, (r.boundArgs groups args).get? name = some v →
      ∀ c ∈ v, Url.isFormSafe c = true)
    (hmount : ∀ c ∈ current, c.PlainMount) {request : Request}
    (hrequest : request.Follows d current) :
    (∃ j ≤ i, ∃ s, t.routes[j]? = some s ∧ (t.dispatch request).1 = .ok s) ∧
      r.argsFor? ⟨d.method, request.routingPath, none, none⟩ =
        some ((r.boundArgs groups args).overlay r.staticArgs) := by
  have hr : r.IsCompiled := ht r (List.mem_of_getElem? hfirst.route)
  have hplain : r.template.PlainPath := by
    refine ⟨hhost, hliterals, fun p hp => ?_⟩
    rw [(hr.bareSegments hsegments).constraint_eq p hp]
    exact freeConstraint_path
  have hwritten : d.WrittenBy r groups args current := ht.writtenBy hfirst hgroups hd
  have hrouting : request.routingPath = r.template.renderPath (r.boundArgs groups args) :=
    hrequest.routingPath hmount hwritten.url (hr.mark_not_mem_bound hplain hwritten.satisfied hsafe)
  have hmethod : Guard.servesMethod r.method d.method = true := by
    rw [hwritten.method]
    exact Guard.servesMethod_self r.method
  have hargs := hr.argsFor?_bound hplain hsegments hwritten.satisfied hsafe hformat hmethod
  have hserved : r.argsFor? (request.queryAs request.withOverride.method) =
      some ((r.boundArgs groups args).overlay r.staticArgs) := by
    rw [Request.queryAs, Request.withOverride_method, hrequest.query, hrouting, hrequest.format,
      hrequest.host, ← hargs, ← hrequest.method]
    rfl
  refine ⟨dispatch_of_served hfirst.route hserved, ?_⟩
  rw [hrouting]
  exact hargs

/-- An application mounted below a path, and a template that lets a slash be left out. -/
theorem dispatch_resolved_mounted :
    ∃ r d, Route.compile { method := "get".toList, path := "/users/{id}/?".toList,
                           action := "show".toList } = .ok r ∧
      resolve { routes := [r] } "show".toList (.ofList [("id".toList, .single "7".toList)])
        (some { contextPath := "/app".toList }) = .ok d ∧
      d.url = "/app/users/7".toList ∧
      (dispatch { routes := [r] }
        { method := "GET".toList, path := "/app/users/7".toList,
          contextPath := "/app".toList }).1 = .ok r := by
  have hchecked : Route.compilesTo
      { method := "get".toList, path := "/users/{id}/?".toList, action := "show".toList } (fun r =>
        (r.template.actionPattern.captures? "show".toList).any fun groups =>
          decide (r.host = [] ∧ r.staticArgs.get? Route.formatArg = none ∧
            PlainLiterals r.template.pathTokens ∧ BareSegments (tokenize r.path) ∧
            ((r.boundArgs groups (.ofList [("id".toList, .single "7".toList)])).entries.all fun e =>
              e.2.all Url.isFormSafe) = true ∧
            r.method = "GET".toList ∧
            r.urlFor? "show".toList (.ofList [("id".toList, .single "7".toList)])
              (some { contextPath := "/app".toList }) =
                some ([], "/app/users/7".toList))) = true := by
    decide +kernel
  obtain ⟨r, hr, hchecked⟩ := Route.exists_of_compilesTo hchecked
  obtain ⟨groups, hgroups, hchecked⟩ := (Option.any_eq_true _ _).mp hchecked
  obtain ⟨hhost, hformat, hliterals, hsegments, hsafe, hmethod, hurl⟩ := of_decide_eq_true hchecked
  have ht : IsCompiled { routes := [r] } := .singleton hr
  have hsatisfiable :=
    (ht.isSome_urlFor? List.mem_cons_self).mp (Option.isSome_iff_exists.mpr ⟨_, hurl⟩)
  obtain ⟨d, -, hdurl, hdmethod, -, -, -, hgives⟩ := resolveWith?_of_urlFor? { routes := [r] } hurl
  have hroutes : [r] = [] ++ r :: [] := rfl
  have hd := resolve_of_resolveWith? hroutes (hgives { routes := [r] }) (by simp)
  have hmount : ∀ c ∈ some { contextPath := "/app".toList : Request }, c.PlainMount := by
    intro c hc
    obtain rfl := Option.some.inj hc
    exact ⟨.inl rfl, .inr ⟨_, rfl⟩, by decide⟩
  have hfollows : Request.Follows
      { method := "GET".toList, path := "/app/users/7".toList, contextPath := "/app".toList }
      { d with table := { routes := [r] } } (some { contextPath := "/app".toList }) :=
    ⟨by rw [hdmethod, hmethod]; rfl, by rw [hdurl]; rfl, rfl, rfl, rfl, rfl⟩
  obtain ⟨⟨j, hj, s, hs, hdispatch⟩, -⟩ := dispatch_resolved ht hd
    ⟨rfl, hsatisfiable, fun j hj =>
      absurd hj (Nat.not_lt_zero j)⟩ hhost hformat hliterals hsegments hgroups
    (fun name v hv =>
      List.all_eq_true.mp (List.all_eq_true.mp hsafe (name, v) (TextMap.mem_entries.mpr hv)))
    hmount hfollows
  obtain rfl := Nat.le_zero.mp hj
  obtain rfl := Option.some.inj hs
  exact ⟨_, _, hr, hd, hdurl, hdispatch⟩

end RouteTable

end Signpost
