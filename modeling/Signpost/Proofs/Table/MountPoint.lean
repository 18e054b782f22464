import Signpost.Proofs.Route.Serving
import Signpost.Proofs.Route.Writing
import Signpost.Proofs.Table.Dispatch

/-!
Where the routes look for a request below a mount point. The mount point is removed from the front
of the path, and a path that does not start with it is matched as it is. That is what mounting means
as long as the mount point ends where a segment of the path ends. When it ends inside a segment, as
in a path next to it with a longer name, the rest of that segment is matched, which no template with
plain literal text is for. Main statement: `RouteTable.dispatch_mounted`.
-/

namespace Signpost

/-- An application can be mounted at the path: it starts with a slash and does not end in one. -/
def IsMountPoint (mount : Text) : Prop :=
  mount.head? = some '/' ∧ mount.getLast? ≠ some '/'

instance (mount : Text) : Decidable (IsMountPoint mount) :=
  inferInstanceAs (Decidable (_ ∧ _))

/-- The path is the mount point, or the mount point with a slash and whatever follows. -/
def LiesBelow (mount path : Text) : Prop :=
  path = mount ∨ mount ++ ['/'] <+: path

instance (mount path : Text) : Decidable (LiesBelow mount path) :=
  inferInstanceAs (Decidable (_ ∨ _))

/-- The path starts with the text of the mount point and goes on in the same segment. -/
def CutsSegment (mount path : Text) : Prop :=
  ∃ c rest, path = mount ++ c :: rest ∧ c ≠ '/'

variable {mount path : Text}

theorem liesBelow_append_iff {rest : Text} :
    LiesBelow mount (mount ++ rest) ↔ rest = [] ∨ ['/'] <+: rest := by
  unfold LiesBelow
  rw [List.append_right_eq_self, List.prefix_append_right_inj]

theorem cutsSegment_append_iff {rest : Text} :
    CutsSegment mount (mount ++ rest) ↔ ¬(rest = [] ∨ ['/'] <+: rest) := by
  cases rest with
  | nil =>
    refine iff_of_false ?_ fun h => h (.inl rfl)
    rintro ⟨c, rest, heq, -⟩
    cases List.append_cancel_left heq
  | cons c rest =>
    constructor
    · rintro ⟨d, more, heq, hd⟩ (hnil | hslash)
      · cases hnil
      · obtain ⟨rfl, -⟩ := List.cons.inj (List.append_cancel_left heq)
        exact hd (List.cons_prefix_cons.mp hslash).1.symm
    · intro h
      refine ⟨c, rest, rfl, ?_⟩
      rintro rfl
      exact h (.inr (List.cons_prefix_cons.mpr ⟨rfl, List.nil_prefix⟩))

/-- A path starts with the mount point just when it lies below it or the mount point cuts a segment
of it, and not both. -/
theorem prefix_iff_liesBelow_or_cutsSegment :
    mount <+: path ↔ LiesBelow mount path ∨ CutsSegment mount path := by
  constructor
  · rintro ⟨rest, rfl⟩
    rw [liesBelow_append_iff, cutsSegment_append_iff]
    exact em _
  · rintro ((rfl | hslash) | ⟨c, rest, rfl, -⟩)
    · exact List.prefix_refl _
    · exact (List.prefix_append mount ['/']).trans hslash
    · exact List.prefix_append _ _

theorem CutsSegment.not_liesBelow (h : CutsSegment mount path) : ¬LiesBelow mount path := by
  obtain ⟨rest, rfl⟩ := prefix_iff_liesBelow_or_cutsSegment.mpr (.inr h)
  rw [liesBelow_append_iff]
  exact cutsSegment_append_iff.mp h

namespace Request

variable {request : Request}

theorem routingPath_of_prefix (hmount : IsMountPoint request.contextPath) {rest : Text}
    (h : request.path = request.contextPath ++ rest) : request.routingPath = rest := by
  have hmounted : ¬(request.contextPath = [] ∨ request.contextPath = ['/']) := by
    rintro (hnil | hroot)
    · rw [hnil] at hmount
      cases hmount.1
    · rw [hroot] at hmount
      exact hmount.2 rfl
  rw [routingPath, if_neg hmounted, Text.stripStart?_eq_some.mpr h, Option.getD_some]

theorem routingPath_of_not_prefix (h : ¬request.contextPath <+: request.path) :
    request.routingPath = request.path := by
  have hstrip : Text.stripStart? request.contextPath request.path = none := by
    rw [Option.eq_none_iff_forall_ne_some]
    intro rest hrest
    exact h ⟨rest, (Text.stripStart?_eq_some.mp hrest).symm⟩
  rw [routingPath, hstrip, Option.getD_none, ite_self]

end Request

/-- A path that a template with plain literal text matches is empty or starts with a slash. -/
theorem CompiledTemplate.FreePath.start_of_captures {template action : Text} {c : CompiledTemplate}
    (hfree : c.FreePath) (h : c.ReadFrom template action) {taken : Captures}
    (ht : c.pathPattern.captures? path = some taken) :
    path = [] ∨ ['/'] <+: path := by
  obtain ⟨⟨e, he, rfl⟩, -⟩ := hfree.captures h ht
  rcases h.pathTokens_cases with hnone | ⟨t, tokens, htokens⟩
  · rw [hnone]
    rcases he with rfl | ⟨-, rfl⟩
    · exact .inl rfl
    · exact .inr (List.prefix_refl ['/'])
  · rw [htokens]
    exact .inr (List.cons_prefix_cons.mpr ⟨rfl, List.nil_prefix⟩)

namespace RouteTable

/-- Dispatching below a mount point. The routes are matched against the routing path of the request.
Unless the mount point cuts a segment of the path, that is the path without the mount point just
when the path lies below it, and else the whole path. When the mount point cuts a segment, the path
does not lie below it, and still the rest behind the mount point is what the routes are matched
against; no template with plain literal text is for that. -/
theorem dispatch_mounted {t : RouteTable} (ht : t.IsCompiled) (request : Request)
    (hmount : IsMountPoint request.contextPath) :
    t.AnswersFor ⟨request.withOverride.method, request.routingPath, request.format,
      request.host⟩ request ∧
    (¬CutsSegment request.contextPath request.path →
      (request.path = request.contextPath ++ request.routingPath ↔
        LiesBelow request.contextPath request.path) ∧
      (¬LiesBelow request.contextPath request.path → request.routingPath = request.path)) ∧
    (CutsSegment request.contextPath request.path →
      ¬LiesBelow request.contextPath request.path ∧
        request.path = request.contextPath ++ request.routingPath ∧
      request.routingPath ≠ request.path ∧
      ((∀ r ∈ t.routes, r.template.FreePath) →
        ∃ last, Text.eqIgnoreCase last request.withOverride.method = true ∧
        t.dispatch request = (.error (.noRouteFound last request.path),
          { request with method := last }))) := by
  refine ⟨ht.answersFor request, fun hwhole =>
    ⟨⟨fun h => ?_, fun hbelow => ?_⟩, fun hbeside => ?_⟩, fun hcuts => ?_⟩
  · exact (prefix_iff_liesBelow_or_cutsSegment.mp ⟨_, h.symm⟩).resolve_right hwhole
  · obtain ⟨rest, hrest⟩ := prefix_iff_liesBelow_or_cutsSegment.mpr (.inl hbelow)
    rw [Request.routingPath_of_prefix hmount hrest.symm, hrest]
  · refine Request.routingPath_of_not_prefix fun hstarts => ?_
    exact (prefix_iff_liesBelow_or_cutsSegment.mp hstarts).elim hbeside hwhole
  · obtain ⟨rest, hrest⟩ := prefix_iff_liesBelow_or_cutsSegment.mpr (.inr hcuts)
    have hrouting := Request.routingPath_of_prefix hmount hrest.symm
    refine ⟨hcuts.not_liesBelow, by rw [hrouting, hrest], fun hsame => ?_, fun hplain =>
      dispatch_missed ht ?_⟩
    · rw [hrouting, ← hrest] at hsame
      have hnil : request.contextPath = [] := List.append_left_eq_self.mp hsame.symm
      rw [hnil] at hmount
      cases hmount.1
    · rw [← hrest, cutsSegment_append_iff, ← hrouting] at hcuts
      intro r hr
      rw [Option.eq_none_iff_forall_ne_some]
      intro args hargs
      obtain ⟨-, taken, htaken, -⟩ := Route.argsFor?_eq_some_iff.mp hargs
      obtain ⟨text, hread⟩ := (ht r hr).readFrom
      exact hcuts ((hplain r hr).start_of_captures hread htaken)

/-- A page below the mount point. -/
theorem dispatch_mounted_page :
    ∃ r args, Route.compile
        { method := "GET".toList, path := "/users/{id}".toList, action := "show".toList } = .ok r ∧
      r.argsFor? ⟨"GET".toList, "/users/7".toList, none, none⟩ = some args ∧
      LiesBelow "/app".toList "/app/users/7".toList ∧
      (dispatch { routes := [r] }
        { method := "GET".toList, path := "/app/users/7".toList,
          contextPath := "/app".toList }).1 = .ok r := by
  have hserves : Route.compilesTo
      { method := "GET".toList, path := "/users/{id}".toList, action := "show".toList } (fun r =>
        (r.argsFor? ⟨"GET".toList, "/users/7".toList, none, none⟩).isSome) = true := by
          decide +kernel
  obtain ⟨r, hr, hsome⟩ := Route.exists_of_compilesTo hserves
  obtain ⟨args, hargs⟩ := Option.isSome_iff_exists.mp hsome
  obtain ⟨hanswers, -⟩ := dispatch_mounted (.singleton hr)
    { method := "GET".toList, path := "/app/users/7".toList,
      contextPath := "/app".toList } (by decide)
  refine ⟨r, args, hr, hargs, by decide, ?_⟩
  rw [hanswers.served 0 r args (.head hargs [])]

/-- A page next to the mount point is not found, though its route serves the whole path. -/
theorem dispatch_mounted_sibling :
    ∃ r, Route.compile
        { method := "GET".toList, path := "/application".toList, action := "home".toList } = .ok r ∧
      IsMountPoint "/app".toList ∧ ¬LiesBelow "/app".toList "/application".toList ∧
      (r.argsFor? ⟨"GET".toList, "/application".toList, none, none⟩).isSome = true ∧
      (dispatch { routes := [r] }
        { method := "GET".toList, path := "/application".toList, contextPath := "/app".toList }).1 =
          .error (.noRouteFound "GET".toList "/application".toList) := by
  have hserves : Route.compilesTo
      { method := "GET".toList, path := "/application".toList, action := "home".toList } (fun r =>
        (r.argsFor? ⟨"GET".toList, "lication".toList, none, none⟩).isNone &&
          (r.argsFor? ⟨"GET".toList, "/application".toList, none, none⟩).isSome) = true := by
          decide +kernel
  obtain ⟨r, hr, hrest⟩ := Route.exists_of_compilesTo hserves
  obtain ⟨hcut, hwhole⟩ := Bool.and_eq_true_iff.mp hrest
  have hmissed : firstServing ⟨"GET".toList, "lication".toList, none, none⟩ [r] = none :=
    firstServing_eq_none_iff.mpr fun s hs =>
      List.mem_singleton.mp hs ▸ Option.isNone_iff_eq_none.mp hcut
  have hdispatch : dispatch { routes := [r] }
      { method := "GET".toList, path := "/application".toList, contextPath := "/app".toList } =
        (.error (.noRouteFound "GET".toList "/application".toList), _) :=
        dispatch_of_none hmissed rfl
  exact ⟨r, hr, by decide, by decide, hwhole, by rw [hdispatch]⟩

end RouteTable

end Signpost
