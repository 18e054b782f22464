import Signpost.Proofs.Router.Refining
import Signpost.Proofs.Table.WrittenUrl
import Signpost.Proofs.Template.PlainPath

/-!
Making a URL absolute. What resolving an action gives, and what adding and removing arguments and
adding fragments leave of it, is a reference that goes below an address. So making it absolute
always puts the address in front, and does so once. Main statement: `RouteTable.absolute_finishes`.
-/

namespace Signpost

namespace Request

theorem schemeText_prefix_baseUrl (c : Request) : schemeText c.secure <+: c.baseUrl := by
  unfold baseUrl
  dsimp only
  split
  · split_ifs
    · exact List.prefix_append _ _
    · exact (List.prefix_append _ _).trans (List.prefix_append _ _)
  · exact List.prefix_append _ _

end Request

/-- The text starts with a scheme. -/
def Url.IsAbsolute (t : Text) : Prop :=
  ∃ secure, Request.schemeText secure <+: t

theorem Url.IsAbsolute.isPrefixOf {t : Text} (h : IsAbsolute t) :
    "http".toList.isPrefixOf t = true := by
  obtain ⟨secure, hscheme⟩ := h
  have hhttp : "http".toList <+: Request.schemeText secure := by cases secure <;> decide
  exact List.isPrefixOf_iff_prefix.mpr (hhttp.trans hscheme)

theorem Url.IsRelative.isPrefixOf {t : Text} (h : IsRelative t) :
    "http".toList.isPrefixOf t = false := by
  cases t with
  | nil => rfl
  | cons c t =>
    rcases h c rfl with rfl | rfl | rfl <;> rfl

/-- The refinement leaves the scheme alone: it adds or removes an argument, or adds a fragment. -/
def Refinement.StaysBelow : Refinement → Prop
  | absolute _ | secure _ => False
  | _ => True

namespace Resolution

variable {d d' : Resolution} {t : RouteTable} {action : Text} {args : Args}
  {current : Option Request}

/-- The address that the URL goes below: that of the host of the route, or else that of the current
request. -/
def address (d : Resolution) (current : Request) : Text :=
  if d.host = [] then current.baseUrl else Request.schemeText current.secure ++ d.host

theorem schemeText_prefix_address (d : Resolution) (current : Request) :
    Request.schemeText current.secure <+: d.address current := by
  unfold address
  split_ifs
  · exact current.schemeText_prefix_baseUrl
  · exact List.prefix_append _ _

theorem isAbsolute_address (d : Resolution) (current : Request) (t : Text) :
    Url.IsAbsolute (d.address current ++ t) :=
  ⟨current.secure, (d.schemeText_prefix_address current).trans (List.prefix_append _ t)⟩

theorem absolute_of_isRelative (h : Url.IsRelative d.url) (current : Request) :
    d.absolute current = { d with url := d.address current ++ d.url } := by
  rw [absolute, h.isPrefixOf, if_neg Bool.false_ne_true, address]
  split_ifs <;> rfl

theorem absolute_of_isAbsolute (h : Url.IsAbsolute d.url) (current : Request) :
    d.absolute current = d :=
  if_pos h.isPrefixOf

/-- The resolution is against compiled routes, and its URL goes below an address. -/
structure Below (d : Resolution) : Prop where
  table : d.table.IsCompiled
  url : Url.IsRelative d.url

theorem Below.of_resolve (ht : t.IsCompiled)
    (hd : t.resolve action args current = .ok d) : d.Below :=
  ⟨(RouteTable.concerns_of_resolve hd).table ▸ ht, ht.isRelative_url hd⟩

theorem Below.addFragment (h : d.Below) (fragment : Text) : (d.addFragment fragment).Below :=
  ⟨h.table, h.url.append (Url.isRelative_cons (.inr (.inr rfl)) fragment)⟩

theorem Below.refined (h : d.Below) {refinement : Refinement} (hstays : refinement.StaysBelow)
    (hd' : refinement.apply d = .ok d') : d'.Below := by
  cases refinement with
  | add name value c => exact .of_resolve h.table hd'
  | remove name c => exact .of_resolve h.table hd'
  | addFragment fragment =>
    obtain rfl := Except.ok.inj hd'
    exact h.addFragment fragment
  | absolute c => exact hstays.elim
  | secure c => exact hstays.elim

/-- A fragment may be added before or after the address. -/
theorem Below.absolute_addFragment (h : d.Below) (current : Request) (fragment : Text) :
    (d.absolute current).addFragment fragment = (d.addFragment fragment).absolute current := by
  rw [absolute_of_isRelative h.url, absolute_of_isRelative (h.addFragment fragment).url,
    Resolution.addFragment, Resolution.addFragment, List.append_assoc]
  rfl

end Resolution

namespace RouteTable

variable {t : RouteTable} {action : Text} {args : Args} {current : Option Request}

/-- When the first route that can stand for an action is for any host, the whole address of the
action is its URL made absolute. -/
theorem IsCompiled.fullUrl_eq (ht : t.IsCompiled) {current : Request} {i : Nat} {r : Route}
    (hfirst : FirstSatisfiable action args (some current) t.routes i r) (hhost : r.host = []) :
    ∃ d, (t.reverse action args (some current)).answer = .ok d ∧
      (t.fullUrl action args current).answer = .ok (d.absolute current).url := by
  obtain ⟨groups, hgroups, -⟩ := hfirst.satisfiable
  obtain ⟨d, hd, hwritten⟩ := ht.exists_writtenBy hfirst hgroups
  obtain ⟨text, hread⟩ := (ht r (List.mem_of_getElem? hfirst.route)).readFrom
  have hnone : d.host = [] := hwritten.host.trans (hread.renderHost_of_raw_nil hhost _)
  refine ⟨d, hd, ?_⟩
  have hanswer : (t.fullUrl action args current).answer = .ok (current.baseUrl ++ d.url) := by
    show (t.resolve action args (some current)).map (fun d => current.baseUrl ++ d.url) = _
    rw [hd]
    rfl
  rw [hanswer, Resolution.absolute_of_isRelative (ht.isRelative_url hd), Resolution.address,
    if_pos hnone]

/-- Making a URL absolute finishes it. An action is resolved with a router; then arguments are added
and removed and fragments added, while the router goes on. The URL is then empty or starts with a
slash, a question mark or a number sign. So making it absolute always puts the address in front,
that of the current request or of the host of the route, whatever the current request is; doing it
again changes nothing, and a fragment may be added before or after. For a route on any host the
whole address of an action is its URL made absolute. -/
theorem absolute_finishes (ht : t.IsCompiled) {d : Resolution}
    (hd : (t.reverse action args current).answer = .ok d) {moves : List Move} {s : Session}
    (hrun : Session.run ⟨t, d⟩ moves = .ok s)
    (hmoves : ∀ refinement, .refine refinement ∈ moves → refinement.StaysBelow) :
    Url.IsRelative s.resolution.url ∧
    (∀ c : Request, s.resolution.absolute c = { s.resolution with
      url :=
        (if s.resolution.host = [] then c.baseUrl
          else Request.schemeText c.secure ++ s.resolution.host) ++
        s.resolution.url }) ∧
    (∀ c c' : Request, (s.resolution.absolute c).absolute c' = s.resolution.absolute c) ∧
    (∀ (c : Request) fragment,
      (s.resolution.absolute c).addFragment fragment =
        (s.resolution.addFragment fragment).absolute c) ∧
    ∀ asked given (c : Request) i r,
      FirstSatisfiable asked given (some c) t.routes i r → r.host = [] →
      ∃ found, (t.reverse asked given (some c)).answer = .ok found ∧
        (t.fullUrl asked given c).answer = .ok (found.absolute c).url := by
  have hresolved : t.resolve action args current = .ok d := hd
  have hbelow : s.resolution.Below :=
    Session.run_keeps (fun d d' refinement hbelow hstays hd' => hbelow.refined hstays hd') hmoves
      (Resolution.Below.of_resolve ht hresolved) hrun
  have habsolute := Resolution.absolute_of_isRelative hbelow.url
  refine ⟨hbelow.url, habsolute, fun c c' => ?_, hbelow.absolute_addFragment,
    fun asked given c i r hfirst hhost => ht.fullUrl_eq hfirst hhost⟩
  refine Resolution.absolute_of_isAbsolute ?_ c'
  rw [habsolute]
  exact s.resolution.isAbsolute_address c _

/-- An argument and a fragment are added to a URL that is then made absolute for a secure
request. -/
theorem absolute_finishes_fragment :
    ∃ r d s, Route.compile
        { method := "GET".toList, path := "/docs".toList, action := "docs".toList } = .ok r ∧
      (reverse { routes := [r] } "docs".toList ∅ none).answer = .ok d ∧
      Session.run ⟨{ routes := [r] }, d⟩ [.refine (.add "page".toList (.single "2".toList) none),
        .command .clear, .refine (.addFragment "http".toList)] = .ok s ∧
      s.resolution.url = "/docs?page=2#http".toList ∧ s.resolution.host = [] ∧
      (s.resolution.absolute { host := "example.com".toList, secure := true }).url =
        "https://example.com/docs?page=2#http".toList := by
  have hchecked : Route.compilesTo
      { method := "GET".toList, path := "/docs".toList, action := "docs".toList } (fun r =>
        (reverse { routes := [r] } "docs".toList ∅ none).answer.toOption.any fun d =>
          (Session.run ⟨{ routes := [r] }, d⟩
            [.refine (.add "page".toList (.single "2".toList) none), .command .clear,
            .refine (.addFragment "http".toList)]).toOption.any fun s =>
              decide (s.resolution.url = "/docs?page=2#http".toList ∧
                s.resolution.host = [])) = true := by
    decide +kernel
  obtain ⟨r, hr, hrest⟩ := Route.exists_of_compilesTo hchecked
  obtain ⟨d, hd, hrest⟩ := Except.exists_of_any hrest
  obtain ⟨s, hs, hfacts⟩ := Except.exists_of_any hrest
  obtain ⟨hurl, hhost⟩ := of_decide_eq_true hfacts
  have ht : IsCompiled { routes := [r] } := .singleton hr
  obtain ⟨-, habsolute, -⟩ := absolute_finishes ht hd hs (by simp [Refinement.StaysBelow])
  refine ⟨r, d, s, hr, hd, hs, hurl, hhost, ?_⟩
  rw [habsolute, if_pos hhost, hurl]
  rfl

end RouteTable

end Signpost
