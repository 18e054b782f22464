import Signpost.Proofs.Router.Finishing
import Signpost.Proofs.Text.Replace

/-!
Making a URL secure. It is made absolute and its scheme is changed, unless some text in it looks
like a scheme: then it is taken for absolute as it is, and every such text is changed with the
scheme. Main statement: `RouteTable.secure_rewrites`.
-/

namespace Signpost

namespace Url

/-- A scheme stands somewhere in the text, be it in a path, a value or a fragment. -/
def MentionsScheme (t : Text) : Prop :=
  ∃ secure, Request.schemeText secure <:+: t

theorem mentionsScheme_iff {t : Text} :
    (Text.holds "http://".toList t || Text.holds "https://".toList t) = true ↔
      MentionsScheme t := by
  rw [Bool.or_eq_true, Text.holds_iff, Text.holds_iff, MentionsScheme, Bool.exists_bool]
  rfl

theorem IsRelative.not_isAbsolute {t : Text} (h : IsRelative t) : ¬IsAbsolute t := by
  intro habsolute
  have hhttp := habsolute.isPrefixOf
  rw [h.isPrefixOf] at hhttp
  cases hhttp

theorem IsAbsolute.append {t : Text} (h : IsAbsolute t) (u : Text) : IsAbsolute (t ++ u) := by
  obtain ⟨secure, hscheme⟩ := h
  exact ⟨secure, hscheme.trans (List.prefix_append t u)⟩

theorem IsAbsolute.mentionsScheme {t : Text} (h : IsAbsolute t) : MentionsScheme t := by
  obtain ⟨secure, hscheme⟩ := h
  exact ⟨secure, hscheme.isInfix⟩

/-- The text with every mention of the plain scheme made one of the secure scheme. -/
def secured (t : Text) : Text :=
  Text.replaceAll "http:".toList "https:".toList t

theorem isAbsolute_https (t : Text) : IsAbsolute ("https://".toList ++ t) :=
  ⟨true, List.prefix_append _ t⟩

theorem secured_scheme (secure : Bool) (t : Text) :
    secured (Request.schemeText secure ++ t) = "https://".toList ++ secured t := by
  cases secure with
  | true =>
    have hscheme : Text.Encloses "https://".toList "http:".toList := by decide
    exact Text.replaceAll_append hscheme
  | false =>
    have hslashes : Text.Encloses "//".toList "http:".toList := by decide
    have hstart : secured ("http:".toList ++ ("//".toList ++ t)) =
        "https:".toList ++ secured ("//".toList ++ t) :=
      Text.replaceAll_start (by decide) _
    exact hstart.trans (congrArg _ (Text.replaceAll_append hslashes))

theorem not_infix_secured (t : Text) : ¬"http:".toList <:+: secured t :=
  Text.not_infix_replaceAll (by decide) (by decide) (by decide) (by decide) t

theorem secured_eq_self_iff {t : Text} : secured t = t ↔ ¬"http:".toList <:+: t := by
  refine ⟨fun h => ?_, Text.replaceAll_of_not_infix⟩
  rw [← h]
  exact not_infix_secured t

@[simp]
theorem secured_secured (t : Text) : secured (secured t) = secured t :=
  secured_eq_self_iff.mpr (not_infix_secured t)

theorem MentionsScheme.secured {t : Text} (h : MentionsScheme t) : MentionsScheme (secured t) := by
  obtain ⟨secure, a, b, rfl⟩ := h
  have happart : Text.Apart a (Request.schemeText secure ++ b) "http:".toList := by
    cases secure with
    | true => exact Text.apart_of_head (by decide) a _
    | false => exact Text.apart_of_head (by decide) a _
  have hsplit : Url.secured (a ++ (Request.schemeText secure ++ b)) =
      Url.secured a ++ Url.secured (Request.schemeText secure ++ b) := happart.replaceAll_append
  refine ⟨true, Url.secured a, Url.secured b, ?_⟩
  rw [List.append_assoc, List.append_assoc, hsplit, secured_scheme]
  rfl

theorem IsRelative.secured {t : Text} (h : IsRelative t) : IsRelative (secured t) := by
  cases t with
  | nil => exact isRelative_nil
  | cons c t =>
    have hc : ¬"http:".toList <+: c :: t := by
      intro hprefix
      have hhead := (List.cons_prefix_cons.mp hprefix).1
      rcases h c rfl with rfl | rfl | rfl <;> cases hhead
    rw [Url.secured, Text.replaceAll_cons hc]
    exact isRelative_cons (h c rfl) _

end Url

namespace Resolution

variable {d d' : Resolution} {t : RouteTable} {action : Text} {args : Args}
  {current : Option Request}

/-- The resolution is against compiled routes, and its URL goes below an address or starts with a
scheme. -/
structure Addressed (d : Resolution) : Prop where
  table : d.table.IsCompiled
  url : Url.IsRelative d.url ∨ Url.IsAbsolute d.url

theorem Below.addressed (h : d.Below) : d.Addressed :=
  ⟨h.table, .inl h.url⟩

theorem Addressed.absolute (h : d.Addressed) (current : Request) :
    (d.absolute current).Addressed ∧ Url.IsAbsolute (d.absolute current).url := by
  rcases h.url with hrelative | habsolute
  · rw [absolute_of_isRelative hrelative]
    have haddress := d.isAbsolute_address current d.url
    exact ⟨⟨h.table, .inr haddress⟩, haddress⟩
  · rw [absolute_of_isAbsolute habsolute]
    exact ⟨h, habsolute⟩

theorem secure_of_mentionsScheme (h : Url.MentionsScheme d.url) (current : Request) :
    d.secure current = { d with url := Url.secured d.url } := by
  unfold secure
  rw [if_pos (Url.mentionsScheme_iff.mpr h)]
  rfl

theorem secure_of_not_mentionsScheme (h : ¬Url.MentionsScheme d.url) (current : Request) :
    d.secure current = { d.absolute current with url := Url.secured (d.absolute current).url } := by
  unfold secure
  rw [if_neg (fun hmentions => h (Url.mentionsScheme_iff.mp hmentions))]
  rfl

theorem absolute_eq_with (d : Resolution) (current : Request) :
    d.absolute current = { d with url := (d.absolute current).url } := by
  unfold absolute
  split_ifs <;> rfl

theorem secure_eq_with (d : Resolution) (current : Request) :
    d.secure current = { d with url := (d.secure current).url } := by
  by_cases h : Url.MentionsScheme d.url
  · rw [secure_of_mentionsScheme h]
  · rw [secure_of_not_mentionsScheme h, absolute_eq_with]

/-- The URL that is made secure: the one at hand if it mentions a scheme, and else the absolute one.
Both mention a scheme. -/
theorem Addressed.secure_url (h : d.Addressed) (current : Request) :
    ∃ url, (d.secure current).url = Url.secured url ∧ Url.MentionsScheme url := by
  by_cases hmentions : Url.MentionsScheme d.url
  · exact ⟨d.url, by rw [secure_of_mentionsScheme hmentions], hmentions⟩
  · refine ⟨(d.absolute current).url, by rw [secure_of_not_mentionsScheme hmentions], ?_⟩
    exact (h.absolute current).2.mentionsScheme

theorem Addressed.secure_secure (h : d.Addressed) (current other : Request) :
    (d.secure current).secure other = d.secure current := by
  obtain ⟨url, hurl, hmentions⟩ := h.secure_url current
  rw [secure_of_mentionsScheme (hurl ▸ hmentions.secured), hurl, Url.secured_secured, ← hurl]

/-- A secure URL starts with the secure scheme, unless a URL below an address was taken for an
absolute one. -/
theorem Addressed.secure_cases (h : d.Addressed) (current : Request) :
    (Url.IsRelative d.url ∧ Url.MentionsScheme d.url) ∧ (d.secure current).url = Url.secured d.url ∨
      ¬(Url.IsRelative d.url ∧ Url.MentionsScheme d.url) ∧
        (d.secure current).url = Url.secured (d.absolute current).url := by
  by_cases hmentions : Url.MentionsScheme d.url
  · rw [secure_of_mentionsScheme hmentions]
    by_cases hrelative : Url.IsRelative d.url
    · exact .inl ⟨⟨hrelative, hmentions⟩, rfl⟩
    · refine .inr ⟨fun hboth => hrelative hboth.1, ?_⟩
      rw [absolute_of_isAbsolute (h.url.resolve_left hrelative)]
  · rw [secure_of_not_mentionsScheme hmentions]
    exact .inr ⟨fun hboth => hmentions hboth.2, rfl⟩

theorem Addressed.secure (h : d.Addressed) (current : Request) : (d.secure current).Addressed := by
  refine ⟨by rw [secure_eq_with]; exact h.table, ?_⟩
  rcases h.secure_cases current with ⟨⟨hrelative, -⟩, hurl⟩ | ⟨-, hurl⟩
  · exact .inl (hurl ▸ hrelative.secured)
  · obtain ⟨secure, rest, hrest⟩ := (h.absolute current).2
    rw [← hrest, Url.secured_scheme] at hurl
    exact .inr (hurl ▸ Url.isAbsolute_https _)

theorem Addressed.refined (h : d.Addressed) {refinement : Refinement}
    (hd' : refinement.apply d = .ok d') :
    d'.Addressed := by
  cases refinement with
  | add name value c => exact (Below.of_resolve h.table hd').addressed
  | remove name c => exact (Below.of_resolve h.table hd').addressed
  | addFragment fragment =>
    obtain rfl := Except.ok.inj hd'
    refine ⟨h.table, h.url.imp (fun hrelative => ?_) fun habsolute => ?_⟩
    · exact hrelative.append (Url.isRelative_cons (.inr (.inr rfl)) fragment)
    · exact habsolute.append ('#' :: fragment)
  | absolute c =>
    obtain rfl := Except.ok.inj hd'
    exact (h.absolute c).1
  | secure c =>
    obtain rfl := Except.ok.inj hd'
    exact h.secure c

/-- The absolute URL is a scheme and a rest, and a URL that went below the address is at its end. -/
theorem Addressed.exists_scheme (h : d.Addressed) (current : Request) :
    ∃ secure rest, (d.absolute current).url = Request.schemeText secure ++ rest ∧
      (Url.IsRelative d.url → d.url <:+ rest) := by
  rcases h.url with hrelative | habsolute
  · obtain ⟨host, hhost⟩ := d.schemeText_prefix_address current
    refine ⟨current.secure, host ++ d.url, ?_, fun _ => List.suffix_append host d.url⟩
    rw [absolute_of_isRelative hrelative, ← hhost, List.append_assoc]
  · obtain ⟨secure, rest, hrest⟩ := id habsolute
    refine ⟨secure, rest, ?_, fun hrelative => absurd habsolute hrelative.not_isAbsolute⟩
    rw [absolute_of_isAbsolute habsolute, hrest]

theorem Addressed.prefix_secure_iff (h : d.Addressed) (current : Request) :
    "https://".toList <+: (d.secure current).url ↔
      (Url.IsRelative d.url → ¬Url.MentionsScheme d.url) := by
  rcases h.secure_cases current with ⟨⟨hrelative, hmentions⟩, hurl⟩ | ⟨hother, hurl⟩
  · refine iff_of_false (fun hprefix => ?_) fun hnone => hnone hrelative hmentions
    rw [hurl] at hprefix
    exact hrelative.secured.not_isAbsolute ⟨true, hprefix⟩
  · obtain ⟨secure, rest, hrest⟩ := (h.absolute current).2
    refine iff_of_true ?_ fun hrelative hmentions => hother ⟨hrelative, hmentions⟩
    rw [hurl, ← hrest, Url.secured_scheme]
    exact List.prefix_append _ _

/-- Only the scheme of the absolute URL is changed just when no other text in it looks like a
scheme. -/
theorem Addressed.secure_eq_iff (h : d.Addressed) {current : Request} {secure : Bool} {rest : Text}
    (hrest : (d.absolute current).url = Request.schemeText secure ++ rest)
    (hend : Url.IsRelative d.url → d.url <:+ rest) :
    (d.secure current).url = "https://".toList ++ rest ↔
      ¬"http:".toList <:+: rest ∧ (Url.IsRelative d.url → ¬"https://".toList <:+: d.url) := by
  rcases h.secure_cases current with ⟨⟨hrelative, hmentions⟩, hurl⟩ | ⟨hother, hurl⟩
  -- Taken for absolute as it was, the URL still goes below an address; and what it mentions breaks
  -- one of the conditions.
  · refine iff_of_false (fun heq => ?_) fun ⟨hplain, hsecure⟩ => ?_
    · have hbelow := hrelative.secured
      rw [← hurl, heq] at hbelow
      exact hbelow.not_isAbsolute (Url.isAbsolute_https rest)
    · obtain ⟨which, hscheme⟩ := hmentions
      cases which with
      | true => exact hsecure hrelative hscheme
      | false =>
        have hhttp : "http:".toList <:+: Request.schemeText false := by decide
        exact hplain (hhttp.trans (hscheme.trans (hend hrelative).isInfix))
  · have hnone : Url.IsRelative d.url → ¬"https://".toList <:+: d.url :=
      fun hrelative hsecure => hother ⟨hrelative, true, hsecure⟩
    rw [hurl, hrest, Url.secured_scheme, List.append_right_inj, Url.secured_eq_self_iff]
    exact (and_iff_left hnone).symm

end Resolution

namespace RouteTable

variable {t : RouteTable} {action : Text} {args : Args} {current : Option Request}

/-- What making a URL secure does to it. An action is resolved with a router and refined in any way,
while the router goes on. Making the URL secure changes nothing but the URL, and doing it again
changes nothing. The URL then starts with the secure scheme, unless it goes below an address and
mentions a scheme in a path, a value or a fragment. It is the absolute URL with only its scheme
changed just when `http:` is nowhere else in that and no URL below an address mentions the secure
scheme. -/
theorem secure_rewrites (ht : t.IsCompiled) {d : Resolution}
    (hd : (t.reverse action args current).answer = .ok d) {moves : List Move} {s : Session}
    (hrun : Session.run ⟨t, d⟩ moves = .ok s) (c : Request) :
    s.resolution.secure c = { s.resolution with url := (s.resolution.secure c).url } ∧
    (∀ c', (s.resolution.secure c).secure c' = s.resolution.secure c) ∧
    ("https://".toList <+: (s.resolution.secure c).url ↔
      (Url.IsRelative s.resolution.url → ¬Url.MentionsScheme s.resolution.url)) ∧
    ∃ secure rest, (s.resolution.absolute c).url = Request.schemeText secure ++ rest ∧
      ((s.resolution.secure c).url = "https://".toList ++ rest ↔
        ¬"http:".toList <:+: rest ∧
          (Url.IsRelative s.resolution.url → ¬"https://".toList <:+: s.resolution.url)) := by
  have hresolved : t.resolve action args current = .ok d := hd
  have haddressed : s.resolution.Addressed :=
    Session.run_keeps (fun d d' refinement haddressed _ hd' =>
      haddressed.refined hd') (fun _ _ => trivial)
      (Resolution.Below.of_resolve ht hresolved).addressed hrun
  obtain ⟨secure, rest, hrest, hend⟩ := haddressed.exists_scheme c
  exact ⟨Resolution.secure_eq_with _ c, haddressed.secure_secure c, haddressed.prefix_secure_iff c,
    secure, rest, hrest, haddressed.secure_eq_iff hrest hend⟩

/-- A URL without other mention of a scheme gets the secure one in place of the plain one. -/
theorem secure_rewrites_page :
    ∃ r d s, Route.compile
        { method := "GET".toList, path := "/docs".toList, action := "docs".toList } = .ok r ∧
      (reverse { routes := [r] } "docs".toList ∅ none).answer = .ok d ∧
      Session.run ⟨{ routes := [r] }, d⟩ [.refine (.add "page".toList (.single "2".toList) none)] =
        .ok s ∧
      (s.resolution.absolute {}).url = "http://localhost/docs?page=2".toList ∧
      (s.resolution.secure {}).url = "https://localhost/docs?page=2".toList := by
  have hchecked : Route.compilesTo
      { method := "GET".toList, path := "/docs".toList, action := "docs".toList } (fun r =>
        (reverse { routes := [r] } "docs".toList ∅ none).answer.toOption.any fun d =>
          (Session.run ⟨{ routes := [r] }, d⟩
            [.refine (.add "page".toList (.single "2".toList) none)]).toOption.any
            fun s => decide (s.resolution.url = "/docs?page=2".toList ∧
              (s.resolution.absolute {}).url = "http://localhost/docs?page=2".toList)) = true := by
    decide +kernel
  obtain ⟨r, hr, hrest⟩ := Route.exists_of_compilesTo hchecked
  obtain ⟨d, hd, hrest⟩ := Except.exists_of_any hrest
  obtain ⟨s, hs, hfacts⟩ := Except.exists_of_any hrest
  obtain ⟨hurl, habsolute⟩ := of_decide_eq_true hfacts
  obtain ⟨-, -, -, secure, rest, hscheme, hsecure⟩ := secure_rewrites (.singleton hr) hd hs {}
  refine ⟨r, d, s, hr, hd, hs, habsolute, ?_⟩
  rw [habsolute] at hscheme
  have hplain : secure = false := by
    cases secure with
    | false => rfl
    | true => simp [Request.schemeText] at hscheme
  obtain rfl : "localhost/docs?page=2".toList = rest := by
    rw [hplain] at hscheme
    exact (List.append_right_inj "http://".toList).mp hscheme
  exact hsecure.mpr ⟨by decide, fun _ => by rw [hurl]; decide⟩

/-- A fragment that looks like a secure or plain address keeps the URL from being made absolute, and
is changed itself; so is a value that is left for the client. -/
theorem secure_alters :
    ∃ r d e, Route.compile
        { method := "GET".toList, path := "/docs".toList, action := "docs".toList } = .ok r ∧
      (reverse { routes := [r] } "docs".toList ∅ none).answer = .ok d ∧
      ((d.addFragment "http://x".toList).absolute {}).url =
        "http://localhost/docs#http://x".toList ∧
      ((d.addFragment "http://x".toList).secure {}).url = "/docs#https://x".toList ∧
      d.add "next".toList (.single ":http:".toList) none = .ok e ∧
      (e.absolute {}).url = "http://localhost/docs?next=:http:".toList ∧
      (e.secure {}).url = "https://localhost/docs?next=:https:".toList := by
  have hchecked : Route.compilesTo
      { method := "GET".toList, path := "/docs".toList, action := "docs".toList } (fun r =>
        (reverse { routes := [r] } "docs".toList ∅ none).answer.toOption.any fun d =>
          decide (((d.addFragment "http://x".toList).absolute {}).url =
            "http://localhost/docs#http://x".toList ∧
            ((d.addFragment "http://x".toList).secure {}).url = "/docs#https://x".toList) &&
          (d.add "next".toList (.single ":http:".toList) none).toOption.any fun e =>
            decide ((e.absolute {}).url = "http://localhost/docs?next=:http:".toList ∧
              (e.secure {}).url = "https://localhost/docs?next=:https:".toList)) = true := by
    decide +kernel
  obtain ⟨r, hr, hrest⟩ := Route.exists_of_compilesTo hchecked
  obtain ⟨d, hd, hrest⟩ := Except.exists_of_any hrest
  obtain ⟨hfragment, hrest⟩ := Bool.and_eq_true _ _ ▸ hrest
  obtain ⟨hwhole, hfragment⟩ := of_decide_eq_true hfragment
  obtain ⟨e, he, hvalue⟩ := Except.exists_of_any hrest
  obtain ⟨habsolute, hsecure⟩ := of_decide_eq_true hvalue
  exact ⟨r, d, e, hr, hd, hwhole, hfragment, he, habsolute, hsecure⟩

end RouteTable

end Signpost
