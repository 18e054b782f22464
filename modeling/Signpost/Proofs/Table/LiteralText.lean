import Signpost.Proofs.Template.HostPattern

/-!
Literal text of actions and hosts. Where no placeholder of it names an argument, a template of an
action is matched by itself and by its other spellings in large and small letters, whatever signs
are in it; a host template without a placeholder too. Main statement:
`RouteTable.literal_text_matches_itself`.
-/

namespace Signpost

namespace Regex

theorem escaped_row {t : Text} {r : Regex} (h : read? true (Pattern.whole (escape t)) = some r) :
    r = (row (t.map (literal true))).anchored := by
  obtain ⟨g, s, final, hs, hbody, -, hend⟩ := reads_whole h
  obtain ⟨s', hs', h'⟩ := Reads.escaped hs hbody
  rw [hend s' hs'.opened h', hs'.close_regex, List.nil_append]

/-- Escaped text matches what it is, character for character, up to case. -/
theorem isMatch_escaped_iff {t v : Text} {p : Pattern}
    (hp : Pattern.read true (Pattern.whole (escape t)) = .ok p) :
    p.isMatch v = true ↔ List.Forall₂ (fun c d => c ∈ Unicode.caseVariants d) t v := by
  rw [Pattern.isMatch, escaped_row (Pattern.read_eq_ok hp).1, isMatch_anchored_iff]
  constructor
  · rintro ⟨k, hway, hend⟩
    obtain ⟨u, hu, hpasses, -⟩ := ways_variants.mp (way_row.mp hway)
    rwa [← hpasses.eq_of_end hend]
  · intro hv
    exact ⟨⟨.finish v, []⟩, way_row.mpr (ways_variants.mpr ⟨v, hv, Place.passes_finish v, rfl⟩),
      rfl⟩

theorem isMatch_escaped_ascii_iff {t v : Text} {p : Pattern}
    (hp : Pattern.read true (Pattern.whole (escape t)) = .ok p) (ht : t.IsAscii)
    (hv : v.IsAscii) : p.isMatch v = true ↔ Text.eqIgnoreCase v t = true := by
  rw [isMatch_escaped_iff hp, Text.forall₂_caseVariants_iff ht hv, Text.eqIgnoreCase,
    beq_iff_eq, eq_comm]

end Regex

open CompiledTemplate

variable {template action : Text} {c : CompiledTemplate}

theorem CompiledTemplate.ReadFrom.isMatch_literalAction_iff (h : c.ReadFrom template action)
    (hnames : NamesNone c.arguments (tokenize action)) (haction : action.IsAscii) {asked : Text}
    (hasked : asked.IsAscii) :
    c.actionPattern.isMatch asked = true ↔ Text.eqIgnoreCase asked action = true := by
  have hpattern := h.actionPattern
  rw [hnames.actionPieces_source, flatMap_text_tokenize] at hpattern
  exact Regex.isMatch_escaped_ascii_iff hpattern haction hasked

theorem CompiledTemplate.ReadFrom.holds_literalHost_iff (h : c.ReadFrom template action)
    (hraw : c.host.raw ≠ []) (hregion : ¬HostTemplate.HasRegion c.host.raw)
    (hascii : c.host.raw.IsAscii) (q : Query) {host : Text} (hhost : host.IsAscii) :
    (Guard.host c.hostPattern).holds { q with host := some host } = true ↔
      Text.eqIgnoreCase host c.host.raw = true := by
  have hread : c.host = ⟨c.host.raw, c.host.raw, none, []⟩ := by
    rw [← HostTemplate.read_of_not_hasRegion hregion, ← h.host_eq_read]
  have hsource : c.host.patternSource? = some (Regex.escape c.host.raw) := by
    rw [HostTemplate.patternSource?, if_neg hraw, hread]
    simp [Regex.escape]
  have hpattern := h.hostPattern
  rw [readHostPattern, hsource] at hpattern
  obtain ⟨p, hp, hpattern⟩ := Except.bind_eq_ok hpattern
  obtain hpattern := Except.ok.inj hpattern
  rw [← hpattern]
  change p.isMatch (Text.lowerAscii host) = true ↔ _
  rw [Regex.isMatch_escaped_ascii_iff hp hascii hhost.lowerAscii, Text.eqIgnoreCase,
    Text.lowerAscii_lowerAscii]
  rfl

namespace RouteTable

/-- A route whose action names none of its arguments is among those that an action resolves to just
when the two are equal up to the case of letters, and a route with a host but no placeholder in it
admits the requests for an equal host. -/
theorem literal_text_matches_itself {t : RouteTable} (ht : t.IsCompiled) {r : Route}
    (hr : r ∈ t.routes) :
    (r.action.IsAscii → NamesNone r.template.arguments (tokenize r.action) →
      ∀ action : Text, action.IsAscii →
        (r ∈ t.resolveActions action ↔ Text.eqIgnoreCase action r.action = true)) ∧
      (r.host ≠ [] → r.host.IsAscii → ¬HostTemplate.HasRegion r.host →
        ∀ (q : Query) (host : Text), host.IsAscii →
        ((Guard.host r.template.hostPattern).holds { q with host := some host } = true ↔
          Text.eqIgnoreCase host r.host = true)) := by
  obtain ⟨text, hread⟩ := (ht r hr).readFrom
  refine ⟨fun hascii hnames action haction => ?_, fun hraw hascii hregion q host hhost => ?_⟩
  · rw [resolveActions, List.mem_filter, and_iff_right hr]
    exact hread.isMatch_literalAction_iff hnames hascii haction
  · exact hread.holds_literalHost_iff hraw hregion hascii q hhost

/-- Dots, brackets, backslashes and placeholders that name no argument, in an action and in a
host. -/
theorem literal_text_matches_itself_operators :
    ∃ r, Route.compile
        { method := "GET".toList, path := "w+.(a|b)\x7d\x7b[c]/{id}".toList
          action := "show.[0-9]*\x7b<\\d+>id\x7d{other}$".toList } = .ok r ∧
      r ∈ resolveActions { routes := [r] } "SHOW.[0-9]*\x7b<\\D+>id\x7d{Other}$".toList ∧
      r ∉ resolveActions { routes := [r] } "showx7\x7b<\\d+>id\x7d{other}".toList ∧
      (Guard.host r.template.hostPattern).holds ⟨"GET".toList, "/7".toList, none,
        some "W+.(A|B)\x7d\x7b[C]".toList⟩ = true ∧
      ¬(Guard.host r.template.hostPattern).holds ⟨"GET".toList, "/7".toList, none,
        some "www.a\x7d\x7bc".toList⟩ = true := by
  have hcompiles : Route.compilesTo
      { method := "GET".toList, path := "w+.(a|b)\x7d\x7b[c]/{id}".toList
        action := "show.[0-9]*\x7b<\\d+>id\x7d{other}$".toList } (fun r =>
      decide (r.action = "show.[0-9]*\x7b<\\d+>id\x7d{other}$".toList ∧
        r.host = "w+.(a|b)\x7d\x7b[c]".toList ∧
        NamesNone r.template.arguments (tokenize r.action))) = true := by decide +kernel
  obtain ⟨r, hr, hchecked⟩ := Route.exists_of_compilesTo hcompiles
  obtain ⟨haction, hhost, hnames⟩ := of_decide_eq_true hchecked
  obtain ⟨hactions, hhosts⟩ :=
    literal_text_matches_itself (.singleton hr) (List.mem_singleton_self r)
  have hactions := hactions (haction ▸ by decide) hnames
  have hhosts := hhosts (hhost ▸ by decide) (hhost ▸ by decide) (hhost ▸ by decide)
    ⟨"GET".toList, "/7".toList, none, none⟩
  rw [haction] at hactions
  rw [hhost] at hhosts
  exact ⟨r, hr, (hactions _ (by decide)).mpr (by decide),
    mt (hactions _ (by decide)).mp (by decide), (hhosts _ (by decide)).mpr (by decide),
    mt (hhosts _ (by decide)).mp (by decide)⟩

end RouteTable

end Signpost
