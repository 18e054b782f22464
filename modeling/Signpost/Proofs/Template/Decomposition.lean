import Signpost.Proofs.Template.PlainPath

/-!
Taking a path apart. The pattern of a path with plain literal text and constraints that are patterns
on their own decides whether the path is the template with values that the arguments accept,
whichever alternative and however many turns its constraints try first, and what it captures are
such values. Main statement: `CompiledTemplate.pathPattern_decomposes`.
-/

namespace Signpost

namespace CompiledTemplate

/-- The path is the template with these values in their places, each one that the argument of its
name accepts. -/
structure Decomposes (c : CompiledTemplate) (value : Text → Option Text) (path : Text) : Prop where
  text : ∃ e, c.MayEndIn e ∧ path = written value c.pathTokens ++ e
  values : ∀ p ∈ placeholders c.pathTokens,
    ∃ a ∈ c.arguments, a.name = p.1 ∧ ∃ v, value p.1 = some v ∧ a.accepts v = true

variable {template action : Text} {c : CompiledTemplate} {value : Text → Option Text} {path : Text}

/-- The argument of a placeholder of the path, whether or not the host has one too. -/
theorem ReadFrom.exists_pathArgument (h : c.ReadFrom template action) {p : Text × Text}
    (hp : p ∈ placeholders c.pathTokens) :
    ∃ a ∈ c.arguments,
      a.name = p.1 ∧ Regex.read? false (Pattern.whole p.2) = some a.pattern.regex := by
  obtain ⟨known, more, -, hmore, harguments⟩ := h.arguments_eq
  obtain ⟨a, ha, hread⟩ := exists_right_of_mem hmore hp
  obtain ⟨hname, -, hpattern, -⟩ := Argument.read_eq_ok hread
  refine ⟨markFallback c.host a, ?_, hname, hpattern⟩
  rw [harguments]
  exact List.mem_map_of_mem (List.mem_append_right _ ha)

/-- What the argument of a placeholder accepts is what its constraint matches as a whole. -/
theorem FreePath.accepts_iff (hfree : c.FreePath) (h : c.ReadFrom template action) {p : Text × Text}
    (hp : p ∈ placeholders c.pathTokens) {a : Argument} (ha : a ∈ c.arguments)
    (hname : a.name = p.1) {v : Text} :
    a.accepts v = true ↔ (Regex.anchored (ownRegex p.2)).isMatch v = true := by
  obtain ⟨b, hb, hbname, hpattern⟩ := h.exists_pathArgument hp
  obtain rfl := List.inj_on_of_nodup_map h.nodup_names ha hb (hname.trans hbname.symm)
  rw [Argument.accepts, Pattern.isMatch, ((hfree.constraints p hp).standsAlone hpattern).2.1]

theorem Decomposes.isMatch (hdec : c.Decomposes value path) (hfree : c.FreePath)
    (h : c.ReadFrom template action) :
    c.pathPattern.isMatch path = true := by
  obtain ⟨⟨e, he, rfl⟩, hvalues⟩ := hdec
  refine hfree.isMatch h he fun p hp => ?_
  obtain ⟨a, ha, hname, v, hv, haccepts⟩ := hvalues p hp
  exact ⟨v, hv, (hfree.accepts_iff h hp ha hname).mp haccepts⟩

theorem FreePath.decomposes (hfree : c.FreePath) (h : c.ReadFrom template action) {taken : Captures}
    (htaken : c.pathPattern.captures? path = some taken) : c.Decomposes taken.get? path := by
  obtain ⟨htext, hvalues⟩ := hfree.captures h htaken
  refine ⟨htext, fun p hp => ?_⟩
  obtain ⟨a, ha, hname, -⟩ := h.exists_pathArgument hp
  obtain ⟨v, hv, hmatch⟩ := hvalues p hp
  exact ⟨a, ha, hname, v, hv, (hfree.accepts_iff h hp ha hname).mpr hmatch⟩

/-- A path pattern matches just the paths that its template with accepted values gives, and captures
such values. -/
theorem pathPattern_decomposes (h : compile template action = .ok c) (hfree : c.FreePath)
    (path : Text) :
    (c.pathPattern.isMatch path = true ↔ ∃ value, c.Decomposes value path) ∧
      ∀ taken, c.pathPattern.captures? path = some taken → c.Decomposes taken.get? path := by
  have hread := compile_readFrom h
  refine ⟨⟨fun hmatch => ?_, fun ⟨value, hdec⟩ => hdec.isMatch hfree hread⟩, fun taken =>
    hfree.decomposes hread⟩
  obtain ⟨taken, htaken⟩ := Option.isSome_iff_exists.mp hmatch
  exact ⟨taken.get?, hfree.decomposes hread htaken⟩

/-- Digits that two constraints share, the first of which takes as few of them as it can. -/
theorem pathPattern_decomposes_shared :
    ∃ c,
      compile "/v{<[0-9]+?>major}{<[0-9]*|beta>minor}/?".toList "show".toList = .ok c ∧ c.FreePath ∧
      c.pathPattern.captures? "/v12/".toList =
        some [("minor".toList, "2".toList), ("major".toList, "1".toList)] ∧
      c.Decomposes (Captures.get? [("minor".toList, "2".toList),
        ("major".toList, "1".toList)]) "/v12/".toList ∧
      ¬∃ value, c.Decomposes value "/vbeta".toList := by
  have hcompiles :
      (compile "/v{<[0-9]+?>major}{<[0-9]*|beta>minor}/?".toList "show".toList).toOption.any
        (fun c =>
      decide (c.FreePath ∧ c.pathPattern.captures? "/v12/".toList =
          some [("minor".toList, "2".toList), ("major".toList, "1".toList)] ∧
        ¬c.pathPattern.isMatch "/vbeta".toList = true)) = true := by decide +kernel
  obtain ⟨c, hc, hchecked⟩ := Except.exists_of_any hcompiles
  obtain ⟨hfree, htaken, hnone⟩ := of_decide_eq_true hchecked
  refine ⟨c, hc, hfree, htaken, (pathPattern_decomposes hc hfree "/v12/".toList).2 _ htaken,
    fun hvalue => hnone ?_⟩
  exact (pathPattern_decomposes hc hfree "/vbeta".toList).1.mpr hvalue

end CompiledTemplate

end Signpost
