import Signpost.Proofs.Regex.LookFree
import Signpost.Proofs.Template.PathPattern
import Signpost.Proofs.Url.FormEncoding

/-!
Paths of templates without host whose literal text is plain and whose constraints are patterns on
their own that do not look around. Such a template matches a path just when the path is the template
with values that the arguments accept, and it writes such a path from the values. Main statements:
`CompiledTemplate.PlainPath.captures`, `CompiledTemplate.PlainPath.isMatch` and
`CompiledTemplate.renderPath_eq_written`.
-/

namespace Signpost

theorem HostTemplate.read_raw (raw : Text) : (read raw).raw = raw := by
  unfold read
  split
  · split <;> rfl
  · rfl

namespace CompiledTemplate

open Regex

/-- The constraint is a pattern on its own, without anchors and word boundaries. -/
def FreeConstraint (constraint : Text) : Prop :=
  ∃ r, Regex.read? false constraint = some r ∧ r.lookFree = true

instance (constraint : Text) : Decidable (FreeConstraint constraint) :=
  decidable_of_iff ((Regex.read? false constraint).any Regex.lookFree = true) <| by
    rw [Option.any_eq_true]
    exact Iff.rfl

/-- The literal text of the path has no characters that mean something in patterns, but for a slash
that may be left out at the end, and the constraints are patterns on their own. -/
structure FreePath (c : CompiledTemplate) : Prop where
  literals : PlainLiterals c.pathTokens
  constraints : ∀ p ∈ placeholders c.pathTokens, FreeConstraint p.2

instance (c : CompiledTemplate) : Decidable c.FreePath :=
  decidable_of_iff (PlainLiterals c.pathTokens ∧ ∀ p ∈ placeholders c.pathTokens,
    FreeConstraint p.2)
    ⟨fun h => ⟨h.1, h.2⟩, fun h => ⟨h.literals, h.constraints⟩⟩

/-- A template for any host, without characters in its literal text that mean something in patterns,
but for a slash that may be left out at the end, and with constraints that are patterns on their
own. -/
structure PlainPath (c : CompiledTemplate) : Prop where
  host : c.host.raw = []
  literals : PlainLiterals c.pathTokens
  constraints : ∀ p ∈ placeholders c.pathTokens, FreeConstraint p.2

instance (c : CompiledTemplate) : Decidable c.PlainPath :=
  decidable_of_iff
    (c.host.raw = [] ∧ PlainLiterals c.pathTokens ∧ ∀ p ∈ placeholders c.pathTokens,
      FreeConstraint p.2)
    ⟨fun h => ⟨h.1, h.2.1, h.2.2⟩, fun h => ⟨h.host, h.literals, h.constraints⟩⟩

theorem PlainPath.free {c : CompiledTemplate} (h : c.PlainPath) : c.FreePath :=
  ⟨h.literals, h.constraints⟩

structure PathArgument (p : Text × Text) (a : Argument) : Prop where
  name : a.name = p.1
  pattern : Regex.read? false (Pattern.whole p.2) = some a.pattern.regex
  ofPath : a.isHost = false
  required : a.fallback = false

theorem isOperator_of_isNameChar {c : Char} (h : Token.isNameChar c = true) :
    isOperator c = false := by
  have hoperators : ("\\.+*?()|[\x7b^$".toList.all fun d => !Token.isNameChar d) = true := by decide
  cases hc : isOperator c with
  | false => rfl
  | true =>
    have hname := List.all_eq_true.mp hoperators c (List.contains_iff_mem.mp hc)
    rw [h] at hname
    cases hname

/-- A name as a pattern matches only itself, so the host without braces is a value that a name
stands for just when it is the name. -/
theorem fallsBack_iff {stripped name : Text} (hname : Token.IsName name) :
    fallsBack stripped name = true ↔ name = stripped := by
  unfold fallsBack
  rw [Bool.or_eq_true, beq_iff_eq]
  refine ⟨fun h => h.elim Eq.symm fun hmatch => ?_, fun h => .inl h.symm⟩
  split at hmatch
  · next regex hread =>
    obtain ⟨g, s, final, hs, hbody, -, hend⟩ := reads_whole hread
    obtain ⟨s', hs', h'⟩ :=
      Reads.literals hs (fun c hc => isOperator_of_isNameChar (hname.2 c hc)) hbody
    rw [hend s' hs'.opened h', hs'.close_regex] at hmatch
    obtain ⟨k, hway, hrest⟩ := isMatch_anchored_iff.mp hmatch
    obtain ⟨hpasses, -⟩ := ways_literals.mp (way_row.mp hway)
    exact hpasses.eq_of_end hrest
  · cases hmatch

theorem exists_right_of_mem {α β : Type} {R : α → β → Prop} {l : List α} {m : List β} {a : α}
    (h : List.Forall₂ R l m) (ha : a ∈ l) : ∃ b ∈ m, R a b := by
  induction h with
  | nil => simp at ha
  | cons hR _ ih =>
    rcases List.mem_cons.mp ha with rfl | ha
    · exact ⟨_, List.mem_cons_self, hR⟩
    · obtain ⟨b, hb, hab⟩ := ih ha
      exact ⟨b, List.mem_cons_of_mem _ hb, hab⟩

variable {template action : Text} {c : CompiledTemplate}

theorem ReadFrom.placeholders_eq (h : c.ReadFrom template action) :
    placeholders c.pathTokens = placeholders (tokenize c.path) := by
  rw [h.pathTokens, placeholders_dropOptionalSlash]

/-- The arguments of a template: that of the host, if it has a placeholder, and those of the
placeholders of the path. -/
theorem ReadFrom.arguments_eq (h : c.ReadFrom template action) :
    ∃ known more, hostArguments c.host = .ok known ∧
      List.Forall₂ (fun p a => Argument.read p.1 p.2 = .ok a) (placeholders c.pathTokens) more ∧
      c.arguments = (known ++ more).map (markFallback c.host) := by
  obtain ⟨known, found, hknown, hfound, harguments⟩ := h.arguments
  obtain ⟨more, rfl, hmore, -⟩ := readArguments_spec hfound
  rw [h.placeholders_eq]
  exact ⟨known, more, hknown, hmore, harguments⟩

theorem ReadFrom.isName_placeholder (h : c.ReadFrom template action) {p : Text × Text}
    (hp : p ∈ placeholders c.pathTokens) : Token.IsName p.1 := by
  rw [h.placeholders_eq] at hp
  obtain ⟨constraint, hmem, -⟩ := exists_mem_of_mem_placeholders hp
  exact isName_of_mem_tokenize hmem

theorem ReadFrom.host_eq_read (h : c.ReadFrom template action) :
    c.host = HostTemplate.read c.host.raw := by
  rw [h.host, HostTemplate.read_raw]

theorem ReadFrom.host_of_raw_nil (h : c.ReadFrom template action) (hhost : c.host.raw = []) :
    c.host = HostTemplate.read [] := by
  rw [h.host_eq_read, hhost]

theorem ReadFrom.renderHost_of_raw_nil (h : c.ReadFrom template action) (hhost : c.host.raw = [])
    (values : TextMap Text) : c.renderHost values = [] := by
  rw [renderHost, h.host_of_raw_nil hhost]
  rfl

theorem ReadFrom.pathArguments (h : c.ReadFrom template action) (hhost : c.host.raw = []) :
    List.Forall₂ PathArgument (placeholders c.pathTokens) c.arguments := by
  have hread := h.host_of_raw_nil hhost
  obtain ⟨known, more, hknown, hmore, harguments⟩ := h.arguments_eq
  rw [hread] at hknown harguments
  obtain rfl : [] = known := Except.ok.inj hknown
  rw [harguments, List.nil_append, List.forall₂_map_right_iff]
  refine ((List.forall₂_and_left _ _).mpr ⟨fun p hp => h.isName_placeholder hp, hmore⟩).imp ?_
  rintro p a ⟨hname, ha⟩
  obtain ⟨haname, -, hpattern, hpath⟩ := Argument.read_eq_ok ha
  refine ⟨haname, hpattern, hpath, ?_⟩
  show fallsBack [] a.name = false
  rw [haname, Bool.eq_false_iff, ne_eq, fallsBack_iff hname]
  exact hname.1

theorem ReadFrom.exists_argument (h : c.ReadFrom template action) (hhost : c.host.raw = [])
    {p : Text × Text} (hp : p ∈ placeholders c.pathTokens) : ∃ a ∈ c.arguments, PathArgument p a :=
  exists_right_of_mem (h.pathArguments hhost) hp

theorem ReadFrom.exists_placeholder (h : c.ReadFrom template action) (hhost : c.host.raw = [])
    {a : Argument} (ha : a ∈ c.arguments) : ∃ p ∈ placeholders c.pathTokens, PathArgument p a :=
  exists_right_of_mem (h.pathArguments hhost).flip ha

theorem ReadFrom.hostPattern_eq_none (h : c.ReadFrom template action) (hhost : c.host.raw = []) :
    c.hostPattern = none := by
  have hpattern := h.hostPattern
  rw [readHostPattern, HostTemplate.patternSource?, if_pos hhost] at hpattern
  exact (Except.ok.inj hpattern).symm

/-- A constraint that is a pattern on its own stands alone in the pattern of a path too. -/
theorem standsAlone_of_read {constraint : Text} {own whole : Regex}
    (hown : Regex.read? false constraint = some own)
    (hwhole : Regex.read? false (Pattern.whole constraint) = some whole) :
    StandsAlone constraint ∧ ownRegex constraint = own ∧ whole = own.anchored := by
  obtain ⟨s, hs, hclose, hanchored⟩ := nests_of_whole hown hwhole
  have hsame : ownRegex constraint = own := by rw [ownRegex, hown, Option.getD_some]
  exact ⟨⟨s, hs, hclose.trans hsame.symm⟩, hsame, hanchored⟩

theorem FreeConstraint.standsAlone {constraint : Text} {whole : Regex}
    (h : FreeConstraint constraint)
    (hwhole : Regex.read? false (Pattern.whole constraint) = some whole) :
    StandsAlone constraint ∧ whole = (ownRegex constraint).anchored ∧
      (ownRegex constraint).lookFree = true := by
  obtain ⟨r, hr, hfree⟩ := h
  obtain ⟨halone, rfl, hanchored⟩ := standsAlone_of_read hr hwhole
  exact ⟨halone, hanchored, hfree⟩

/-- Plain literals and placeholders do not end in an operator. -/
theorem PlainLiterals.getLast {tokens : List Token} (h : PlainLiterals tokens) {d : Char}
    (hd : (tokens.flatMap Token.text).getLast? = some d) : isOperator d = false := by
  induction tokens with
  | nil => cases hd
  | cons token tokens ih =>
    rw [List.flatMap_cons, List.getLast?_append] at hd
    rcases Option.or_eq_some_iff.mp hd with hrest | ⟨-, htoken⟩
    · exact ih (fun t ht => h t (List.mem_cons_of_mem _ ht)) hrest
    · match token with
      | .literal t => exact h t List.mem_cons_self d (List.mem_of_getLast? htoken)
      | .placeholder name none | .placeholder name (some constraint) =>
        obtain rfl : '}' = d := by
          simpa [Token.text, List.getLast?_cons, List.getLast?_append] using htoken
        decide

/-- What may stand behind the tokens of the path: nothing, or a slash where the template ends in one
that may be left out. -/
def MayEndIn (c : CompiledTemplate) (e : Text) : Prop :=
  e = [] ∨ optionalSlash <:+ c.path ∧ e = ['/']

theorem FreePath.pathPattern (hfree : c.FreePath) (h : c.ReadFrom template action) :
    ∃ ending, (ending = [] ∨ ending = optionalSlash) ∧ (∀ e, IsEnd ending e ↔ c.MayEndIn e) ∧
      DistinctGroups (placeholders c.pathTokens) ∧
      c.pathPattern.regex = (row (c.pathTokens.flatMap tokenRow ++ endingRow ending)).anchored := by
  obtain ⟨ending, hending, hflatMap⟩ := exists_flatMap_dropOptionalSlash (tokenize c.path)
  have hpieces := hflatMap pathPiece fun _ => rfl
  have htext := hflatMap Token.text fun _ => rfl
  have hread := (Pattern.read_eq_ok h.pathPattern).1
  rw [hpieces, ← h.pathTokens] at hread
  rw [flatMap_text_tokenize, ← h.pathTokens] at htext
  have hnames : ∀ p ∈ placeholders c.pathTokens, '>' ∉ p.1 :=
    fun p hp => (h.isName_placeholder hp).angle_not_mem
  have halone : ∀ p ∈ placeholders c.pathTokens, StandsAlone p.2 := by
    intro p hp
    obtain ⟨-, more, -, hmore, -⟩ := h.arguments_eq
    obtain ⟨a, -, ha⟩ := exists_right_of_mem hmore hp
    exact ((hfree.constraints p hp).standsAlone (Argument.read_eq_ok ha).2.2.1).1
  -- Without the ending the path would stop at an operator, the question mark.
  have hsuffix : ending = optionalSlash ↔ optionalSlash <:+ c.path := by
    refine ⟨fun heq => ⟨_, heq ▸ htext.symm⟩, fun hsuffix => hending.resolve_left ?_⟩
    rintro rfl
    obtain ⟨before, hbefore⟩ := hsuffix
    rw [List.append_nil] at htext
    have hlast : (c.pathTokens.flatMap Token.text).getLast? = some '?' := by
      rw [← htext, ← hbefore]
      simp [optionalSlash]
    exact absurd (hfree.literals.getLast hlast) (by decide)
  obtain ⟨hregex, hdistinct⟩ := pathPattern_row hfree.literals hending hnames halone hread
  exact ⟨ending, hending, fun e => or_congr_right (and_congr_left' hsuffix), hdistinct, hregex⟩

theorem FreePath.lookFree (hfree : c.FreePath) {p : Text × Text}
    (hp : p ∈ placeholders c.pathTokens) :
    (ownRegex p.2).lookFree = true := by
  obtain ⟨r, hr, hlook⟩ := hfree.constraints p hp
  rwa [ownRegex, hr, Option.getD_some]

/-- A path that matches is the template with the captured values put in, and every placeholder has
captured a value that its constraint accepts. -/
theorem FreePath.captures (hfree : c.FreePath) (h : c.ReadFrom template action) {t : Text}
    {taken : Captures} (ht : c.pathPattern.captures? t = some taken) :
    (∃ e, c.MayEndIn e ∧ t = written taken.get? c.pathTokens ++ e) ∧
      ∀ p ∈ placeholders c.pathTokens, ∃ v,
        taken.get? p.1 = some v ∧ (ownRegex p.2).anchored.isMatch v = true := by
  obtain ⟨ending, hending, hends, hdistinct, hregex⟩ := hfree.pathPattern h
  rw [Pattern.captures?, hregex] at ht
  obtain ⟨⟨e, he, hwritten⟩, htaken⟩ := captures_path hending hdistinct ht
  refine ⟨⟨e, (hends e).mp he, hwritten⟩, fun p hp => ?_⟩
  obtain ⟨v, hv, place, hit, hway, hpasses⟩ := htaken p hp
  exact ⟨v, hv, isMatch_of_way (hfree.lookFree hp) hway hpasses⟩

/-- The template with values that the constraints accept matches. -/
theorem FreePath.isMatch (hfree : c.FreePath) (h : c.ReadFrom template action)
    {value : Text → Option Text} {e : Text} (he : c.MayEndIn e)
    (hvalue : ∀ p ∈ placeholders c.pathTokens, ∃ v, value p.1 = some v ∧
      (ownRegex p.2).anchored.isMatch v = true) :
    c.pathPattern.isMatch (written value c.pathTokens ++ e) = true := by
  obtain ⟨ending, -, hends, -, hregex⟩ := hfree.pathPattern h
  rw [Pattern.isMatch, hregex]
  refine isMatch_path ((hends e).mpr he) fun p hp => ?_
  obtain ⟨v, hv, hmatch⟩ := hvalue p hp
  exact ⟨v, hv, hfree.lookFree hp, hmatch⟩

namespace PlainPath

theorem argument (hplain : c.PlainPath) {p : Text × Text} {a : Argument}
    (hp : p ∈ placeholders c.pathTokens) (ha : PathArgument p a) :
    StandsAlone p.2 ∧ a.pattern.regex = (ownRegex p.2).anchored ∧
      (ownRegex p.2).lookFree = true := by
  exact (hplain.constraints p hp).standsAlone ha.pattern

theorem captures (hplain : c.PlainPath) (h : c.ReadFrom template action) {t : Text}
    {taken : Captures} (ht : c.pathPattern.captures? t = some taken) :
    (∃ e,
      (e = [] ∨ optionalSlash <:+ c.path ∧ e = ['/']) ∧ t = written taken.get? c.pathTokens ++ e) ∧
      ∀ a ∈ c.arguments, ∃ v, taken.get? a.name = some v ∧ a.accepts v = true := by
  obtain ⟨⟨e, he, hwritten⟩, hvalues⟩ := hplain.free.captures h ht
  refine ⟨⟨e, he, hwritten⟩, fun a ha => ?_⟩
  obtain ⟨p, hp, hpa⟩ := h.exists_placeholder hplain.host ha
  obtain ⟨v, hv, hmatch⟩ := hvalues p hp
  refine ⟨v, by rw [hpa.name, hv], ?_⟩
  rw [Argument.accepts, Pattern.isMatch, (hplain.argument hp hpa).2.1]
  exact hmatch

theorem isMatch (hplain : c.PlainPath) (h : c.ReadFrom template action) {value : Text → Option Text}
    (hvalue : ∀ a ∈ c.arguments, ∃ v, value a.name = some v ∧ a.accepts v = true) :
    c.pathPattern.isMatch (written value c.pathTokens) = true := by
  rw [← List.append_nil (written value c.pathTokens)]
  refine hplain.free.isMatch h (.inl rfl) fun p hp => ?_
  obtain ⟨a, ha, hpa⟩ := h.exists_argument hplain.host hp
  obtain ⟨v, hv, haccepts⟩ := hvalue a ha
  rw [Argument.accepts, Pattern.isMatch, (hplain.argument hp hpa).2.1] at haccepts
  exact ⟨v, by rw [← hpa.name, hv], haccepts⟩

theorem mark_not_mem_renderPath (hplain : c.PlainPath) {values : TextMap Text}
    (hvalues : ∀ p ∈ placeholders c.pathTokens, ∃ v, values.get? p.1 = some v ∧ '?' ∉ v) :
    '?' ∉ c.renderPath values := by
  intro hmem
  obtain ⟨token, htoken, hmark⟩ := List.mem_flatMap.mp hmem
  cases token with
  | literal t =>
    have hliteral := hplain.literals t htoken '?' hmark
    exact absurd hliteral (by decide)
  | placeholder name constraint =>
    obtain ⟨v, hv, hfree⟩ := hvalues _ (mem_placeholders htoken)
    dsimp only at hmark
    rw [hv] at hmark
    exact Url.mark_not_mem_encodeValue hfree hmark

end PlainPath

theorem renderPath_congr {a b : TextMap Text}
    (h : ∀ p ∈ placeholders c.pathTokens, a.get? p.1 = b.get? p.1) :
    c.renderPath a = c.renderPath b := by
  refine List.flatMap_congr fun token htoken => ?_
  cases token with
  | literal t => rfl
  | placeholder name constraint =>
    have hname := h _ (mem_placeholders htoken)
    dsimp only at hname ⊢
    rw [hname]

/-- With a value for each of its placeholders, a path is rendered as its template with the encoded
values in their places. -/
theorem renderPath_eq_encoded {values : TextMap Text}
    (hvalues : ∀ p ∈ placeholders c.pathTokens, (values.get? p.1).isSome = true) :
    c.renderPath values = written (fun name =>
      (values.get? name).map Url.encodeValue) c.pathTokens := by
  refine List.flatMap_congr fun token htoken => ?_
  cases token with
  | literal t => rfl
  | placeholder name constraint =>
    obtain ⟨v, hv⟩ := Option.isSome_iff_exists.mp (hvalues _ (mem_placeholders htoken))
    dsimp only at hv ⊢
    rw [hv]
    rfl

theorem renderPath_eq_written {values : TextMap Text}
    (hvalues : ∀ p ∈ placeholders c.pathTokens, ∃ v,
      values.get? p.1 = some v ∧ ∀ d ∈ v, Url.isFormSafe d = true) :
    c.renderPath values = written values.get? c.pathTokens := by
  have hbound : ∀ p ∈ placeholders c.pathTokens, (values.get? p.1).isSome = true := by
    intro p hp
    obtain ⟨v, hv, -⟩ := hvalues p hp
    exact Option.isSome_of_eq_some hv
  rw [renderPath_eq_encoded hbound]
  refine written_congr fun p hp => ?_
  obtain ⟨v, hv, hsafe⟩ := hvalues p hp
  rw [hv, Option.map_some, Url.encodeValue_of_safe hsafe]

end CompiledTemplate

end Signpost
