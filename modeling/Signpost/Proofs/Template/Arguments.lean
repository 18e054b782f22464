import Signpost.Proofs.Regex.GroupKept
import Signpost.Proofs.Template.Enforcement
import Signpost.Proofs.Template.Filling
import Signpost.Proofs.Template.HostPattern
import Signpost.Proofs.Template.Rendering

/-!
The arguments that compiling gives: where they come from, which groups capture them, and where their
values go. The literal text of a path is part of its pattern, so a placeholder of the path has a
group of its own where the reader of the pattern gets to it; in an action only the constraints of
arguments can keep the reader from that. Main statement: `CompiledTemplate.compile_establishes`.
-/

namespace Signpost

namespace CompiledTemplate

open Regex

section ActionNames

variable {arguments : List Argument} {tokens : List Token} {name : Text}

theorem map_name_namedArgument? (arguments : List Argument) (token : Token) :
    (namedArgument? arguments token).map (·.name) = token.bareName?.filter fun n =>
      n ∈ arguments.map (·.name) := by
  match token with
  | .literal _ | .placeholder _ (some _) => rfl
  | .placeholder name none =>
    change (arguments.find? fun a => a.name == name).map (·.name) = (some name).filter fun n =>
      n ∈ arguments.map (·.name)
    cases hfind : arguments.find? fun a => a.name == name with
    | none =>
      have hnone : name ∉ arguments.map (·.name) := by simpa using hfind
      simp [Option.filter, hnone]
    | some a =>
      obtain rfl : a.name = name := by simpa using List.find?_some hfind
      have hmem : a.name ∈ arguments.map (·.name) :=
        List.mem_map_of_mem (List.mem_of_find?_eq_some hfind)
      simp [Option.filter, hmem]

theorem namedIn_eq (arguments : List Argument) (tokens : List Token) :
    namedIn arguments tokens =
      (tokens.filterMap Token.bareName?).filter (· ∈ arguments.map (·.name)) := by
  rw [List.filter_filterMap]
  exact List.filterMap_congr fun token _ => map_name_namedArgument? arguments token

theorem actionPieces_names_start (arguments : List Argument) (tokens : List Token) :
    (actionPieces arguments [] tokens).2 =
      ((tokens.filterMap Token.bareName?).filter (· ∈ arguments.map (·.name))).eraseDups := by
  rw [actionPieces_names, namedIn_eq]
  simp

theorem mem_actionPieces_names :
    name ∈ (actionPieces arguments [] tokens).2 ↔
      Token.placeholder name none ∈ tokens ∧ name ∈ arguments.map (·.name) := by
  have hbare : name ∈ tokens.filterMap Token.bareName? ↔ Token.placeholder name none ∈ tokens := by
    rw [List.mem_filterMap]
    constructor
    · rintro ⟨token, htoken, hname⟩
      match token with
      | .placeholder other none =>
        obtain rfl := Option.some.inj hname
        exact htoken
    · exact fun htoken => ⟨_, htoken, rfl⟩
  rw [actionPieces_names_start, List.mem_eraseDups, List.mem_filter, hbare, decide_eq_true_iff]

/-- Where an action names an argument first, its pattern has a group with the name. -/
theorem exists_namedGroup {captured : List Text} (hname : name ∈ arguments.map (·.name))
    (hcaptured : name ∉ captured) (after : List Token) :
    ∃ constraint rest,
      (actionPieces arguments captured (.placeholder name none :: after)).1 =
        namedGroup name constraint ++ rest := by
  have hnamed := map_name_namedArgument? arguments (.placeholder name none)
  rw [Token.bareName?, Option.filter_some, if_pos (by simpa using hname)] at hnamed
  obtain ⟨a, hfind, rfl⟩ := Option.map_eq_some_iff.mp hnamed
  rw [actionPieces, hfind]
  simp only [List.contains_iff_mem, if_neg hcaptured]
  exact ⟨_, _, rfl⟩

end ActionNames

theorem not_isArgumentName_of_isDigit {name : Text} {d : Char} (hd : d ∈ name.head?)
    (hdigit : d.isDigit = true) :
    isArgumentName name = false := by
  have halpha : d.isAlpha = false := by
    have hrange : 48 ≤ d.toNat ∧ d.toNat ≤ 57 := by
      simpa [Char.isDigit, UInt32.le_iff_toNat_le] using hdigit
    refine Bool.eq_false_iff.mpr fun halpha => ?_
    have hletter := Text.toNat_of_isAlpha halpha
    omega
  have hunderscore : d ≠ '_' := by
    rintro rfl
    cases hdigit
  cases name with
  | nil => cases hd
  | cons c rest =>
    obtain rfl := Option.some.inj hd
    simp [isArgumentName, halpha, hunderscore]

theorem isArgumentName_of_readArguments {template : Text} {known found : List Argument}
    {tokens : List Token} (h : readArguments template known tokens = .ok found) :
    ∀ p ∈ placeholders tokens, isArgumentName p.1 = true := by
  induction tokens generalizing known with
  | nil => simp [placeholders]
  | cons token tokens ih =>
    cases token with
    | literal t => exact ih h
    | placeholder name constraint =>
      simp only [readArguments] at h
      split_ifs at h with hname hknown
      obtain ⟨a, ha, h⟩ := Except.bind_eq_ok h
      exact List.forall_mem_cons.mpr ⟨by simpa using hname, ih h⟩

/-- The arguments are those of the placeholders of a path, in order. -/
structure GivenByPath (path : Text) (arguments : List Argument) : Prop where
  placeholders : arguments.map (fun a => (a.name, a.constraint)) = placeholders (tokenize path)
  names : ∀ a ∈ arguments, isArgumentName a.name = true
  noDefault : ∀ a ∈ arguments, a.default = none

theorem GivenByPath.of_reads {path : Text} {more : List Argument}
    (h : List.Forall₂ (fun p a =>
      Argument.read p.1 p.2 = .ok a) (Signpost.placeholders (tokenize path)) more)
    (hnames : ∀ p ∈ Signpost.placeholders (tokenize path), isArgumentName p.1 = true)
    (host : HostTemplate) :
    GivenByPath path (more.map (markFallback host)) := by
  have hread : ∀ a ∈ more, ∃ p ∈ Signpost.placeholders (tokenize path),
      Argument.read p.1 p.2 = .ok a :=
    fun a ha => exists_right_of_mem h.flip ha
  refine ⟨?_, List.forall_mem_map.mpr fun a ha => ?_, List.forall_mem_map.mpr fun a ha => ?_⟩
  · rw [List.map_map]
    have hsame : List.Forall₂ (fun p (a : Argument) =>
        p = (a.name, a.constraint)) (Signpost.placeholders (tokenize path))
        more := by
      refine h.imp fun p a ha => ?_
      obtain ⟨hname, hconstraint, -⟩ := Argument.read_eq_ok ha
      rw [hname, hconstraint]
    exact (List.forall₂_eq_eq_eq ▸ List.forall₂_map_right_iff.mpr hsame).symm
  · obtain ⟨p, hp, hpa⟩ := hread a ha
    have hname := hnames p hp
    rwa [← (Argument.read_eq_ok hpa).1] at hname
  · obtain ⟨p, -, hpa⟩ := hread a ha
    exact Option.isNone_iff_eq_none.mp
      (Option.isSome_eq_false_iff.mp (Argument.read_eq_ok hpa).2.2.2)

/-- What compiling establishes about the arguments of a template with this host and path and of the
action with it. -/
structure ArgumentInvariants (host path action : Text) (c : CompiledTemplate) : Prop where
  /-- No two arguments have one name. -/
  nodup : (c.arguments.map (·.name)).Nodup
  /-- A host with a placeholder gives the first argument and the only one with a default. Its value
  stands, encoded, for everything from the first opening brace to the last closing one. -/
  hosted : HostTemplate.HasRegion host → ∃ before inside after a paths,
    host = before ++ '{' :: (inside ++ '}' :: after) ∧ '{' ∉ before ∧ '}' ∉ after ∧
      c.arguments = a :: paths ∧ a.name = HostTemplate.withoutBraces inside ∧
      a.default = some host ∧
        GivenByPath path paths ∧
          ∀ values v, values.get? a.name = some v →
            c.renderHost values = before ++ Url.encodeValue v ++ after
  /-- Any other host gives no argument and is rendered as it is. -/
  hostless : ¬HostTemplate.HasRegion host →
    GivenByPath path c.arguments ∧ ∀ values, c.renderHost values = host
  /-- With values for all arguments the path is rendered with each placeholder replaced by its own
  value, encoded, but for a slash that may be left out at the end. -/
  rendersPath : ∃ ending, (ending = [] ∨ ending = optionalSlash) ∧ ∀ values : TextMap Text,
    (∀ a ∈ c.arguments, (values.get? a.name).isSome = true) →
      c.renderPath values ++ ending = written (fun name =>
        (values.get? name).map Url.encodeValue) (tokenize path)
  /-- A placeholder of the path has a group in the path pattern if the reader of the pattern gets to
  it, as it does behind plain text and constraints that are patterns on their own. -/
  pathGroups : ∀ before name constraint after,
    tokenize path = before ++ .placeholder name constraint :: after →
    ArrivesAt false c.pathPattern.source
      ((Token.placeholder name constraint :: after).flatMap pathPiece ++ ")$".toList) ∨
        PlainLiterals before ∧ (∀ p ∈ Signpost.placeholders before,
          (Regex.read? false p.2).isSome = true) →
      name ∈ c.pathPattern.regex.groupNames
  /-- The action gives the arguments that placeholders of it without a constraint name, in the order
  in which they are named first. -/
  actionNames : c.actionArguments =
    (((tokenize action).filterMap Token.bareName?).filter (· ∈ c.arguments.map (·.name))).eraseDups
  /-- Each of them has a group in the action pattern if the reader of the pattern gets to where it
  is named first, as it does behind constraints that are patterns on their own when case does not
  matter. -/
  actionGroups : ∀ before name after, tokenize action = before ++ .placeholder name none :: after →
    Token.placeholder name none ∉ before → name ∈ c.actionArguments →
      ArrivesAt true c.actionPattern.source
          ((actionPieces c.arguments (actionPieces c.arguments [] before).2
            (.placeholder name none :: after)).1 ++
            ")$".toList) ∨
        (∀ token ∈ before, ∀ a, namedArgument? c.arguments token = some a →
          ReadsAnyCase a.constraint) →
      name ∈ c.actionPattern.regex.groupNames

section Compiled

variable {template action : Text} {c : CompiledTemplate}

theorem ReadFrom.isArgumentName_path (h : c.ReadFrom template action) :
    ∀ p ∈ placeholders (tokenize c.path), isArgumentName p.1 = true := by
  obtain ⟨known, found, -, hfound, -⟩ := h.arguments
  exact isArgumentName_of_readArguments hfound

/-- The arguments of a compiled template, those of the host apart from those of the path. -/
theorem ReadFrom.exists_arguments (h : c.ReadFrom template action) :
    ∃ known paths,
      hostArguments c.host = .ok known ∧ c.arguments = known.map (markFallback c.host) ++ paths ∧
      GivenByPath c.path paths := by
  obtain ⟨known, more, hknown, hmore, harguments⟩ := h.arguments_eq
  rw [h.placeholders_eq] at hmore
  exact ⟨known, _,
    hknown, by rw [harguments, List.map_append], .of_reads hmore h.isArgumentName_path c.host⟩

theorem ReadFrom.arguments_hosted (h : c.ReadFrom template action)
    (hregion : HostTemplate.HasRegion c.host.raw) :
    ∃ before inside after a paths,
      c.host.raw = before ++ '{' :: (inside ++ '}' :: after) ∧ '{' ∉ before ∧ '}' ∉ after ∧
      c.arguments = a :: paths ∧ a.name = HostTemplate.withoutBraces inside ∧
      a.default = some c.host.raw ∧
        GivenByPath c.path paths ∧
          ∀ values v, values.get? a.name = some v →
            c.renderHost values = before ++ Url.encodeValue v ++ after := by
  obtain ⟨before, inside, after, hraw, hbefore, hafter, hparts⟩ := hregion.exists_read
  rw [← h.host_eq_read] at hparts
  have hname : c.host.placeholder = some (HostTemplate.withoutBraces inside) :=
    congrArg HostTemplate.placeholder hparts
  obtain ⟨known, paths, hknown, harguments, hpaths⟩ := h.exists_arguments
  rw [hostArguments, hname] at hknown
  obtain ⟨a, ha, hknown⟩ := Except.bind_eq_ok hknown
  obtain rfl := Except.ok.inj hknown
  have haname : a.name = HostTemplate.withoutBraces inside := (Argument.read_eq_ok ha).1
  refine ⟨before, inside, after, _, paths, hraw, hbefore, hafter, harguments, haname, rfl, hpaths,
    fun values v hv => ?_⟩
  have hvalue : values.get? (HostTemplate.withoutBraces inside) = some v := haname ▸ hv
  rw [renderHost, HostTemplate.render, hname, Option.bind_some, hvalue, hparts]

theorem ReadFrom.arguments_hostless (h : c.ReadFrom template action)
    (hregion : ¬HostTemplate.HasRegion c.host.raw) :
    GivenByPath c.path c.arguments ∧ ∀ values, c.renderHost values = c.host.raw := by
  have hparts := HostTemplate.read_of_not_hasRegion hregion
  rw [← h.host_eq_read] at hparts
  have hname : c.host.placeholder = none := congrArg HostTemplate.placeholder hparts
  obtain ⟨known, paths, hknown, harguments, hpaths⟩ := h.exists_arguments
  rw [hostArguments, hname] at hknown
  obtain rfl := Except.ok.inj hknown
  refine ⟨harguments ▸ hpaths, fun values => ?_⟩
  rw [renderHost, HostTemplate.render, hname, Option.bind_none]

theorem ReadFrom.exists_rendersPath (h : c.ReadFrom template action) :
    ∃ ending, (ending = [] ∨ ending = optionalSlash) ∧ ∀ values : TextMap Text,
      (∀ a ∈ c.arguments, (values.get? a.name).isSome = true) →
        c.renderPath values ++ ending = written (fun name =>
          (values.get? name).map Url.encodeValue) (tokenize c.path) := by
  obtain ⟨ending, hending, hflatMap⟩ := exists_flatMap_dropOptionalSlash (tokenize c.path)
  refine ⟨ending, hending, fun values hvalues => ?_⟩
  have hbound : ∀ p ∈ placeholders c.pathTokens, (values.get? p.1).isSome = true := by
    intro p hp
    obtain ⟨a, ha, hname, -⟩ := h.exists_pathArgument hp
    exact hname ▸ hvalues a ha
  rw [renderPath_eq_encoded hbound, h.pathTokens]
  exact (hflatMap _ fun _ => rfl).symm

/-- Constraints of the path that are patterns on their own stand alone in its pattern. -/
theorem ReadFrom.standsAlone (h : c.ReadFrom template action) {p : Text × Text}
    (hp : p ∈ placeholders c.pathTokens)
    (hown : (Regex.read? false p.2).isSome = true) : StandsAlone p.2 := by
  obtain ⟨r, hr⟩ := Option.isSome_iff_exists.mp hown
  obtain ⟨a, -, -, hwhole⟩ := h.exists_pathArgument hp
  exact (standsAlone_of_read hr hwhole).1

theorem ReadFrom.mem_pathGroups (h : c.ReadFrom template action) {before after : List Token}
    {name : Text} {constraint : Option Text}
    (htokens : tokenize c.path = before ++ .placeholder name constraint :: after)
    (hgets : ArrivesAt false c.pathPattern.source
        ((Token.placeholder name constraint :: after).flatMap pathPiece ++ ")$".toList) ∨
      PlainLiterals before ∧ ∀ p ∈ placeholders before, (Regex.read? false p.2).isSome = true) :
    name ∈ c.pathPattern.regex.groupNames := by
  have hplaceholders : placeholders c.pathTokens =
      placeholders before ++ placeholders (.placeholder name constraint :: after) := by
    rw [h.placeholders_eq, htokens, placeholders_append]
  have hbefore : ∀ p ∈ placeholders before, p ∈ placeholders c.pathTokens :=
    fun p hp => hplaceholders ▸ List.mem_append_left _ hp
  have hangle : '>' ∉ name := by
    have hhere : (name, constraint.getD pathConstraint) ∈ placeholders c.pathTokens :=
      hplaceholders ▸ List.mem_append_right _ (mem_placeholders List.mem_cons_self)
    exact (h.isName_placeholder hhere).angle_not_mem
  obtain ⟨hread, hsource⟩ := Pattern.read_eq_ok h.pathPattern
  rcases hgets with harrives | ⟨hplain, hown⟩
  · rw [← hsource] at hread
    rw [List.flatMap_cons, List.append_assoc] at harrives
    exact mem_groupNames_of_arrivesAt hangle harrives hread
  · have hangles : ∀ p ∈ placeholders before, '>' ∉ p.1 :=
      fun p hp => (h.isName_placeholder (hbefore p hp)).angle_not_mem
    have halone : ∀ p ∈ placeholders before, StandsAlone p.2 :=
      fun p hp => h.standsAlone (hbefore p hp) (hown p hp)
    rw [htokens, List.flatMap_append, List.flatMap_cons] at hread
    obtain ⟨g, s, final, hs, hbody, ⟨hclosed, hregex⟩, -⟩ := reads_whole hread
    rw [List.append_assoc, List.append_assoc] at hbody
    obtain ⟨-, -, s', names', hs', h'⟩ := reads_tokens hplain hangles halone hs hbody
    exact hregex ▸ h'.mem_groupNames hangle (skip_of_modes hs'.modes _) hclosed

theorem ReadFrom.actionNames (h : c.ReadFrom template action) : c.actionArguments =
    (((tokenize action).filterMap Token.bareName?).filter
      (· ∈ c.arguments.map (·.name))).eraseDups := by
  rw [h.actionArguments, actionPieces_names_start]

theorem ReadFrom.mem_actionGroups (h : c.ReadFrom template action) {before after : List Token}
    {name : Text} (htokens : tokenize action = before ++ .placeholder name none :: after)
    (hfirst : Token.placeholder name none ∉ before) (hname : name ∈ c.actionArguments)
    (hgets : ArrivesAt true c.actionPattern.source
        ((actionPieces c.arguments (actionPieces c.arguments [] before).2
          (.placeholder name none :: after)).1 ++
          ")$".toList) ∨
      ∀ token ∈ before, ∀ a, namedArgument? c.arguments token = some a →
        ReadsAnyCase a.constraint) :
    name ∈ c.actionPattern.regex.groupNames := by
  rw [h.actionArguments, mem_actionPieces_names] at hname
  have hangles : ∀ n, Token.placeholder n none ∈ tokenize action → '>' ∉ n :=
    fun n hn => (isName_of_mem_tokenize hn).angle_not_mem
  have hcaptured : name ∉ (actionPieces c.arguments [] before).2 :=
    fun hmem => hfirst (mem_actionPieces_names.mp hmem).1
  obtain ⟨constraint, rest, hrest⟩ := exists_namedGroup hname.2 hcaptured after
  obtain ⟨hread, hsource⟩ := Pattern.read_eq_ok h.actionPattern
  rcases hgets with harrives | hreads
  · rw [← hsource] at hread
    rw [hrest, List.append_assoc] at harrives
    exact mem_groupNames_of_arrivesAt (hangles name hname.1) harrives hread
  · have hbefore : ∀ n, Token.placeholder n none ∈ before → '>' ∉ n :=
      fun n hn => hangles n (htokens ▸ List.mem_append_left _ hn)
    rw [htokens, actionPieces_append, hrest] at hread
    obtain ⟨g, s, final, hs, hbody, ⟨hclosed, hregex⟩, -⟩ := reads_whole hread
    rw [List.append_assoc, List.append_assoc] at hbody
    obtain ⟨s', names', hs', h'⟩ := reads_action hbefore hreads hs hbody
    exact hregex ▸ h'.mem_groupNames (hangles name hname.1) (skip_of_modes hs'.modes _) hclosed

theorem ReadFrom.argumentInvariants (h : c.ReadFrom template action) :
    c.ArgumentInvariants (template.takeWhile (· ≠ '/')) (template.dropWhile (· ≠ '/')) action := by
  have hraw : c.host.raw = template.takeWhile (· ≠ '/') := by rw [h.host, HostTemplate.read_raw]
  rw [← hraw, ← h.path]
  exact {
    nodup := h.nodup_names
    hosted := h.arguments_hosted
    hostless := h.arguments_hostless
    rendersPath := h.exists_rendersPath
    pathGroups := fun _ _ _ _ htokens hgets => h.mem_pathGroups htokens hgets
    actionNames := h.actionNames
    actionGroups :=
      fun _ _ _ htokens hfirst hname hgets => h.mem_actionGroups htokens hfirst hname hgets }

/-- Compiling establishes the invariants of the arguments, and it refuses a template without a
slash, with a name in its path that starts with a digit, or with a name that stands in it twice, in
the host or in the path. -/
theorem compile_establishes (template action : Text) :
    (∀ c, compile template action = .ok c →
      c.ArgumentInvariants (template.takeWhile (· ≠ '/')) (template.dropWhile (· ≠ '/')) action) ∧
    ('/' ∉ template ∨
        (∃ p ∈ placeholders (tokenize (template.dropWhile (· ≠ '/'))), ∃ d ∈ p.1.head?,
          d.isDigit = true) ∨
        ¬((HostTemplate.read (template.takeWhile (· ≠ '/'))).placeholder.toList ++
          (placeholders (tokenize (template.dropWhile (· ≠ '/')))).map (·.1)).Nodup →
      ∀ c, compile template action ≠ .ok c) := by
  refine ⟨fun c hc => (compile_readFrom hc).argumentInvariants, fun hbad c hc => ?_⟩
  have h := compile_readFrom hc
  rcases hbad with hslash | ⟨p, hp, d, hd, hdigit⟩ | htwice
  · exact hslash h.slash
  · have hname := h.isArgumentName_path p (h.path ▸ hp)
    rw [not_isArgumentName_of_isDigit hd hdigit] at hname
    cases hname
  · refine htwice ?_
    rw [← h.host, ← h.path, ← h.placeholders_eq, ← h.names_eq]
    exact h.nodup_names

end Compiled

/-- A host with a placeholder, a constraint, and literal text of the path that is a choice. -/
theorem compile_establishes_choice :
    ∃ c, compile "{tenant}.Example.com/v{<[0-9]+>major}/(a|b)/{id}/?".toList
      "{tenant}:{id}.{major}{id}{x}".toList = .ok c ∧
      (c.arguments.map (·.name)).Nodup ∧
      c.actionArguments = ["tenant".toList, "id".toList, "major".toList] ∧
      "major".toList ∈ c.pathPattern.regex.groupNames ∧
      "id".toList ∈ c.pathPattern.regex.groupNames ∧
      "major".toList ∈ c.actionPattern.regex.groupNames ∧
      ∀ c, compile "{id}.Example.com/{id}".toList "show".toList ≠ .ok c := by
  have hcompiles : (compile "{tenant}.Example.com/v{<[0-9]+>major}/(a|b)/{id}/?".toList
      "{tenant}:{id}.{major}{id}{x}".toList).toOption.any (fun c =>
        decide (c.pathPattern.source = "^(?:/v(?P<major>[0-9]+)/(a|b)/(?P<id>[^/]+)/?)$".toList ∧
          c.arguments.map (·.name) = ["tenant".toList, "major".toList, "id".toList] ∧
          ∀ token ∈ tokenize "{tenant}:{id}.".toList, ∀ a ∈ namedArgument? c.arguments token,
            ReadsAnyCase a.constraint)) =
        true := by decide +kernel
  obtain ⟨c, hc, hchecked⟩ := Except.exists_of_any hcompiles
  obtain ⟨hsource, hnames, hreads⟩ := of_decide_eq_true hchecked
  have hestablished := (compile_establishes _ _).1 c hc
  have hactions : c.actionArguments = ["tenant".toList, "id".toList, "major".toList] := by
    rw [hestablished.actionNames, hnames]
    decide +kernel
  refine ⟨c, hc, hestablished.nodup, hactions, ?_, ?_, ?_, ?_⟩
  · exact hestablished.pathGroups [.literal "/v".toList] _ (some "[0-9]+".toList)
      [.literal "/(a|b)/".toList, .placeholder "id".toList none,
        .literal "/?".toList] (by decide +kernel)
      (.inr (by decide))
  · refine hestablished.pathGroups
      [.literal "/v".toList, .placeholder "major".toList (some "[0-9]+".toList),
        .literal "/(a|b)/".toList] _ none
      [.literal "/?".toList] (by decide +kernel) (.inl ?_)
    rw [hsource]
    exact arrivesAt_of_any 15 (by decide +kernel)
  · exact hestablished.actionGroups (tokenize "{tenant}:{id}.".toList) _
      [.placeholder "id".toList none,
        .placeholder "x".toList none] (by decide +kernel) (by decide +kernel)
      (hactions ▸ by decide) (.inr hreads)
  · exact (compile_establishes _ _).2 (.inr (.inr (by decide +kernel)))

/-- A placeholder within brackets of the literal text is no group but a set of characters there, and
behind a constraint that leaves a comment open the placeholders of an action are part of the
comment. -/
theorem arguments_without_groups :
    (∃ c, compile "/[{x}]".toList "home".toList = .ok c ∧ c.arguments.map (·.name) = ["x".toList] ∧
      "x".toList ∉ c.pathPattern.regex.groupNames ∧ c.pathPattern.captures? "/P".toList = some []) ∧
    ∃ c, compile "/\x7b<a)(?x)#(>x\x7d{y}\n".toList "{x}{y}\n".toList = .ok c ∧
      c.actionArguments = ["x".toList, "y".toList] ∧
      "y".toList ∉ c.actionPattern.regex.groupNames := by
  have hpath : (compile "/[{x}]".toList "home".toList).toOption.any (fun c =>
      decide (c.arguments.map (·.name) = ["x".toList] ∧
        "x".toList ∉ c.pathPattern.regex.groupNames ∧
        c.pathPattern.captures? "/P".toList = some [])) = true := by decide +kernel
  have haction :
      (compile "/\x7b<a)(?x)#(>x\x7d{y}\n".toList "{x}{y}\n".toList).toOption.any (fun c =>
      decide (c.actionArguments = ["x".toList, "y".toList] ∧
        "y".toList ∉ c.actionPattern.regex.groupNames)) = true := by decide +kernel
  obtain ⟨c, hc, hchecked⟩ := Except.exists_of_any hpath
  obtain ⟨c', hc', hchecked'⟩ := Except.exists_of_any haction
  exact ⟨⟨c, hc, of_decide_eq_true hchecked⟩, c', hc', of_decide_eq_true hchecked'⟩

end CompiledTemplate

end Signpost
