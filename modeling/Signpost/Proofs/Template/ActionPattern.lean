import Signpost.Proofs.Template.PathPattern

/-!
The action pattern of a template. It is read piece by piece, without regard to case: the constraint
of an argument where the action names one, and the literal text otherwise, escaped where it has a
meaning of its own. So it matches an action when every constraint accepts the text that was put in
for its argument, and an action that names no argument stands for itself. Main statements:
`CompiledTemplate.isMatch_filled` and `CompiledTemplate.isMatch_plainAction`.
-/

namespace Signpost

namespace Regex

theorem isOperator_of_not_mem_metaChars {c : Char} (h : c ∉ metaChars) : isOperator c = false := by
  cases hc : isOperator c with
  | false => rfl
  | true =>
    have hsub : "\\.+*?()|[\x7b^$".toList ⊆ metaChars := by decide
    exact absurd (hsub (List.contains_iff_mem.mp hc)) h

/-- A sign behind a backslash stands for itself; only letters, digits and angles mean something
there. -/
theorem readEscape_sign {m : Modes} {c : Char} (hascii : c.toNat < 128)
    (hsign : c.isAlphanum = false) (hangle : c ≠ '<' ∧ c ≠ '>')
    (t : Text) : readEscape m (c :: t) = some (.literal c false, t) := by
  have hletter : ∀ d : Char, d.isAlphanum = true → c ≠ d := by
    rintro d hd rfl
    rw [hsign] at hd
    simp at hd
  have hdigit : ¬c.isDigit = true := by
    intro hd
    simp [Char.isAlphanum, hd] at hsign
  have hcode : ¬(c = 'x' ∨ c = 'u' ∨ c = 'U') := by
    simp [hletter 'x' rfl, hletter 'u' rfl, hletter 'U' rfl]
  have hproperty : ¬(c = 'p' ∨ c = 'P') := by
    simp [hletter 'p' rfl, hletter 'P' rfl]
  have hclass : ¬"dswDSW".toList.contains c = true := by
    simp [hletter 'd' rfl, hletter 's' rfl, hletter 'w' rfl, hletter 'D' rfl, hletter 'S' rfl,
      hletter 'W' rfl]
  simp only [readEscape, if_neg hdigit, if_neg hcode, if_neg hproperty, if_neg hclass]
  split
  case h_11 => exact absurd rfl hangle.1
  case h_12 => exact absurd rfl hangle.2
  case h_13 => simp [hascii, hsign]
  all_goals exact absurd rfl (hletter _ rfl)

theorem readPart_escaped {m : Modes} {c : Char} (hc : c ∈ metaChars) (t : Text) :
    readPart m '\\' (c :: t) = some (.piece (literalPiece m c), t) := by
  have hmeta : (metaChars.all fun d =>
      decide (d.toNat < 128 ∧ d.isAlphanum = false ∧ d ≠ '<' ∧ d ≠ '>')) = true := by
    decide
  obtain ⟨hascii, hsign, hangle⟩ := of_decide_eq_true (List.all_eq_true.mp hmeta c hc)
  simp [readPart, readEscape_sign hascii hsign hangle, atomPiece?]

theorem Reads.escaped {i : Bool} {rs : List Regex} {opened : List OpenGroup} {names : List Text}
    {s final : Reader} {t u : Text} (hs : s.InRow i rs opened names)
    (h : Reads s (escape t ++ u) final) :
    ∃ s', s'.InRow i (rs ++ t.map (literal i)) opened names ∧ Reads s' u final := by
  induction t generalizing s rs with
  | nil => exact ⟨s, by simpa using hs, h⟩
  | cons c t ih =>
    have hnext : ∃ s',
        s'.InRow i (rs ++ [literal i c]) opened names ∧ Reads s' (escape t ++ u) final := by
      by_cases hc : c ∈ metaChars
      · have htext : escape (c :: t) ++ u = '\\' :: c :: (escape t ++ u) := by simp [escape, hc]
        rw [htext] at h
        obtain ⟨s', happly, hrest⟩ := Reads.part hs.modes h (readPart_escaped hc _)
        obtain rfl := Option.some.inj happly
        exact ⟨_, hs.push _, hrest⟩
      · have htext : escape (c :: t) ++ u = c :: (escape t ++ u) := by simp [escape, hc]
        rw [htext] at h
        obtain ⟨s', happly, hrest⟩ :=
          Reads.part hs.modes h (readPart_literal (isOperator_of_not_mem_metaChars hc) _)
        obtain rfl := Option.some.inj happly
        exact ⟨_, hs.push _, hrest⟩
    obtain ⟨s₁, hs₁, h₁⟩ := hnext
    obtain ⟨s', hs', h'⟩ := ih hs₁ h₁
    exact ⟨s', by simpa using hs', h'⟩

theorem eq_toLower_or_toUpper (c : Char) : c = c.toLower ∨ c = c.toUpper := by
  unfold Char.toLower Char.toUpper
  split_ifs with hupper hlower
  · have h₁ := UInt32.le_iff_toNat_le.mp hupper.2
    have h₂ := UInt32.le_iff_toNat_le.mp hlower.1
    simp at h₁ h₂
    omega
  · exact .inr rfl
  · exact .inl rfl
  · exact .inl rfl

theorem mem_caseVariants (c : Char) : c ∈ Unicode.caseVariants c := by
  unfold Unicode.caseVariants
  split_ifs with hascii hk hs halpha
  · simp only [Bool.or_eq_true, beq_iff_eq] at hk
    rcases hk with rfl | rfl <;> simp
  · simp only [Bool.or_eq_true, beq_iff_eq] at hs
    rcases hs with rfl | rfl <;> simp
  · rcases eq_toLower_or_toUpper c with h | h
    · exact List.mem_cons.mpr (.inl h)
    · exact List.mem_cons_of_mem _ (List.mem_singleton.mpr h)
  · exact List.mem_singleton.mpr rfl
  · exact List.mem_cons_self

/-- Literal text that ignores case passes over the texts of variants of its characters. -/
theorem ways_variants {t : Text} {p : Place} {h : Hit} :
    Ways (t.map (literal true)) p h ↔
      ∃ v, List.Forall₂ (fun c d => c ∈ Unicode.caseVariants d) t v ∧ p.Passes v h.place ∧
        h.captures = [] := by
  have hsets : t.map (literal true) = (t.map fun c => CharSet.variants (.single c)).map set := by
    rw [List.map_map]
    rfl
  have hmem : ∀ c d : Char,
      (CharSet.variants (.single c)).mem d = true ↔ c ∈ Unicode.caseVariants d := by
    intro c d
    simp [CharSet.mem, List.any_eq_true]
  rw [hsets, ways_sets]
  simp only [List.forall₂_map_left_iff, hmem]

/-- Wherever the text stands, there is a way over it through these expressions in a row. -/
def Admits (rs : List Regex) (v : Text) : Prop :=
  ∀ p q, p.Passes v q → ∃ h, Ways rs p h ∧ h.place = q

variable {r : Regex} {rs ss : List Regex} {v w : Text}

theorem Admits.append (hr : Admits rs v) (hs : Admits ss w) : Admits (rs ++ ss) (v ++ w) := by
  intro p q hq
  obtain ⟨m, hm, hrest⟩ := Place.Passes.split hq
  obtain ⟨k, hk, rfl⟩ := hr p m hm
  obtain ⟨l, hl, rfl⟩ := hs k.place q hrest
  exact ⟨k.extend l, ways_append.mpr ⟨k, l, hk, hl, rfl⟩, rfl⟩

theorem admits_literals (t : Text) : Admits (t.map (literal true)) t :=
  fun _ q hq => ⟨⟨q, []⟩, ways_variants.mpr ⟨t, List.forall₂_same.mpr fun c _ =>
    mem_caseVariants c, hq, rfl⟩, rfl⟩

theorem admits_singleton (hfree : r.lookFree = true) (hmatch : r.anchored.isMatch v = true) :
    Admits [r] v := by
  intro p q hq
  obtain ⟨h, hway, rfl⟩ := way_of_isMatch hfree hmatch hq
  exact ⟨h, ways_singleton.mpr hway, rfl⟩

theorem Admits.grouped (h : Admits [r] v) (name : Text) : Admits [.group name r] v := by
  intro p q hq
  obtain ⟨k, hk, rfl⟩ := h p q hq
  exact ⟨_, ways_singleton.mpr ⟨k, ways_singleton.mp hk, rfl⟩, rfl⟩

theorem Admits.isMatch (h : Admits rs v) : (row rs).anchored.isMatch v = true := by
  obtain ⟨k, hk, hplace⟩ := h _ _ (Place.passes_finish v)
  exact isMatch_anchored_iff.mpr ⟨k, way_row.mpr hk, congrArg Place.rest hplace⟩

end Regex

namespace CompiledTemplate

open Regex

/-- The constraint is a pattern on its own that does not look around, and it accepts the text when
case does not matter. -/
structure AcceptsAnyCase (constraint v : Text) : Prop where
  alone : ∃ r, Regex.read? true constraint = some r ∧ r.lookFree = true
  accepts : ∃ r, Regex.read? true (Pattern.whole constraint) = some r ∧ r.isMatch v = true

instance (constraint v : Text) : Decidable (AcceptsAnyCase constraint v) :=
  decidable_of_iff ((Regex.read? true constraint).any Regex.lookFree = true ∧
      (Regex.read? true (Pattern.whole constraint)).any (fun r => r.isMatch v) = true) <| by
    rw [Option.any_eq_true, Option.any_eq_true]
    exact ⟨fun h => ⟨h.1, h.2⟩, fun h => ⟨h.alone, h.accepts⟩⟩

def anyCaseRegex (constraint : Text) : Regex :=
  (Regex.read? true constraint).getD .empty

/-- The constraint is a pattern when case does not matter, on its own and for a whole text. -/
structure ReadsAnyCase (constraint : Text) : Prop where
  alone : (Regex.read? true constraint).isSome = true
  whole : (Regex.read? true (Pattern.whole constraint)).isSome = true

instance (constraint : Text) : Decidable (ReadsAnyCase constraint) :=
  decidable_of_iff ((Regex.read? true constraint).isSome = true ∧
      (Regex.read? true (Pattern.whole constraint)).isSome = true)
    ⟨fun h => ⟨h.1, h.2⟩, fun h => ⟨h.alone, h.whole⟩⟩

theorem ReadsAnyCase.exists_nests {constraint : Text} (h : ReadsAnyCase constraint) :
    ∃ inner,
      Nests true constraint inner ∧ inner.branches.close.regex = anyCaseRegex constraint := by
  obtain ⟨r, hr⟩ := Option.isSome_iff_exists.mp h.alone
  obtain ⟨whole, hwhole⟩ := Option.isSome_iff_exists.mp h.whole
  obtain ⟨inner, hinner, hregex, -⟩ := nests_of_whole hr hwhole
  exact ⟨inner, hinner, by rw [hregex, anyCaseRegex, hr, Option.getD_some]⟩

theorem AcceptsAnyCase.reads {constraint v : Text} (h : AcceptsAnyCase constraint v) :
    ReadsAnyCase constraint := by
  obtain ⟨⟨r, hr, -⟩, whole, hwhole, -⟩ := h
  exact ⟨Option.isSome_of_eq_some hr, Option.isSome_of_eq_some hwhole⟩

theorem AcceptsAnyCase.admits {constraint v : Text} (h : AcceptsAnyCase constraint v) :
    Admits [anyCaseRegex constraint] v := by
  obtain ⟨⟨r, hr, hfree⟩, whole, hwhole, hmatch⟩ := h
  obtain ⟨-, -, -, rfl⟩ := nests_of_whole hr hwhole
  rw [anyCaseRegex, hr, Option.getD_some]
  exact admits_singleton hfree hmatch

theorem namedArgument?_eq_some {arguments : List Argument} {token : Token} {a : Argument}
    (h : namedArgument? arguments token = some a) :
    a ∈ arguments ∧ token = .placeholder a.name none := by
  unfold namedArgument? at h
  split at h
  · have hname := List.find?_some h
    exact ⟨List.mem_of_find?_eq_some h, by rw [eq_of_beq hname]⟩
  · cases h

section Pieces

variable {arguments : List Argument} {tokens : List Token} {name : Text}

theorem actionPieces_append (captured : List Text) (before after : List Token) :
    actionPieces arguments captured (before ++ after) =
      ((actionPieces arguments captured before).1 ++
          (actionPieces arguments (actionPieces arguments captured before).2 after).1,
        (actionPieces arguments (actionPieces arguments captured before).2 after).2) := by
  induction before generalizing captured with
  | nil => rfl
  | cons token before ih =>
    cases hnamed : namedArgument? arguments token with
    | none => simp only [List.cons_append, actionPieces, hnamed, ih, List.append_assoc]
    | some a =>
      simp only [List.cons_append, actionPieces, hnamed]
      split_ifs <;> simp only [ih, List.append_assoc]

/-- The names that tokens of an action have in common with arguments, as often as they stand
there. -/
def namedIn (arguments : List Argument) (tokens : List Token) : List Text :=
  tokens.filterMap fun token => (namedArgument? arguments token).map (·.name)

theorem mem_names_of_mem_namedIn (h : name ∈ namedIn arguments tokens) :
    name ∈ arguments.map (·.name) := by
  obtain ⟨token, -, hname⟩ := List.mem_filterMap.mp h
  obtain ⟨a, ha, rfl⟩ := Option.map_eq_some_iff.mp hname
  exact List.mem_map_of_mem (namedArgument?_eq_some ha).1

/-- An action captures each argument that it names, where it names it first. -/
theorem actionPieces_names (captured : List Text) (tokens : List Token) :
    (actionPieces arguments captured tokens).2 =
      captured ++ ((namedIn arguments tokens).filter (· ∉ captured)).eraseDups := by
  induction tokens generalizing captured with
  | nil => simp [actionPieces, namedIn]
  | cons token tokens ih =>
    cases hnamed : namedArgument? arguments token with
    | none =>
      have hrest : namedIn arguments (token :: tokens) = namedIn arguments tokens :=
        List.filterMap_cons_none (by rw [hnamed, Option.map_none])
      simp only [actionPieces, hnamed, ih, hrest]
    | some a =>
      have hrest : namedIn arguments (token :: tokens) = a.name :: namedIn arguments tokens :=
        List.filterMap_cons_some (by rw [hnamed, Option.map_some])
      simp only [actionPieces, hnamed, hrest]
      split_ifs with hcaptured
      · have hdropped : (a.name :: namedIn arguments tokens).filter (· ∉ captured) =
            (namedIn arguments tokens).filter (· ∉ captured) :=
          List.filter_cons_of_neg (by simpa using hcaptured)
        rw [hdropped]
        exact ih captured
      · have hkept : (a.name :: namedIn arguments tokens).filter (· ∉ captured) =
            a.name :: (namedIn arguments tokens).filter (· ∉ captured) :=
          List.filter_cons_of_pos (by simpa using hcaptured)
        have hlater : (namedIn arguments tokens).filter (· ∉ captured ++ [a.name]) =
            ((namedIn arguments tokens).filter (· ∉ captured)).filter fun n => !n == a.name := by
          rw [List.filter_filter]
          refine List.filter_congr fun n _ => ?_
          by_cases hn : n = a.name <;> simp [hn]
        rw [hkept, List.eraseDups_cons, ← hlater]
        exact (ih _).trans (List.append_assoc _ _ _)

/-- An action gives no argument that its template does not have. -/
theorem mem_names_of_actionPieces (h : name ∈ (actionPieces arguments [] tokens).2) :
    name ∈ arguments.map (·.name) := by
  rw [actionPieces_names, List.nil_append, List.mem_eraseDups] at h
  exact mem_names_of_mem_namedIn (List.mem_of_mem_filter h)

end Pieces

/-- A text that goes in for a token is one that the piece of the token in the action pattern
matches: of a token that names an argument a text that the constraint accepts, and of any other
token its own. -/
def Suits (arguments : List Argument) (token : Token) (v : Text) : Prop :=
  match namedArgument? arguments token with
  | some a => AcceptsAnyCase a.constraint v
  | none => v = token.text

/-- What the tokens of an action are in its pattern, behind tokens that have captured arguments. -/
def actionRow (arguments : List Argument) : (captured : List Text) → List Token → List Regex
  | _, [] => []
  | captured, token :: tokens =>
    match namedArgument? arguments token with
    | some a =>
      if captured.contains a.name then
        anyCaseRegex a.constraint :: actionRow arguments captured tokens
      else
        .group a.name (anyCaseRegex a.constraint) ::
          actionRow arguments (captured ++ [a.name]) tokens
    | none => token.text.map (literal true) ++ actionRow arguments captured tokens

/-- A reader goes through the tokens of an action one by one. -/
theorem reads_action {arguments : List Argument} {tokens : List Token}
    {captured names : List Text} {t : Text} {rs : List Regex} {opened : List OpenGroup}
    {s final : Reader} (hnames : ∀ name, Token.placeholder name none ∈ tokens → '>' ∉ name)
    (hreads : ∀ token ∈ tokens, ∀ a,
      namedArgument? arguments token = some a → ReadsAnyCase a.constraint)
    (hs : s.InRow true rs opened names)
    (h : Reads s ((actionPieces arguments captured tokens).1 ++ t) final) :
    ∃ s' names', s'.InRow true (rs ++ actionRow arguments captured tokens) opened names' ∧
      Reads s' t final := by
  induction tokens generalizing captured names rs s with
  | nil => exact ⟨s, names, by rwa [actionRow, List.append_nil], h⟩
  | cons token tokens ih =>
    have hnames' : ∀ name, Token.placeholder name none ∈ tokens → '>' ∉ name :=
      fun name hname => hnames name (List.mem_cons_of_mem _ hname)
    obtain ⟨hfirst, hreads'⟩ := List.forall_mem_cons.mp hreads
    cases hnamed : namedArgument? arguments token with
    | none =>
      simp only [actionPieces, actionRow, hnamed, List.append_assoc] at h ⊢
      obtain ⟨s₁, hs₁, h₁⟩ := Reads.escaped hs h
      rw [← List.append_assoc]
      exact ih hnames' hreads' hs₁ h₁
    | some a =>
      simp only [actionPieces, actionRow, hnamed] at h ⊢
      obtain ⟨inner, hinner, hregex⟩ := (hfirst a hnamed).exists_nests
      split_ifs at h ⊢ with hcaptured
      · rw [List.append_assoc] at h
        obtain ⟨s₁, names₁, hs₁, h₁⟩ := Reads.plainGroup hs hinner h
        rw [hregex] at hs₁
        rw [List.append_cons]
        exact ih hnames' hreads' hs₁ h₁
      · rw [List.append_assoc] at h
        obtain ⟨-, htoken⟩ := namedArgument?_eq_some hnamed
        have hangle : '>' ∉ a.name := hnames a.name (htoken ▸ List.mem_cons_self)
        obtain ⟨-, -, s₁, hs₁, h₁⟩ := Reads.group hs hangle hinner h
        rw [hregex] at hs₁
        rw [List.append_cons]
        exact ih hnames' hreads' hs₁ h₁

theorem admits_actionRow {arguments : List Argument} {f : Token → Text} {tokens : List Token}
    {captured : List Text} (hsuits : ∀ token ∈ tokens, Suits arguments token (f token)) :
    Admits (actionRow arguments captured tokens) (tokens.flatMap f) := by
  induction tokens generalizing captured with
  | nil => exact admits_literals []
  | cons token tokens ih =>
    obtain ⟨hfirst, hsuits'⟩ := List.forall_mem_cons.mp hsuits
    unfold Suits at hfirst
    cases hnamed : namedArgument? arguments token with
    | none =>
      simp only [hnamed] at hfirst
      simp only [actionRow, hnamed]
      rw [List.flatMap_cons, hfirst]
      exact (admits_literals token.text).append (ih hsuits')
    | some a =>
      simp only [hnamed] at hfirst
      simp only [actionRow, hnamed]
      split_ifs with hcaptured
      · exact hfirst.admits.append (ih hsuits')
      · exact (hfirst.admits.grouped a.name).append (ih hsuits')

/-- An action filled with texts that suit its tokens is one that its pattern matches. -/
theorem isMatch_filled {action : Text} {arguments : List Argument} {p : Pattern} {f : Token → Text}
    (hsuits : ∀ token ∈ tokenize action, Suits arguments token (f token))
    (hp : Pattern.read true (Pattern.whole (actionPieces arguments [] (tokenize action)).1) =
      .ok p) :
    p.isMatch ((tokenize action).flatMap f) = true := by
  obtain ⟨g, s, final, hs, hbody, -, hend⟩ := reads_whole (Pattern.read_eq_ok hp).1
  have hnames : ∀ name, Token.placeholder name none ∈ tokenize action → '>' ∉ name :=
    fun name hname => (isName_of_mem_tokenize hname).angle_not_mem
  have hreads : ∀ token ∈ tokenize action, ∀ a,
      namedArgument? arguments token = some a → ReadsAnyCase a.constraint := by
    intro token htoken a hnamed
    have hsuit := hsuits token htoken
    simp only [Suits, hnamed] at hsuit
    exact hsuit.reads
  obtain ⟨s', names', hs', h'⟩ := reads_action hnames hreads hs hbody
  unfold Pattern.isMatch
  rw [hend s' hs'.opened h', hs'.close_regex]
  exact (admits_actionRow hsuits).isMatch

/-- No placeholder without a constraint of its own names an argument. -/
def NamesNone (arguments : List Argument) (tokens : List Token) : Prop :=
  ∀ name, Token.placeholder name none ∈ tokens → ∀ a ∈ arguments, a.name ≠ name

instance (arguments : List Argument) (tokens : List Token) :
    Decidable (NamesNone arguments tokens) :=
  decidable_of_iff (∀ a ∈ arguments, Token.placeholder a.name none ∉ tokens) <| by
    constructor
    · rintro h name hname a ha rfl
      exact h a ha hname
    · exact fun h a ha hname => h a.name hname a ha rfl

theorem NamesNone.namedArgument?_eq_none {arguments : List Argument} {tokens : List Token}
    {token : Token} (h : NamesNone arguments tokens)
    (htoken : token ∈ tokens) : namedArgument? arguments token = none := by
  rw [Option.eq_none_iff_forall_ne_some]
  intro a hnamed
  obtain ⟨ha, rfl⟩ := namedArgument?_eq_some hnamed
  exact h a.name htoken a ha rfl

theorem NamesNone.actionPieces_names {arguments : List Argument} {tokens : List Token}
    (h : NamesNone arguments tokens)
    (captured : List Text) : (actionPieces arguments captured tokens).2 = captured := by
  have hnone : namedIn arguments tokens = [] :=
    List.filterMap_eq_nil_iff.mpr fun token htoken => by rw [h.namedArgument?_eq_none htoken,
      Option.map_none]
  rw [CompiledTemplate.actionPieces_names, hnone, List.filter_nil, List.eraseDups_nil,
    List.append_nil]

/-- The pattern of such an action is its whole text, escaped. -/
theorem NamesNone.actionPieces_source {arguments : List Argument} {tokens : List Token}
    (h : NamesNone arguments tokens) (captured : List Text) :
    (actionPieces arguments captured tokens).1 = escape (tokens.flatMap Token.text) := by
  induction tokens with
  | nil => rfl
  | cons token tokens ih =>
    have hsource := ih fun name hname => h name (List.mem_cons_of_mem _ hname)
    simp only [actionPieces, h.namedArgument?_eq_none List.mem_cons_self, hsource]
    exact List.flatMap_append.symm

/-- An action that names no argument of its template is one that its pattern matches. -/
theorem isMatch_plainAction {action : Text} {arguments : List Argument} {p : Pattern}
    (h : NamesNone arguments (tokenize action))
    (hp : Pattern.read true (Pattern.whole (actionPieces arguments [] (tokenize action)).1) =
      .ok p) :
    p.isMatch action = true := by
  have hsuits : ∀ token ∈ tokenize action, Suits arguments token token.text := by
    intro token htoken
    unfold Suits
    rw [h.namedArgument?_eq_none htoken]
  have hfilled := isMatch_filled hsuits hp
  rwa [flatMap_text_tokenize] at hfilled

end CompiledTemplate

end Signpost
