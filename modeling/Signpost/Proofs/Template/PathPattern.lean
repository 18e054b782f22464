import Signpost.Proofs.Regex.Row
import Signpost.Proofs.Template.Tokens

/-!
The path pattern of a template whose literal text is plain and whose constraints are patterns on
their own. It is read as the row of its tokens, and so a path matches just when it is the template
with the captured values filled in. Main statements: `CompiledTemplate.pathPattern_row`,
`CompiledTemplate.ways_tokens` and `CompiledTemplate.exists_ways`.
-/

namespace Signpost

/-- The token has no literal text with a meaning of its own in patterns. -/
def Token.isPlain : Token → Bool
  | .literal t => t.all fun c => !Regex.isOperator c
  | .placeholder _ _ => true

namespace CompiledTemplate

open Regex

def ownRegex (constraint : Text) : Regex :=
  (Regex.read? false constraint).getD .empty

def tokenRow : Token → List Regex
  | .literal t => t.map (Regex.literal false)
  | .placeholder name constraint => [.group name (ownRegex (constraint.getD pathConstraint))]

/-- The expressions of a slash that may be left out, if there is one. -/
def endingRow (ending : Text) : List Regex :=
  if ending = [] then [] else [.repeated (Regex.literal false '/') 0 (some 1) true]

/-- The literal text of the tokens has no character with a meaning of its own in patterns. -/
def PlainLiterals (tokens : List Token) : Prop :=
  ∀ t, Token.literal t ∈ tokens → ∀ c ∈ t, Regex.isOperator c = false

instance (tokens : List Token) : Decidable (PlainLiterals tokens) :=
  decidable_of_iff (tokens.all Token.isPlain = true) <| by
    rw [List.all_eq_true]
    constructor
    · intro h t ht c hc
      simpa using List.all_eq_true.mp (h _ ht) c hc
    · intro h token htoken
      cases token with
      | literal t => exact List.all_eq_true.mpr fun c hc => by simpa using h t htoken c hc
      | placeholder name constraint => rfl

/-- The constraint is a pattern on its own, read the same way between parentheses. -/
def StandsAlone (constraint : Text) : Prop :=
  ∃ inner, Regex.Nests false constraint inner ∧ inner.branches.close.regex = ownRegex constraint

/-- No placeholder shares its name with a later one, or with a group in the constraint of a later
one. -/
def DistinctGroups (ps : List (Text × Text)) : Prop :=
  ps.Pairwise fun p q => p.1 ∉ (Regex.group q.1 (ownRegex q.2)).groupNames

/-- A reader goes through the tokens of a path one by one, and finds no name twice. -/
theorem reads_tokens {tokens : List Token} {t : Text} {rs : List Regex} {opened : List OpenGroup}
    {names : List Text} {s final : Reader} (hplain : PlainLiterals tokens)
    (hnames : ∀ p ∈ placeholders tokens, '>' ∉ p.1)
    (halone : ∀ p ∈ placeholders tokens, StandsAlone p.2)
    (hs : s.InRow false rs opened names) (h : Reads s (tokens.flatMap pathPiece ++ t) final) :
    DistinctGroups (placeholders tokens) ∧
      (∀ n ∈ names, ∀ p ∈ placeholders tokens, n ∉ (Regex.group p.1 (ownRegex p.2)).groupNames) ∧
      ∃ s' names',
        s'.InRow false (rs ++ tokens.flatMap tokenRow) opened names' ∧ Reads s' t final := by
  induction tokens generalizing s rs names with
  | nil =>
    refine ⟨.nil, by simp [placeholders], s, names, ?_, h⟩
    simpa using hs
  | cons token tokens ih =>
    have hplain' : PlainLiterals tokens := fun t ht => hplain t (List.mem_cons_of_mem _ ht)
    rw [List.flatMap_cons, List.append_assoc] at h
    cases token with
    | literal l =>
      obtain ⟨s₁, hs₁, h₁⟩ := Reads.literals hs (hplain l List.mem_cons_self) h
      obtain ⟨hdistinct, hfresh, s', names', hs', h'⟩ := ih hplain' hnames halone hs₁ h₁
      refine ⟨hdistinct, hfresh, s', names', ?_, h'⟩
      simpa [tokenRow] using hs'
    | placeholder name constraint =>
      obtain ⟨inner, hinner, hregex⟩ := halone _ List.mem_cons_self
      obtain ⟨hname, hinnerNames, s₁, hs₁, h₁⟩ :=
        Reads.group hs (hnames _ List.mem_cons_self) hinner h
      obtain ⟨hdistinct, hfresh, s', names', hs', h'⟩ := ih hplain'
        (fun p hp => hnames p (List.mem_cons_of_mem _ hp))
        (fun p hp => halone p (List.mem_cons_of_mem _ hp)) hs₁ h₁
      have hcovered : ∀ n ∈ (ownRegex (constraint.getD pathConstraint)).groupNames,
          n ∈ inner.names := by
        rw [← hregex]
        exact hinner.covered.here.close
      refine ⟨.cons (fun p hp => hfresh name (by simp) p hp) hdistinct, ?_, s', names', ?_, h'⟩
      · intro n hn p hp
        rcases List.mem_cons.mp hp with rfl | hp
        · intro hmem
          rcases List.mem_cons.mp hmem with rfl | hmem
          · exact hname hn
          · exact hinnerNames n (hcovered n hmem) (List.mem_cons_of_mem _ hn)
        · exact hfresh n (by simp [hn]) p hp
      · rw [hregex] at hs'
        simpa [tokenRow] using hs'

/-- The path pattern of such a template is the row of its tokens between anchors. -/
theorem pathPattern_row {tokens : List Token} {ending : Text} {r : Regex}
    (hplain : PlainLiterals tokens) (hending : ending = [] ∨ ending = optionalSlash)
    (hnames : ∀ p ∈ placeholders tokens, '>' ∉ p.1)
    (halone : ∀ p ∈ placeholders tokens, StandsAlone p.2)
    (h : Regex.read? false (Pattern.whole (tokens.flatMap pathPiece ++ ending)) = some r) :
    r = (Regex.row (tokens.flatMap tokenRow ++ endingRow ending)).anchored ∧
      DistinctGroups (placeholders tokens) := by
  obtain ⟨g, s, final, hs, hbody, -, hend⟩ := reads_whole h
  rw [List.append_assoc] at hbody
  obtain ⟨hdistinct, -, s₁, names₁, hs₁, h₁⟩ := reads_tokens hplain hnames halone hs hbody
  rcases hending with rfl | rfl
  · refine ⟨?_, hdistinct⟩
    rw [hend s₁ hs₁.opened h₁, hs₁.close_regex, endingRow, if_pos rfl, List.nil_append,
      List.append_nil]
  · obtain ⟨s₂, hs₂, h₂⟩ := Reads.optional hs₁ (by decide) (by decide) h₁
    refine ⟨?_, hdistinct⟩
    rw [hend s₂ hs₂.opened h₂, hs₂.close_regex]
    rfl

/-- The tokens of a path with the values of their placeholders. -/
def written (value : Text → Option Text) (tokens : List Token) : Text :=
  tokens.flatMap fun token =>
    match token with
    | .literal t => t
    | .placeholder name _ => (value name).getD []

/-- Somewhere the constraint, on its own, can take this piece. -/
def Takes (constraint value : Text) : Prop :=
  ∃ p h, (ownRegex constraint).Way p h ∧ p.Passes value h.place

@[simp]
theorem mem_single {c d : Char} : (CharSet.single c).mem d = true ↔ d = c := by
  simp only [CharSet.single, CharSet.mem, Bool.and_eq_true, decide_eq_true_eq]
  exact ⟨fun h => Char.le_antisymm h.2 h.1, fun h => h ▸ ⟨Char.le_refl _, Char.le_refl _⟩⟩

theorem ways_literals {t : Text} {p : Place} {h : Hit} :
    Regex.Ways (t.map (Regex.literal false)) p h ↔ p.Passes t h.place ∧ h.captures = [] := by
  have hsets : t.map (Regex.literal false) = (t.map CharSet.single).map .set := by
    rw [List.map_map]
    rfl
  rw [hsets, Regex.ways_sets]
  simp only [List.forall₂_map_left_iff, mem_single]
  constructor
  · rintro ⟨v, hv, hpasses, hnone⟩
    obtain rfl : t = v := List.forall₂_eq_eq_eq ▸ hv.imp fun _ _ => Eq.symm
    exact ⟨hpasses, hnone⟩
  · exact fun ⟨hpasses, hnone⟩ => ⟨t, List.forall₂_refl t, hpasses, hnone⟩

theorem way_literal {c : Char} {p : Place} {h : Hit} :
    (Regex.literal false c).Way p h ↔ p.Passes [c] h.place ∧ h.captures = [] :=
  Regex.ways_singleton.symm.trans (ways_literals (t := [c]))

theorem get?_append (later earlier : Captures) (name : Text) :
    Captures.get? (later ++ earlier) name = (later.get? name).or (earlier.get? name) := by
  simp only [Captures.get?, List.find?_append]
  cases List.find? (fun x => x.1 == name) later <;> rfl

theorem get?_eq_none {taken : Captures} {name : Text} (h : ∀ e ∈ taken, e.1 ≠ name) :
    taken.get? name = none := by
  simpa [Captures.get?] using h

theorem mem_of_get? {taken : Captures} {name value : Text} (h : taken.get? name = some value) :
    (name, value) ∈ taken := by
  obtain ⟨⟨n, v⟩, hfind, rfl⟩ := Option.map_eq_some_iff.mp h
  have hn : n = name := by simpa using List.find?_some hfind
  exact hn ▸ List.mem_of_find?_eq_some hfind

theorem written_congr {a b : Text → Option Text} {tokens : List Token}
    (h : ∀ q ∈ placeholders tokens, a q.1 = b q.1) : written a tokens = written b tokens := by
  induction tokens with
  | nil => rfl
  | cons token tokens ih =>
    cases token with
    | literal t =>
      exact congrArg (t ++ ·) (ih h)
    | placeholder name constraint =>
      have hname := h _ List.mem_cons_self
      have hrest := ih fun q hq => h q (List.mem_cons_of_mem _ hq)
      show (a name).getD [] ++ written a tokens = (b name).getD [] ++ written b tokens
      rw [hname, hrest]

theorem mem_written {value : Text → Option Text} {tokens : List Token} {q : Text × Text}
    {v : Text} {c : Char} (hq : q ∈ placeholders tokens) (hv : value q.1 = some v)
    (hc : c ∈ v) : c ∈ written value tokens := by
  obtain ⟨constraint, htoken, -⟩ := exists_mem_of_mem_placeholders hq
  refine List.mem_flatMap.mpr ⟨_, htoken, ?_⟩
  dsimp only
  rw [hv]
  exact hc

theorem name_mem_of_ways {tokens : List Token} {p : Place} {h : Hit}
    (hways : Regex.Ways (tokens.flatMap tokenRow) p h) :
    ∀ e ∈ h.captures, ∃ q ∈ placeholders tokens,
      e.1 ∈ (Regex.group q.1 (ownRegex q.2)).groupNames := by
  induction tokens generalizing p h with
  | nil =>
    obtain rfl : h = ⟨p, []⟩ := hways
    simp
  | cons token tokens ih =>
    rw [List.flatMap_cons] at hways
    obtain ⟨k, l, hk, hl, rfl⟩ := Regex.ways_append.mp hways
    intro e he
    cases token with
    | literal t =>
      obtain ⟨-, hnone⟩ := ways_literals.mp hk
      refine ih hl e ?_
      simpa [Hit.extend, hnone] using he
    | placeholder name constraint =>
      rcases List.mem_append.mp he with hlater | hfirst
      · obtain ⟨q, hq, hmem⟩ := ih hl e hlater
        exact ⟨q, List.mem_cons_of_mem _ hq, hmem⟩
      · exact ⟨_, List.mem_cons_self, (Regex.ways_singleton.mp hk).name_mem e hfirst⟩

/-- The ways to match the tokens of a path: they pass over the tokens with the captured pieces
filled in, and every piece is one that the constraint of its placeholder takes. -/
theorem ways_tokens {tokens : List Token} {p : Place} {h : Hit}
    (hdistinct : DistinctGroups (placeholders tokens))
    (hways : Regex.Ways (tokens.flatMap tokenRow) p h) :
    p.Passes (written h.captures.get? tokens) h.place ∧
      ∀ q ∈ placeholders tokens, ∃ value, h.captures.get? q.1 = some value ∧ Takes q.2 value := by
  induction tokens generalizing p h with
  | nil =>
    obtain rfl : h = ⟨p, []⟩ := hways
    exact ⟨.refl p, by simp [placeholders]⟩
  | cons token tokens ih =>
    rw [List.flatMap_cons] at hways
    obtain ⟨k, l, hk, hl, rfl⟩ := Regex.ways_append.mp hways
    cases token with
    | literal t =>
      obtain ⟨hpasses, hnone⟩ := ways_literals.mp hk
      obtain ⟨hrest, htaken⟩ := ih hdistinct hl
      have hcaptures : (k.extend l).captures = l.captures := by simp [Hit.extend, hnone]
      rw [hcaptures]
      exact ⟨hpasses.trans hrest, htaken⟩
    | placeholder name constraint =>
      obtain ⟨hfirst, hdistinct'⟩ := List.pairwise_cons.mp hdistinct
      obtain ⟨hrest, htaken⟩ := ih hdistinct' hl
      obtain ⟨k, hkway, rfl⟩ := Regex.ways_singleton.mp hk
      obtain ⟨v, hv⟩ := (ownRegex (constraint.getD pathConstraint)).way_forward p k hkway
      have hbetween : Regex.between p k.place = v := hv.between_eq
      -- A later capture goes over an earlier one of its name, and none of the later ones has this
      -- name.
      have hlater : l.captures.get? name = none := by
        refine get?_eq_none fun e he heq => ?_
        obtain ⟨q, hq, hmem⟩ := name_mem_of_ways hl e he
        exact hfirst q hq (heq ▸ hmem)
      have hhere : Captures.get? (l.captures ++ (name, Regex.between p k.place) :: k.captures)
          name = some v := by
        rw [get?_append, hlater, Option.none_or, hbetween]
        simp [Captures.get?]
      have hsame : ∀ q ∈ placeholders tokens,
          Captures.get? (l.captures ++ (name, Regex.between p k.place) :: k.captures) q.1 =
            l.captures.get? q.1 := by
        intro q hq
        obtain ⟨value, hvalue, -⟩ := htaken q hq
        rw [get?_append, hvalue, Option.some_or]
      constructor
      · show p.Passes ((Captures.get? (l.captures ++ (name, Regex.between p k.place) :: k.captures)
          name).getD [] ++
          written (Captures.get? (l.captures ++ (name, Regex.between p k.place) :: k.captures))
            tokens) l.place
        rw [hhere, written_congr hsame]
        exact hv.trans hrest
      · show ∀ q ∈ placeholders (.placeholder name constraint :: tokens), ∃ value,
          Captures.get? (l.captures ++ (name, Regex.between p k.place) :: k.captures) q.1 =
            some value ∧ Takes q.2 value
        intro q hq
        rcases List.mem_cons.mp hq with rfl | hq
        · exact ⟨v, hhere, p, k, hkway, hv⟩
        · rw [hsame q hq]
          exact htaken q hq

/-- Values that the constraints accept give a way to match the tokens. -/
theorem exists_ways {value : Text → Option Text} {tokens : List Token} {p q : Place}
    (hvalues : ∀ x ∈ placeholders tokens, ∃ v, value x.1 = some v ∧
      (ownRegex x.2).lookFree = true ∧ (ownRegex x.2).anchored.isMatch v = true)
    (hq : p.Passes (written value tokens) q) :
    ∃ h, Regex.Ways (tokens.flatMap tokenRow) p h ∧ h.place = q := by
  induction tokens generalizing p with
  | nil => exact ⟨⟨p, []⟩, rfl, hq.eq_of_nil.symm⟩
  | cons token tokens ih =>
    obtain ⟨m, hm, hrest⟩ := Place.Passes.split hq
    cases token with
    | literal t =>
      obtain ⟨l, hl, rfl⟩ := ih hvalues hrest
      exact ⟨_, Regex.ways_append.mpr ⟨⟨m, []⟩, l, ways_literals.mpr ⟨hm, rfl⟩, hl, rfl⟩, rfl⟩
    | placeholder name constraint =>
      obtain ⟨l, hl, rfl⟩ := ih (fun x hx => hvalues x (List.mem_cons_of_mem _ hx)) hrest
      obtain ⟨v, hv, hfree, hmatch⟩ := hvalues _ List.mem_cons_self
      have hpiece : p.Passes v m := by
        have hm' : p.Passes ((value name).getD []) m := hm
        rwa [hv] at hm'
      obtain ⟨k, hk, rfl⟩ := Regex.way_of_isMatch hfree hmatch hpiece
      exact ⟨_, Regex.ways_append.mpr ⟨_, l, Regex.ways_singleton.mpr ⟨k, hk, rfl⟩, hl, rfl⟩, rfl⟩

/-- What may stand behind the tokens of a path: nothing, or a slash where the template lets it be
left out. -/
def IsEnd (ending e : Text) : Prop :=
  e = [] ∨ ending = optionalSlash ∧ e = ['/']

theorem ways_ending {ending : Text} {p : Place} {h : Hit}
    (hending : ending = [] ∨ ending = optionalSlash) (hways : Regex.Ways (endingRow ending) p h) :
    h.captures = [] ∧ ∃ e, IsEnd ending e ∧ p.Passes e h.place := by
  rcases hending with rfl | rfl
  · obtain rfl : h = ⟨p, []⟩ := hways
    exact ⟨rfl, [], .inl rfl, .refl p⟩
  · obtain ⟨n, -, hmost, hturns⟩ := Regex.ways_singleton.mp hways
    have hn := hmost 1 rfl
    match n with
    | 0 =>
      obtain rfl : h = ⟨p, []⟩ := hturns
      exact ⟨rfl, [], .inl rfl, .refl p⟩
    | 1 =>
      obtain ⟨k, l, hk, hl, rfl⟩ := hturns
      obtain rfl : l = ⟨k.place, []⟩ := hl
      obtain ⟨hpasses, hnone⟩ := way_literal.mp hk
      exact ⟨by simp [Hit.extend, hnone], ['/'], .inr ⟨rfl, rfl⟩, hpasses⟩
    | n + 2 => simp at hn

theorem exists_ways_ending {ending e : Text} {p q : Place} (he : IsEnd ending e)
    (hq : p.Passes e q) :
    ∃ h, Regex.Ways (endingRow ending) p h ∧ h.place = q := by
  rcases he with rfl | ⟨rfl, rfl⟩
  · refine ⟨⟨p, []⟩, ?_, hq.eq_of_nil.symm⟩
    unfold endingRow
    split
    · rfl
    · exact Regex.ways_singleton.mpr ⟨0, Nat.le_refl _, fun _ _ => Nat.zero_le _, rfl⟩
  · have hturn : Hit.Turns (Regex.literal false '/').Way 1 p ⟨q, []⟩ :=
      ⟨⟨q, []⟩, ⟨q, []⟩, way_literal.mpr ⟨hq, rfl⟩, rfl, rfl⟩
    have hmost : ∀ m, some 1 = some m → 1 ≤ max 0 m := by simp
    exact ⟨⟨q, []⟩, Regex.ways_singleton.mpr ⟨1, Nat.zero_le _, hmost, hturn⟩, rfl⟩

/-- A path that the pattern of a template matches is the template with the captured values, and
perhaps a slash. -/
theorem captures_path {tokens : List Token} {ending t : Text} {taken : Captures}
    (hending : ending = [] ∨ ending = optionalSlash)
    (hdistinct : DistinctGroups (placeholders tokens))
    (h : (Regex.row (tokens.flatMap tokenRow ++ endingRow ending)).anchored.captures? t =
      some taken) :
    (∃ e, IsEnd ending e ∧ t = written taken.get? tokens ++ e) ∧
      ∀ q ∈ placeholders tokens, ∃ value, taken.get? q.1 = some value ∧ Takes q.2 value := by
  obtain ⟨h, hway, hend, rfl⟩ := Regex.captures?_anchored h
  obtain ⟨k, l, hk, hl, rfl⟩ := Regex.ways_append.mp (Regex.way_row.mp hway)
  obtain ⟨hnone, e, he, hpasses⟩ := ways_ending hending hl
  obtain ⟨hwritten, htaken⟩ := ways_tokens hdistinct hk
  have hcaptures : (k.extend l).captures = k.captures := by simp [Hit.extend, hnone]
  rw [hcaptures]
  exact ⟨⟨e, he, ((hwritten.trans hpasses).eq_of_end hend).symm⟩, htaken⟩

/-- The template with values that the constraints accept is a path that its pattern matches, with or
without the slash that may be left out. -/
theorem isMatch_path {value : Text → Option Text} {tokens : List Token} {ending e : Text}
    (he : IsEnd ending e) (hvalues : ∀ x ∈ placeholders tokens, ∃ v, value x.1 = some v ∧
      (ownRegex x.2).lookFree = true ∧ (ownRegex x.2).anchored.isMatch v = true) :
    (Regex.row (tokens.flatMap tokenRow ++ endingRow ending)).anchored.isMatch
      (written value tokens ++ e) = true := by
  obtain ⟨m, hm, hend⟩ := (Place.passes_finish (written value tokens ++ e)).split
  obtain ⟨k, hk, rfl⟩ := exists_ways hvalues hm
  obtain ⟨l, hl, hplace⟩ := exists_ways_ending he hend
  refine Regex.isMatch_anchored_iff.mpr ⟨k.extend l,
    Regex.way_row.mpr (Regex.ways_append.mpr ?_), ?_⟩
  · exact ⟨k, l, hk, hl, rfl⟩
  · exact congrArg Place.rest hplace

end CompiledTemplate

end Signpost
