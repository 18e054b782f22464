import Mathlib.Data.List.Forall2
import Signpost.Proofs.Regex.GroupNames
import Signpost.Template.Compiled

/-!
Patterns that are written in a row. A literal character, a group and the slash that may be left out
are each read as one expression behind those before them, and the pattern that matches a whole text
is read as the row between its anchors. Main statements: `Regex.reads_whole` and
`Regex.nests_of_whole`.
-/

namespace Signpost.Regex

def Ways : List Regex → Place → Hit → Prop
  | [], p, h => h = ⟨p, []⟩
  | r :: rs, p, h => ∃ k l, r.Way p k ∧ Ways rs k.place l ∧ h = k.extend l

theorem ways_append {rs ss : List Regex} {p : Place} {h : Hit} :
    Ways (rs ++ ss) p h ↔ ∃ k l, Ways rs p k ∧ Ways ss k.place l ∧ h = k.extend l := by
  induction rs generalizing p h with
  | nil =>
    constructor
    · exact fun hss => ⟨⟨p, []⟩, h, rfl, hss, (Hit.start_extend p h).symm⟩
    · rintro ⟨k, l, rfl, hl, rfl⟩
      rwa [Hit.start_extend]
  | cons r rs ih =>
    constructor
    · rintro ⟨k, l, hk, hl, rfl⟩
      obtain ⟨a, b, ha, hb, rfl⟩ := ih.mp hl
      exact ⟨k.extend a, b, ⟨k, a, hk, ha, rfl⟩, hb, (Hit.extend_assoc k a b).symm⟩
    · rintro ⟨_, b, ⟨k, a, hk, ha, rfl⟩, hb, rfl⟩
      exact ⟨k, a.extend b, hk, ih.mpr ⟨a, b, ha, hb, rfl⟩, Hit.extend_assoc k a b⟩

theorem ways_singleton {r : Regex} {p : Place} {h : Hit} : Ways [r] p h ↔ r.Way p h := by
  constructor
  · rintro ⟨k, l, hk, rfl, rfl⟩
    exact hk
  · exact fun hway => ⟨h, ⟨h.place, []⟩, hway, rfl, rfl⟩

theorem way_set {s : CharSet} {p : Place} {h : Hit} :
    (set s).Way p h ↔ ∃ c, s.mem c = true ∧ p.Passes [c] h.place ∧ h.captures = [] := by
  constructor
  · rintro ⟨c, rest, hrest, hc, rfl⟩
    exact ⟨c, hc, ⟨hrest, rfl, rfl⟩, rfl⟩
  · rintro ⟨c, hc, hpasses, hnone⟩
    have hone : p.Passes [c] ⟨p.index + 1, some c, h.place.rest⟩ := ⟨hpasses.rest, rfl, rfl⟩
    refine ⟨c, h.place.rest, hpasses.rest, hc, ?_⟩
    rw [← (hpasses.unique hone hpasses.index).2, ← hnone]

/-- Sets in a row pass over one character of each. -/
theorem ways_sets {ss : List CharSet} {p : Place} {h : Hit} :
    Ways (ss.map set) p h ↔
      ∃ v,
        List.Forall₂ (fun s c => s.mem c = true) ss v ∧ p.Passes v h.place ∧ h.captures = [] := by
  induction ss generalizing p h with
  | nil =>
    constructor
    · rintro rfl
      exact ⟨[], .nil, .refl p, rfl⟩
    · rintro ⟨_, ⟨⟩, hpasses, hnone⟩
      show h = ⟨p, []⟩
      rw [← hpasses.eq_of_nil, ← hnone]
  | cons s ss ih =>
    constructor
    · rintro ⟨k, l, hk, hl, rfl⟩
      obtain ⟨c, hc, hkpasses, hknone⟩ := way_set.mp hk
      obtain ⟨v, hv, hlpasses, hlnone⟩ := ih.mp hl
      exact ⟨c :: v, .cons hc hv, hkpasses.trans hlpasses, by simp [Hit.extend, hknone, hlnone]⟩
    · rintro ⟨w, hw, hpasses, hnone⟩
      obtain ⟨c, v, hc, hv, rfl⟩ := List.forall₂_cons_left_iff.mp hw
      obtain ⟨q, hq, hrest⟩ := Place.Passes.split (v := [c]) (w := v) hpasses
      exact ⟨⟨q, []⟩, h, way_set.mpr ⟨c, hc, hq, rfl⟩, ih.mpr ⟨v, hv, hrest, hnone⟩,
        (Hit.start_extend q h).symm⟩

theorem way_row {rs : List Regex} {p : Place} {h : Hit} : (row rs).Way p h ↔ Ways rs p h := by
  have hfold : ∀ (ss : List Regex) (r : Regex) (h : Hit),
      (ss.foldl cat r).Way p h ↔ Ways (r :: ss) p h := by
    intro ss
    induction ss with
    | nil => exact fun r h => ways_singleton.symm
    | cons s ss ih =>
      intro r h
      rw [List.foldl_cons, ih]
      constructor
      · rintro ⟨_, c, ⟨a, b, ha, hb, rfl⟩, hc, rfl⟩
        exact ⟨a, b.extend c, ha, ⟨b, c, hb, hc, rfl⟩, Hit.extend_assoc a b c⟩
      · rintro ⟨a, _, ha, ⟨b, c, hb, hc, rfl⟩, rfl⟩
        exact ⟨a.extend b, c, ⟨a, b, ha, hb, rfl⟩, hc, (Hit.extend_assoc a b c).symm⟩
  cases rs with
  | nil => exact Iff.rfl
  | cons r rs => exact hfold rs r h

/-- The reader has read these expressions in a row, within the innermost of the open groups. -/
structure Reader.InRow (ignoreCase : Bool) (rs : List Regex) (opened : List OpenGroup)
    (names : List Text) (s : Reader) : Prop where
  done : s.branches.done = []
  pieces : s.branches.pieces.reverse.map (·.regex) = rs
  opened : s.opened = opened
  modes : s.modes = { ignoreCase }
  names : s.names = names

namespace Reader.InRow

variable {i : Bool} {rs : List Regex} {opened : List OpenGroup} {names : List Text}
  {s final : Reader}

theorem close_regex (hs : s.InRow i rs opened names) : s.branches.close.regex = row rs := by
  unfold Branches.close
  rw [hs.done]
  show (joinPieces cat s.branches.pieces).regex = row rs
  rw [joinPieces_cat, hs.pieces]

theorem push (hs : s.InRow i rs opened names) (p : Piece) :
    (s.push p).InRow i (rs ++ [p.regex]) opened names := by
  refine ⟨hs.done, ?_, hs.opened, hs.modes, hs.names⟩
  simp [Reader.push, ← hs.pieces]

theorem renamed (hs : s.InRow i rs opened names) (names' : List Text) :
    Reader.InRow i rs opened names' { s with names := names' } :=
  ⟨hs.done, hs.pieces, hs.opened, hs.modes, rfl⟩

theorem eq_within (hs : s.InRow i [] opened names) :
    s = Reader.within { modes := { ignoreCase := i } } opened names := by
  obtain ⟨⟨done, pieces⟩, opened', modes, names'⟩ := s
  obtain ⟨hdone, hpieces, hopened, hmodes, hnames⟩ := hs
  simp only at hdone hpieces hopened hmodes hnames
  subst hdone hopened hmodes hnames
  obtain rfl : pieces = [] := by simpa using hpieces
  rfl

end Reader.InRow

/-- The characters that a pattern does not take literally. -/
def isOperator (c : Char) : Bool :=
  "\\.+*?()|[\x7b^$".toList.contains c

theorem readPart_literal {m : Modes} {c : Char} (hc : isOperator c = false) (t : Text) :
    readPart m c t = some (.piece (literalPiece m c), t) := by
  unfold readPart
  split
  case h_13 => rfl
  all_goals simp [isOperator] at hc

def literal (ignoreCase : Bool) (c : Char) : Regex :=
  (literalPiece { ignoreCase } c).regex

/-- The expression of a group: one without a name only holds together what is in it. -/
def grouped : Option Text → Regex → Regex
  | some name, r => .group name r
  | none, r => r

/-- The group open around what follows is one that a reader in a row has opened. -/
def openedBy (s : Reader) (name : Option Text) : OpenGroup :=
  ⟨s.branches, name, s.modes⟩

section Reading

variable {i : Bool} {rs : List Regex} {opened : List OpenGroup} {names : List Text}
  {s final : Reader}

theorem skip_of_modes (hm : s.modes = { ignoreCase := i }) (t : Text) : s.modes.skip t = t := by
  rw [hm]
  rfl

theorem Reads.part {c : Char} {t rest : Text} {part : Part} (hm : s.modes = { ignoreCase := i })
    (h : Reads s (c :: t) final) (hpart : readPart { ignoreCase := i } c t = some (part, rest)) :
    ∃ s', s.apply part = some s' ∧ Reads s' rest final := by
  obtain ⟨s', rest', hstep, hrest⟩ := h.step (skip_of_modes hm _)
  obtain ⟨⟨part', rest''⟩, hpart', happly⟩ := Option.bind_eq_some_iff.mp hstep
  rw [hm, hpart] at hpart'
  obtain ⟨rfl, rfl⟩ := Prod.mk.inj (Option.some.inj hpart')
  obtain ⟨s'', hs'', heq⟩ := Option.bind_eq_some_iff.mp happly
  obtain ⟨rfl, rfl⟩ := Prod.mk.inj (Option.some.inj heq)
  exact ⟨s'', hs'', hrest⟩

theorem Reads.literals {t u : Text} (hs : s.InRow i rs opened names)
    (ht : ∀ c ∈ t, isOperator c = false) (h : Reads s (t ++ u) final) :
    ∃ s', s'.InRow i (rs ++ t.map (literal i)) opened names ∧ Reads s' u final := by
  induction t generalizing s rs with
  | nil => exact ⟨s, by simpa using hs, h⟩
  | cons c t ih =>
    obtain ⟨s', happly, hrest⟩ :=
      Reads.part hs.modes h (readPart_literal (ht c List.mem_cons_self) (t ++ u))
    obtain rfl := Option.some.inj happly
    obtain ⟨s'', hs'', hfinal⟩ :=
      ih (hs.push _) (fun d hd => ht d (List.mem_cons_of_mem _ hd)) hrest
    refine ⟨s'', ?_, hfinal⟩
    simpa [literal] using hs''

theorem Reader.close_eq_some {s' : Reader} (h : s.close = some s') :
    ∃ g opened p, s.opened = g :: opened ∧ p.regex = grouped g.name s.branches.close.regex ∧
      s' = Reader.push ⟨g.outer, opened, g.modes, s.names⟩ p := by
  unfold Reader.close at h
  split at h
  · cases h
  · next g opened hopened =>
    obtain rfl := Option.some.inj h
    refine ⟨g, opened, _, hopened, ?_, rfl⟩
    cases g.name <;> rfl

theorem Reads.close {g : OpenGroup} {t : Text} (h : Reads s (')' :: t) final)
    (hs : s.opened = g :: opened) :
    ∃ p : Piece, p.regex = grouped g.name s.branches.close.regex ∧
      Reads (Reader.push ⟨g.outer, opened, g.modes, s.names⟩ p) t final := by
  obtain ⟨s', rest', hstep, hrest⟩ := h.step (s.modes.skip_paren t)
  obtain ⟨s'', hclose, heq⟩ := Option.bind_eq_some_iff.mp hstep
  obtain ⟨rfl, rfl⟩ := Prod.mk.inj (Option.some.inj heq)
  obtain ⟨g', opened', p, hopened, hp, rfl⟩ := Reader.close_eq_some hclose
  obtain ⟨rfl, rfl⟩ := List.cons.inj (hs.symm.trans hopened)
  exact ⟨p, hp, hrest⟩

theorem Reads.open_plain {t : Text} (hs : s.InRow i rs opened names)
    (h : Reads s ("(?:".toList ++ t) final) :
    ∃ s', s'.InRow i [] (openedBy s none :: opened) names ∧ Reads s' t final := by
  have hpart : readPart { ignoreCase := i } '(' ("?:".toList ++ t) =
      some (.opening none { ignoreCase := i }, t) := rfl
  obtain ⟨s', happly, hrest⟩ := Reads.part hs.modes h hpart
  obtain rfl := Option.some.inj happly
  have hopened : (s.open none { ignoreCase := i }).opened = openedBy s none :: opened :=
    congrArg (List.cons _) hs.opened
  exact ⟨s.open none { ignoreCase := i }, ⟨rfl, rfl, hopened, rfl, hs.names⟩, hrest⟩

/-- A group opens under a name that no group before it has. -/
theorem Reads.open_named {name t u : Text} (hname : '>' ∉ name)
    (hskip : s.modes.skip u = "(?P<".toList ++ (name ++ '>' :: t)) (h : Reads s u final) :
    name ∉ s.names ∧ Reads (s.open (some name) s.modes) t final := by
  have hcut : Text.cutFirst '>' (name ++ '>' :: t) = some (name, t) := Text.cutFirst_eq hname t
  obtain ⟨s', rest', hstep, hrest⟩ := h.step hskip
  obtain ⟨⟨part, rest⟩, hpart, happly⟩ := Option.bind_eq_some_iff.mp hstep
  obtain ⟨s'', hs'', heq⟩ := Option.bind_eq_some_iff.mp happly
  obtain ⟨rfl, rfl⟩ := Prod.mk.inj (Option.some.inj heq)
  have hmark :
      s.modes.skip ("?P<".toList ++ (name ++ '>' :: t)) = "?P<".toList ++ (name ++ '>' :: t) := by
    unfold Modes.skip
    split <;> rfl
  have hnamed : readNamedGroup s.modes (name ++ '>' :: t) = some (part, rest) := by
    rw [← hpart]
    change _ = readGroupStart s.modes ("?P<".toList ++ (name ++ '>' :: t))
    unfold readGroupStart
    rw [hmark]
    rfl
  obtain ⟨⟨name', t'⟩, hcut', hgroup⟩ := Option.bind_eq_some_iff.mp hnamed
  obtain ⟨rfl, rfl⟩ := Prod.mk.inj (Option.some.inj (hcut.symm.trans hcut'))
  dsimp only at hgroup
  split_ifs at hgroup
  obtain ⟨rfl, rfl⟩ := Prod.mk.inj (Option.some.inj hgroup)
  obtain ⟨hfresh, rfl⟩ := Reader.apply_opening_eq_some hs''
  exact ⟨hfresh, hrest⟩

/-- A text that is a pattern on its own and is read the same way between parentheses, ending as
`s`. -/
structure Nests (ignoreCase : Bool) (c : Text) (s : Reader) : Prop where
  closed : s.opened = []
  covered : s.Covered
  keeps : Keeps { modes := { ignoreCase } } c s

/-- The closing parenthesis of a group around such a text. -/
theorem Reads.close_nested {c t : Text} {inner : Reader} {name : Option Text} (hc : Nests i c inner)
    {taken : List Text} (h : Reads (Reader.within
        { modes := { ignoreCase := i } } (openedBy s name :: opened) taken) (c ++ ')' :: t) final) :
    (∀ n ∈ inner.names, n ∉ taken) ∧
      ∃ p : Piece, p.regex = grouped name inner.branches.close.regex ∧
        Reads (Reader.push ⟨s.branches, opened, s.modes, inner.names ++ taken⟩ p) t final := by
  obtain ⟨hdisjoint, h₁⟩ := hc.keeps t _ _ _ (List.disjoint_nil_left _) h
  have hopened :
      (inner.within (openedBy s name :: opened) taken).opened = openedBy s name :: opened := by
    rw [Reader.within, hc.closed, List.nil_append]
  obtain ⟨p, hp, h₂⟩ := h₁.close hopened
  exact ⟨fun n hn => hdisjoint hn, p, hp, h₂⟩

/-- A group without a name around such a text is one more expression of a row. -/
theorem Reads.plainGroup {c t : Text} {inner : Reader} (hs : s.InRow i rs opened names)
    (hc : Nests i c inner) (h : Reads s ("(?:".toList ++ c ++ [')'] ++ t) final) :
    ∃ s' names',
      s'.InRow i (rs ++ [inner.branches.close.regex]) opened names' ∧ Reads s' t final := by
  rw [List.append_assoc, List.append_assoc] at h
  obtain ⟨s₁, hs₁, h₁⟩ := Reads.open_plain hs h
  obtain rfl := hs₁.eq_within
  obtain ⟨-, p, hp, h'⟩ := Reads.close_nested hc h₁
  have hrow : Reader.InRow i rs opened (inner.names ++ names) ⟨s.branches, opened, s.modes,
      inner.names ++ names⟩ :=
    ⟨hs.done, hs.pieces, rfl, hs.modes, rfl⟩
  have hpush := hrow.push p
  rw [hp] at hpush
  exact ⟨_, _, hpush, h'⟩

theorem namedGroup_append (name c t : Text) :
    CompiledTemplate.namedGroup name c ++ t =
      "(?P<".toList ++ (name ++ '>' :: (c ++ ')' :: t)) := by
  have htext : ∀ mark : Text,
      mark ++ name ++ ['>'] ++ c ++ [')'] ++ t = mark ++ (name ++ '>' :: (c ++ ')' :: t)) := by
    simp
  exact htext _

/-- A named group around such a text is one more piece. No name within it is taken before. -/
theorem Reads.namedGroup {name c t : Text} {inner : Reader} (hm : s.modes = { ignoreCase := i })
    (hname : '>' ∉ name) (hc : Nests i c inner)
    (h : Reads s (CompiledTemplate.namedGroup name c ++ t) final) :
    name ∉ s.names ∧ (∀ n ∈ inner.names, n ∉ name :: s.names) ∧
      ∃ p : Piece, p.regex = .group name inner.branches.close.regex ∧
        Reads (Reader.push { s with names := inner.names ++ name :: s.names } p) t final := by
  rw [namedGroup_append] at h
  obtain ⟨hfresh, h₁⟩ := Reads.open_named hname (skip_of_modes hm _) h
  rw [hm] at h₁
  exact ⟨hfresh, Reads.close_nested hc h₁⟩

theorem Reads.group {name c t : Text} {inner : Reader} (hs : s.InRow i rs opened names)
    (hname : '>' ∉ name) (hc : Nests i c inner)
    (h : Reads s (CompiledTemplate.namedGroup name c ++ t) final) :
    name ∉ names ∧ (∀ n ∈ inner.names, n ∉ name :: names) ∧
      ∃ s', s'.InRow i (rs ++ [.group name inner.branches.close.regex]) opened
        (inner.names ++ name :: names) ∧ Reads s' t final := by
  obtain ⟨hfresh, hinner, p, hp, h'⟩ := Reads.namedGroup hs.modes hname hc h
  rw [hs.names] at hfresh hinner h'
  have hpush := (hs.renamed (inner.names ++ name :: names)).push p
  rw [hp] at hpush
  exact ⟨hfresh, hinner, _, hpush, h'⟩

theorem Reads.optional {c : Char} {t : Text} (hs : s.InRow i rs opened names)
    (hc : isOperator c = false) (ht : t.head? ≠ some '?') (h : Reads s (c :: '?' :: t) final) :
    ∃ s', s'.InRow i (rs ++ [.repeated (literal i c) 0 (some 1) true]) opened names ∧
      Reads s' t final := by
  have hrepeat : readPart { ignoreCase := i } '?' t = some (.repetition 0 (some 1) true, t) := by
    cases t with
    | nil => rfl
    | cons d t =>
      have hd : d ≠ '?' := fun heq => ht (by rw [heq]; rfl)
      simp [readPart, readRepetition, readLazy, hd]
  obtain ⟨s₁, happly, h₁⟩ := Reads.part hs.modes h (readPart_literal hc _)
  obtain rfl := Option.some.inj happly
  obtain ⟨s₂, happly, h₂⟩ := Reads.part (hs.push _).modes h₁ hrepeat
  obtain ⟨p, pieces, hpieces, rfl⟩ := Reader.apply_repetition_eq_some happly
  obtain ⟨rfl, rfl⟩ := List.cons.inj hpieces
  have hswap : (s.push (literalPiece { ignoreCase := i } c)).modes.swapGreed = false := by
    rw [(hs.push _).modes]
  rw [hswap] at h₂
  exact ⟨_, hs.push { regex := .repeated (literal i c) 0 (some 1) true, depth := 1 }, h₂⟩

end Reading

/-- What the text of a pattern reads as: a reader goes through it and ends with no group open. -/
theorem reads_of_read? {i : Bool} {t : Text} {r : Regex} (h : read? i t = some r) :
    ∃ final, Reads { modes := { ignoreCase := i } } t final ∧ final.opened = [] ∧
      final.branches.close.regex = r := by
  obtain ⟨final, hrun, hclose⟩ := Option.bind_eq_some_iff.mp h
  dsimp only at hclose
  split_ifs at hclose with hopened hsize
  exact ⟨final, ⟨_, hrun⟩, by simpa using hopened, Option.some.inj hclose⟩

theorem reads_whole {i : Bool} {t : Text} {r : Regex} (h : read? i (Pattern.whole t) = some r) :
    ∃ g s final, s.InRow i [] [g] [] ∧ Reads s (t ++ ")$".toList) final ∧
      (final.opened = [] ∧ final.branches.close.regex = r) ∧
      ∀ s', s'.opened = [g] → Reads s' ")$".toList final →
        r = s'.branches.close.regex.anchored := by
  obtain ⟨final, hreads, hclosed, rfl⟩ := reads_of_read? h
  have hstart : Reader.InRow i [] [] [] { modes := { ignoreCase := i } } :=
    ⟨rfl, rfl, rfl, rfl, rfl⟩
  have htext : Pattern.whole t = '^' :: ("(?:".toList ++ (t ++ ")$".toList)) :=
    List.append_assoc "^(?:".toList t ")$".toList
  rw [htext] at hreads
  obtain ⟨s₁, happly, h₁⟩ := Reads.part hstart.modes hreads rfl
  obtain rfl := Option.some.inj happly
  obtain ⟨s, hs, h₂⟩ := Reads.open_plain (hstart.push _) h₁
  refine ⟨_, s, final, hs, h₂, ⟨hclosed, rfl⟩, fun s' hs' h' => ?_⟩
  obtain ⟨p, hp, h₃⟩ := h'.close hs'
  have hstart' :=
    (hstart.push (anchorPiece { ignoreCase := i } .lineStart .anyLineStart .textStart)).renamed
    s'.names
  obtain ⟨s₄, happly, h₄⟩ := Reads.part (hstart'.push p).modes h₃ rfl
  obtain rfl := Option.some.inj happly
  have hend := (hstart'.push p).push (anchorPiece { ignoreCase := i } .lineEnd .anyLineEnd .textEnd)
  rw [h₄.eq_of_skip (skip_of_modes hend.modes []), hend.close_regex, hp]
  rfl

/-- A text that is a pattern on its own, and again between the anchors of a whole text, is read the
same way between any parentheses. -/
theorem nests_of_whole {i : Bool} {c : Text} {r whole : Regex} (hc : read? i c = some r)
    (hwhole : read? i (Pattern.whole c) = some whole) :
    ∃ s, Nests i c s ∧ s.branches.close.regex = r ∧ whole = r.anchored := by
  obtain ⟨inner, hinner, hclosed, rfl⟩ := reads_of_read? hc
  obtain ⟨g, s, final, hs, hbody, ⟨hfinal, -⟩, hend⟩ := reads_whole hwhole
  obtain rfl := hs.eq_within
  have hopened : (inner.within [g] []).opened = [g] := by
    rw [Reader.within, hclosed, List.nil_append]
  rcases hinner.keeps_or_swallows with hkeeps | hswallows
  · obtain ⟨-, hrest⟩ := hkeeps "$".toList _ _ _ (List.disjoint_nil_left _) hbody
    exact ⟨inner, ⟨hclosed, hinner.covered (Reader.covered_start _), hkeeps⟩, rfl,
      hend (inner.within [g] []) hopened hrest⟩
  · -- A comment at the end would leave the group of the whole text open.
    have hlast := hswallows "$".toList _ _ _ (by decide) (List.disjoint_nil_left _) hbody
    rw [hlast, hopened] at hfinal
    simp at hfinal

end Signpost.Regex
