import Signpost.Proofs.Route.Compiled
import Signpost.Proofs.RouteFile.Written

/-!
The lines that are read at all, and as what. A line has to have three words, then at most one block
of static arguments, at most one of formats, and nothing behind them but a comment. A block ends at
the first closing bracket and its items at the commas, and each item has to be read. Main statement:
`RouteFile.readLine_eq_ok_iff`.
-/

namespace Signpost.RouteFile

open Text (IsGap isBlank trim trimStart)

/-- The item is a static argument: a key in front of the first colon, and behind it a value, with or
without quotes. -/
def ShowsArg (arg : Text × Text) (item : Text) : Prop :=
  ∃ key value,
    ':' ∉ key ∧ trim key ≠ [] ∧ arg = (trim key, unquote (trim value)) ∧ item = key ++ ':' :: value

def ShowsFormat (m : MediaType) (item : Text) : Prop :=
  MediaType.ofFormat? item = some m

/-- A list between brackets, which ends at the first closing one, or nothing. -/
inductive ShowsBlock {α : Type} (opening closing : Char) (shown : α → Text → Prop) :
    List α → Text → Prop
  | absent : ShowsBlock opening closing shown [] []
  | block {xs : List α} {inside : Text} :
      closing ∉ inside → List.Forall₂ shown xs (items inside) →
        ShowsBlock opening closing shown xs (opening :: (inside ++ [closing]))

/-- The line has the words of the definition, and then the tail. There are blanks between the words,
and behind the last one too if the tail has anything. -/
def HasWords (d : RouteDefinition) (tail line : Text) : Prop :=
  ∃ start afterMethod afterPath,
    IsGap start ∧ IsWord d.method ∧ isMethod d.method = true ∧ IsGap afterMethod ∧
    afterMethod ≠ [] ∧ IsWord d.path ∧ IsGap afterPath ∧ afterPath ≠ [] ∧ IsWord d.action ∧
    (∀ c ∈ tail.head?, isBlank c = true) ∧
    line = start ++ d.method ++ (afterMethod ++ d.path ++ (afterPath ++ d.action ++ tail))

/-- What follows the words: a block of static arguments, a block of formats and a comment, each of
which may be left out. -/
def ShowsTail (args : List (Text × Text)) (formats : List MediaType) (tail : Text) : Prop :=
  ∃ gap block gap' block' rest, IsGap gap ∧ ShowsBlock '{' '}' ShowsArg args block ∧ IsGap gap' ∧
    ShowsBlock '(' ')' ShowsFormat formats block' ∧ WritesEnd rest ∧
    tail = gap ++ block ++ (gap' ++ block' ++ rest)

/-- The line has the overall shape of a line with a route, and the parts of the definition stand in
it. -/
def Shows (d : RouteDefinition) (line : Text) : Prop :=
  ∃ tail args, HasWords d tail line ∧ ShowsTail args d.formats tail ∧ d.staticArgs = .ofList args ∧
    d.origin = none

section Words

theorem exists_gap_trimStart (t : Text) : ∃ gap, IsGap gap ∧ t = gap ++ trimStart t :=
  ⟨t.takeWhile isBlank, fun _ hc =>
    List.mem_takeWhile_imp hc, (List.takeWhile_append_dropWhile ..).symm⟩

theorem word?_gap {gap w t : Text} (hgap : IsGap gap) (hw : IsWord w)
    (ht : ∀ c ∈ t.head?, isBlank c = true) :
    word? (gap ++ w ++ t) = some (w, t) := by
  obtain ⟨hne, hsolid⟩ := hw
  cases w with
  | nil => exact absurd rfl hne
  | cons c w =>
    have hstart : trimStart (gap ++ (c :: w) ++ t) = c :: w ++ t := by
      rw [List.append_assoc]
      exact Text.trimStart_gap_cons hgap (hsolid c List.mem_cons_self) (w ++ t)
    have hsolid' : ∀ a ∈ c :: w, (fun a => !isBlank a) a = true := fun a ha => by simp [hsolid a ha]
    obtain ⟨htake, hdrop⟩ : t.takeWhile (fun a => !isBlank a) = [] ∧
        t.dropWhile (fun a => !isBlank a) = t := by
      cases t with
      | nil => exact ⟨rfl, rfl⟩
      | cons a rest => simp [ht a rfl]
    unfold word?
    rw [hstart]
    simp only [List.cons_append]
    rw [← List.cons_append, List.takeWhile_append_of_pos hsolid',
      List.dropWhile_append_of_pos hsolid', htake, hdrop, List.append_nil]

theorem word?_eq_some {t w rest : Text} (h : word? t = some (w, rest)) :
    ∃ gap, IsGap gap ∧ IsWord w ∧ (∀ c ∈ rest.head?, isBlank c = true) ∧ t = gap ++ w ++ rest := by
  obtain ⟨gap, hgap, ht⟩ := exists_gap_trimStart t
  have hfirst := Text.trimStart_eq_self_iff.mp (Text.trimStart_trimStart t)
  unfold word? at h
  split at h
  · cases h
  · next hne =>
    obtain ⟨rfl, rfl⟩ := Prod.mk.inj (Option.some.inj h)
    refine ⟨gap, hgap, ⟨fun hnil => ?_, fun c hc => ?_⟩, fun c hc => ?_, ?_⟩
    · cases hs : trimStart t with
      | nil => exact hne hs
      | cons c more =>
        rw [hs] at hnil hfirst
        simp [hfirst c rfl] at hnil
    · simpa using List.mem_takeWhile_imp hc
    · have hstops := List.head?_dropWhile_not (fun c => !isBlank c) (trimStart t)
      rw [Option.mem_def.mp hc] at hstops
      simpa using hstops
    · rw [List.append_assoc, List.takeWhile_append_dropWhile]
      exact ht

theorem head_gap {gap : Text} (hgap : IsGap gap) (hne : gap ≠ []) (t : Text) :
    ∀ c ∈ (gap ++ t).head?, isBlank c = true := by
  cases gap with
  | nil => exact absurd rfl hne
  | cons b gap =>
    intro c hc
    obtain rfl := Option.some.inj hc
    exact hgap b List.mem_cons_self

/-- A word that follows another has a blank in front of it. -/
theorem IsWord.gap_ne_nil {gap w t : Text} (hw : IsWord w)
    (h : ∀ c ∈ (gap ++ w ++ t).head?, isBlank c = true) :
    gap ≠ [] := by
  rintro rfl
  obtain ⟨hne, hsolid⟩ := hw
  cases w with
  | nil => exact hne rfl
  | cons c w =>
    have hblank := h c rfl
    rw [hsolid c List.mem_cons_self] at hblank
    cases hblank

theorem HasWords.readWords {d : RouteDefinition} {tail line : Text} (h : HasWords d tail line) :
    readWords line = .ok ({ method := d.method, path := d.path, action := d.action },
      trimStart tail) := by
  obtain ⟨start, afterMethod, afterPath, hstart, hword, hmethod, hgap, hne, hpath, hgap', hne',
    haction, htail, rfl⟩ := h
  have hmethodEnd := head_gap hgap hne (d.path ++ (afterPath ++ d.action ++ tail))
  have hpathEnd := head_gap hgap' hne' (d.action ++ tail)
  rw [← List.append_assoc] at hmethodEnd hpathEnd
  simp only [RouteFile.readWords, word?_gap hstart hword hmethodEnd, hmethod, Bool.not_true,
    Bool.false_eq_true, if_false, word?_gap hgap hpath hpathEnd, word?_gap hgap' haction htail]

theorem hasWords_of_readWords {d : RouteDefinition} {line rest : Text}
    (h : readWords line = .ok (d, rest)) :
    ∃ tail, HasWords d tail line ∧ rest = trimStart tail ∧
      d = { method := d.method, path := d.path, action := d.action } := by
  unfold readWords at h
  split at h
  · cases h
  · next method afterFirst hfirst =>
    split_ifs at h with hmethod
    split at h
    · cases h
    · next path afterSecond hsecond =>
      split at h
      · cases h
      · next action tail hthird =>
        obtain ⟨rfl, rfl⟩ := Prod.mk.inj (Except.ok.inj h)
        obtain ⟨start, hstart, hword, hhead, rfl⟩ := word?_eq_some hfirst
        obtain ⟨gap, hgap, hpath, hhead', rfl⟩ := word?_eq_some hsecond
        obtain ⟨gap', hgap', haction, htail, rfl⟩ := word?_eq_some hthird
        have hmethod' : isMethod method = true := by simpa using hmethod
        exact ⟨tail, ⟨start, gap, gap', hstart, hword, hmethod', hgap, hpath.gap_ne_nil hhead,
          hpath, hgap', haction.gap_ne_nil hhead', haction, htail, rfl⟩, rfl, rfl⟩

end Words

section Items

variable {d d' : RouteDefinition}

theorem readStaticArg_eq_ok_iff {item : Text} {arg : Text × Text} :
    readStaticArg item = .ok arg ↔ ShowsArg arg item := by
  constructor
  · intro h
    unfold readStaticArg at h
    split at h
    · cases h
    · next key value hcut =>
      simp only at h
      split_ifs at h with hkey
      exact ⟨key, value, Text.not_mem_of_cutFirst hcut, hkey, (Except.ok.inj h).symm,
        Text.cutFirst_sound hcut⟩
  · rintro ⟨key, value, hcolon, hkey, rfl, rfl⟩
    rw [readStaticArg, Text.cutFirst_eq hcolon]
    simp only [if_neg hkey]

theorem readStaticArgs_eq_ok_iff {pieces : List Text} :
    readStaticArgs d pieces = .ok d' ↔ ∃ args, List.Forall₂ ShowsArg args pieces ∧
      d' = { d with staticArgs := args.foldl (fun m e => m.insert e.1 e.2) d.staticArgs } := by
  induction pieces generalizing d with
  | nil =>
    constructor
    · intro h
      exact ⟨[], .nil, (Except.ok.inj h).symm⟩
    · rintro ⟨args, hargs, rfl⟩
      cases hargs
      rfl
  | cons item pieces ih =>
    rw [readStaticArgs]
    constructor
    · intro h
      obtain ⟨arg, harg, h⟩ := Except.bind_eq_ok h
      obtain ⟨args, hargs, hd⟩ := ih.mp h
      exact ⟨arg :: args, .cons (readStaticArg_eq_ok_iff.mp harg) hargs, hd⟩
    · rintro ⟨args, hargs, rfl⟩
      cases hargs with
      | cons harg hargs =>
        rw [readStaticArg_eq_ok_iff.mpr harg]
        exact ih.mpr ⟨_, hargs, rfl⟩

theorem readFormats_eq_ok_iff {pieces : List Text} :
    readFormats d pieces = .ok d' ↔ ∃ formats, List.Forall₂ ShowsFormat formats pieces ∧
      d' = { d with formats := d.formats ++ formats } := by
  induction pieces generalizing d with
  | nil =>
    constructor
    · intro h
      exact ⟨[], .nil, by rw [List.append_nil]; exact (Except.ok.inj h).symm⟩
    · rintro ⟨formats, hformats, rfl⟩
      cases hformats
      rw [List.append_nil, readFormats]
  | cons item pieces ih =>
    rw [readFormats]
    constructor
    · intro h
      split at h
      · next m hm =>
        obtain ⟨formats, hformats, hd⟩ := ih.mp h
        refine ⟨m :: formats, .cons hm hformats, ?_⟩
        rw [hd, RouteDefinition.withFormat, List.append_assoc]
        rfl
      · cases h
    · rintro ⟨formats, hformats, rfl⟩
      cases hformats with
      | @cons m _ formats _ hm hformats =>
        have hm' : MediaType.ofFormat? item = some m := hm
        simp only [hm']
        refine ih.mpr ⟨formats, hformats, ?_⟩
        rw [RouteDefinition.withFormat, List.append_assoc]
        rfl

end Items

/-- A block is taken off the text, and the rest is left without the blanks in front. -/
def Takes {α : Type} (opening closing : Char) (shown : α → Text → Prop) (xs : List α)
    (rest t : Text) : Prop :=
  (t.head? ≠ some opening ∧ xs = [] ∧ rest = t) ∨
    ∃ inside after, t = opening :: (inside ++ closing :: after) ∧ closing ∉ inside ∧
      List.Forall₂ shown xs (items inside) ∧ rest = trimStart after

section Blocks

variable {α : Type} {opening closing : Char} {shown : α → Text → Prop} {xs : List α}
  {d d' : RouteDefinition}
  {t rest : Text}

/-- Both kinds of blocks are read this way, up to the first closing bracket. -/
def readBlock (opening closing : Char) (unterminated : LineFault)
    (read : List Text → Except LineFault RouteDefinition)
    (d : RouteDefinition) : Text → Except LineFault (RouteDefinition × Text)
  | [] => .ok (d, [])
  | c :: body =>
    if c = opening then
      match Text.cutFirst closing body with
      | none => .error unterminated
      | some (inside, rest) => do return (← read (items inside), trimStart rest)
    else .ok (d, c :: body)

theorem readStaticBlock_eq (d : RouteDefinition) (t : Text) :
    readStaticBlock d t = readBlock '{' '}' .unterminatedStaticArgs (readStaticArgs d) d t := by
  unfold readStaticBlock
  split
  · rfl
  · next hother =>
    cases t with
    | nil => rfl
    | cons c body => rw [readBlock, if_neg fun hc => hother body (by rw [hc])]

theorem readFormatBlock_eq (d : RouteDefinition) (t : Text) :
    readFormatBlock d t = readBlock '(' ')' .unterminatedFormats (readFormats d) d t := by
  unfold readFormatBlock
  split
  · rfl
  · next hother =>
    cases t with
    | nil => rfl
    | cons c body => rw [readBlock, if_neg fun hc => hother body (by rw [hc])]

theorem readBlock_eq_ok_iff {fault : LineFault}
    {read : List Text → Except LineFault RouteDefinition} {give : List α → RouteDefinition}
    (hnil : give [] = d) (hread : ∀ {pieces e},
      read pieces = .ok e ↔ ∃ xs, List.Forall₂ shown xs pieces ∧ e = give xs) :
    readBlock opening closing fault read d t = .ok (d', rest) ↔
      ∃ xs, Takes opening closing shown xs rest t ∧ d' = give xs := by
  constructor
  · intro h
    unfold readBlock at h
    split at h
    · obtain ⟨rfl, rfl⟩ := Prod.mk.inj (Except.ok.inj h)
      exact ⟨[], .inl ⟨fun hhead => Option.some_ne_none opening hhead.symm, rfl, rfl⟩, hnil.symm⟩
    · next c body =>
      split_ifs at h with hc
      · split at h
        · cases h
        · next inside after hcut =>
          obtain ⟨e, he, h⟩ := Except.bind_eq_ok h
          obtain ⟨rfl, rfl⟩ := Prod.mk.inj (Except.ok.inj h)
          obtain ⟨xs, hxs, rfl⟩ := hread.mp he
          refine ⟨xs, .inr ⟨inside, after, ?_, Text.not_mem_of_cutFirst hcut, hxs, rfl⟩, rfl⟩
          rw [hc, Text.cutFirst_sound hcut]
      · obtain ⟨rfl, rfl⟩ := Prod.mk.inj (Except.ok.inj h)
        exact ⟨[], .inl ⟨fun heq => hc (Option.some.inj heq), rfl, rfl⟩, hnil.symm⟩
  · rintro ⟨xs, ⟨hhead, rfl, rfl⟩ | ⟨inside, after, rfl, hclosing, hxs, rfl⟩, rfl⟩
    · cases rest with
      | nil => rw [readBlock, hnil]
      | cons c body => rw [readBlock, if_neg fun hc => hhead (by rw [hc]; rfl), hnil]
    · rw [readBlock, if_pos rfl, Text.cutFirst_eq hclosing]
      simp only [hread.mpr ⟨xs, hxs, rfl⟩]
      rfl

theorem readStaticBlock_eq_ok_iff :
    readStaticBlock d t = .ok (d', rest) ↔ ∃ args, Takes '{' '}' ShowsArg args rest t ∧
      d' = { d with staticArgs := args.foldl (fun m e => m.insert e.1 e.2) d.staticArgs } := by
  rw [readStaticBlock_eq]
  exact readBlock_eq_ok_iff rfl readStaticArgs_eq_ok_iff

theorem readFormatBlock_eq_ok_iff :
    readFormatBlock d t = .ok (d', rest) ↔ ∃ formats, Takes '(' ')' ShowsFormat formats rest t ∧
      d' = { d with formats := d.formats ++ formats } := by
  rw [readFormatBlock_eq]
  exact readBlock_eq_ok_iff (by rw [List.append_nil]) readFormats_eq_ok_iff

/-- What is taken off a text without the blanks in front is a block of the text, behind these
blanks. -/
theorem Takes.exists_block (h : Takes opening closing shown xs rest (trimStart t)) :
    ∃ gap block after,
      IsGap gap ∧ ShowsBlock opening closing shown xs block ∧ t = gap ++ block ++ after ∧
      rest = trimStart after := by
  obtain ⟨gap, hgap, ht⟩ := exists_gap_trimStart t
  rcases h with ⟨-, rfl, rfl⟩ | ⟨inside, after, hstart, hclosing, hitems, rfl⟩
  · exact ⟨[], [], t, isGap_nil, .absent, rfl, rfl⟩
  · refine ⟨gap, _, after, hgap, .block hclosing hitems, ?_, rfl⟩
    rw [ht, hstart]
    simp

theorem ShowsBlock.takes {gap block after : Text} (h : ShowsBlock opening closing shown xs block)
    (hgap : IsGap gap) (hopening : isBlank opening = false)
    (hafter : (trimStart after).head? ≠ some opening) :
    Takes opening closing shown xs (trimStart after) (trimStart (gap ++ block ++ after)) := by
  cases h with
  | absent =>
    rw [List.append_nil, Text.trimStart_gap hgap]
    exact .inl ⟨hafter, rfl, rfl⟩
  | @block _ inside hclosing hitems =>
    refine .inr ⟨inside, after, ?_, hclosing, hitems, rfl⟩
    rw [List.append_assoc, List.cons_append, Text.trimStart_gap_cons hgap hopening,
      List.append_assoc]
    rfl

end Blocks

theorem isComment_iff {t : Text} : isComment t = true ↔ ∃ more, t = '#' :: more := by
  cases t <;> simp [isComment]

theorem writesEnd_iff {t : Text} :
    WritesEnd t ↔ trimStart t = [] ∨ isComment (trimStart t) = true := by
  constructor
  · rintro ⟨gap, note, hgap, rfl | hcomment, rfl⟩
    · rw [Text.trimStart_gap hgap]
      exact .inl rfl
    · obtain ⟨more, rfl⟩ := isComment_iff.mp hcomment
      rw [Text.trimStart_gap_cons hgap (by decide)]
      exact .inr rfl
  · intro h
    obtain ⟨gap, hgap, ht⟩ := exists_gap_trimStart t
    exact ⟨gap, trimStart t, hgap, h, ht⟩

theorem WritesEnd.head_ne {t : Text} (h : WritesEnd t) {c : Char} (hc : c ≠ '#') :
    (trimStart t).head? ≠ some c := by
  rcases writesEnd_iff.mp h with hnil | hcomment
  · rw [hnil]
    exact nofun
  · obtain ⟨more, hmore⟩ := isComment_iff.mp hcomment
    rw [hmore]
    exact fun heq => hc (Option.some.inj heq).symm

theorem ShowsBlock.head_ne {α : Type} {opening closing : Char} {shown : α → Text → Prop}
    {xs : List α} {gap block after : Text} (h : ShowsBlock opening closing shown xs block)
    (hgap : IsGap gap) (hopening : isBlank opening = false) {c : Char} (hc : c ≠ opening)
    (hafter : (trimStart after).head? ≠ some c) :
    (trimStart (gap ++ block ++ after)).head? ≠ some c := by
  cases h with
  | absent =>
    rw [List.append_nil, Text.trimStart_gap hgap]
    exact hafter
  | block =>
    rw [List.append_assoc, List.cons_append, Text.trimStart_gap_cons hgap hopening]
    exact fun heq => hc (Option.some.inj heq).symm

/-- A line is read just when it has the overall shape, and as what stands in it. -/
theorem readLine_eq_ok_iff {d : RouteDefinition} {line : Text} :
    readLine line = .ok d ↔ Shows d line := by
  constructor
  · intro h
    obtain ⟨⟨words, rest⟩, hwords, h⟩ := Except.bind_eq_ok h
    obtain ⟨⟨withArgs, rest'⟩, hargs, h⟩ := Except.bind_eq_ok h
    obtain ⟨⟨whole, rest''⟩, hformats, h⟩ := Except.bind_eq_ok h
    obtain ⟨tail, htail, rfl, hparts⟩ := hasWords_of_readWords hwords
    obtain ⟨args, htakes, rfl⟩ := readStaticBlock_eq_ok_iff.mp hargs
    obtain ⟨gap, block, after, hgap, hblock, rfl, rfl⟩ := htakes.exists_block
    obtain ⟨formats, htakes', rfl⟩ := readFormatBlock_eq_ok_iff.mp hformats
    obtain ⟨gap', block', after', hgap', hblock', rfl, rfl⟩ := htakes'.exists_block
    simp only at h
    split_ifs at h with hend
    obtain rfl := Except.ok.inj h
    rw [hparts]
    exact ⟨_, args, htail, ⟨gap, block, gap', block', after', hgap, hblock, hgap', hblock',
      writesEnd_iff.mpr hend, rfl⟩, rfl, rfl⟩
  · rintro ⟨tail, args, hwords,
      ⟨gap, block, gap', block', rest, hgap, hblock, hgap', hblock', hend, rfl⟩, hstatics,
      horigin⟩
    have htakes := hblock.takes hgap (by decide)
      (hblock'.head_ne hgap' (by decide) (by decide) (hend.head_ne (by decide)))
    have htakes' := hblock'.takes hgap' (by decide) (hend.head_ne (by decide))
    have hstatic (e : RouteDefinition) := readStaticBlock_eq_ok_iff (d := e).mpr ⟨args, htakes, rfl⟩
    have hformat (e : RouteDefinition) :=
      readFormatBlock_eq_ok_iff (d := e).mpr ⟨d.formats, htakes', rfl⟩
    obtain ⟨method, path, action, staticArgs, formats, origin⟩ := d
    obtain rfl : staticArgs = .ofList args := hstatics
    obtain rfl : origin = none := horigin
    rw [readLine, hwords.readWords]
    simp only [bind, Except.bind, hstatic, hformat, writesEnd_iff.mp hend, if_true, List.nil_append]
    rfl

end Signpost.RouteFile
