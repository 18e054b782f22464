import Signpost.Proofs.RouteFile.Shape
import Signpost.Proofs.Text.Map

/-!
Reading what is written. Each part of a line is read back from any of the forms that the grammar
gives it, however many blanks there are, so the line is read as the definition that it stands for; a
line without the overall shape is not read. Main statements: `RouteFile.readLine_writes` and
`RouteFile.readLine_grammar`.
-/

namespace Signpost.RouteFile

open Text (IsGap isBlank trim trimStart trimEnd)

theorem Padded.trim_eq {core t : Text} (h : Padded core t) (hcore : trim core = core) :
    trim t = core := by
  obtain ⟨before, after, hbefore, hafter, rfl⟩ := h
  exact Text.trim_gaps hbefore hafter hcore

theorem Padded.mem {core t : Text} (h : Padded core t) {c : Char} (hc : c ∈ t) :
    isBlank c = true ∨ c ∈ core := by
  obtain ⟨before, after, hbefore, hafter, rfl⟩ := h
  rw [List.mem_append, List.mem_append] at hc
  obtain (hc | hc) | hc := hc
  · exact .inl (hbefore c hc)
  · exact .inr hc
  · exact .inl (hafter c hc)

@[simp]
theorem between?_quotes (quote : Char) (v : Text) :
    between? quote (quote :: (v ++ [quote])) = some v := by
  have hstart : Text.stripStart? [quote] (quote :: (v ++ [quote])) = some (v ++ [quote]) :=
    Text.stripStart?_eq_some.mpr rfl
  have hend : Text.stripStart? [quote] (v ++ [quote]).reverse = some v.reverse :=
    Text.stripStart?_eq_some.mpr (by simp)
  rw [between?, hstart]
  change (Text.stripStart? [quote] (v ++ [quote]).reverse).map List.reverse = some v
  rw [hend, Option.map_some, List.reverse_reverse]

theorem between?_of_head_ne {quote : Char} {t : Text} (h : ∀ c ∈ t.head?, c ≠ quote) :
    between? quote t = none := by
  have hstart : Text.stripStart? [quote] t = none := by
    cases t with
    | nil => rfl
    | cons c rest => simp [Text.stripStart?, (h c rfl).symm]
  rw [between?, hstart]
  rfl

theorem Spells.unquote {v t : Text} (h : Spells v t) : unquote t = v := by
  cases h with
  | single => rw [RouteFile.unquote, between?_quotes]; rfl
  | double =>
    have hsingle : between? '\'' ('"' :: (v ++ ['"'])) = none := between?_of_head_ne (by simp)
    rw [RouteFile.unquote, hsingle, between?_quotes]
    rfl
  | bare htrimmed hsingle hdouble =>
    have hne : ∀ quote : Char, quote ∉ v → between? quote v = none := fun quote hquote =>
      between?_of_head_ne fun c hc heq => hquote (heq ▸ List.mem_of_mem_head? hc)
    rw [RouteFile.unquote, hne _ hsingle, hne _ hdouble]
    rfl

theorem Spells.trim_eq {v t : Text} (h : Spells v t) : trim t = t := by
  cases h with
  | single =>
    exact Text.trim_enclosed (a := ['\'']) (b := ['\'']) (by decide) (by simp) (by decide)
      (by simp) v
  | double =>
    exact Text.trim_enclosed (a := ['"']) (b := ['"']) (by decide) (by simp) (by decide) (by simp) v
  | bare htrimmed => exact htrimmed

theorem Spells.mem {v t : Text} (h : Spells v t) {c : Char} (hc : c ∈ t) :
    c = '\'' ∨ c = '"' ∨ c ∈ v := by
  cases h with
  | single =>
    simp only [List.mem_cons, List.mem_append, List.not_mem_nil, or_false] at hc
    tauto
  | double =>
    simp only [List.mem_cons, List.mem_append, List.not_mem_nil, or_false] at hc
    tauto
  | bare => exact .inr (.inr hc)

/-- A mark that ends an item or a block of static arguments occurs in none of them. -/
theorem WritesArg.not_mem {arg : Text × Text} {t : Text} (h : WritesArg arg t) {mark : Char}
    (hmark : isBlank mark = false ∧ mark ≠ ':' ∧ mark ≠ '\'' ∧ mark ≠ '"') (hkey : mark ∉ arg.1)
    (hvalue : mark ∉ arg.2) :
    mark ∉ t := by
  obtain ⟨key, spelled, value, hpadded, hspelled, hpadded', rfl⟩ := h
  obtain ⟨hblank, hcolon, hsingle, hdouble⟩ := hmark
  intro hc
  rw [List.mem_append, List.mem_cons] at hc
  obtain hc | hc | hc := hc
  · exact (hpadded.mem hc).elim (by simp [hblank]) hkey
  · exact hcolon hc
  · obtain hc | hc := hpadded'.mem hc
    · simp [hblank] at hc
    · obtain hc | hc | hc := hspelled.mem hc
      · exact hsingle hc
      · exact hdouble hc
      · exact hvalue hc

theorem WritesArg.shows {arg : Text × Text} {t : Text} (h : WritesArg arg t) (harg : PlainArg arg) :
    ShowsArg arg (trim t) := by
  obtain ⟨key, spelled, value, hkey, hspelled, hvalue, rfl⟩ := h
  have hcolon : ':' ∉ trimStart key := by
    intro hmem
    obtain hblank | hmem := hkey.mem ((List.dropWhile_suffix isBlank).subset hmem)
    · exact absurd hblank (by decide)
    · exact harg.key_plain.2.1 hmem
  have hkeyRead : trim (trimStart key) = arg.1 := by
    rw [Text.trim_trimStart, hkey.trim_eq harg.key_trimmed]
  have hvalueRead : unquote (trim (trimEnd value)) = arg.2 := by
    rw [Text.trim_trimEnd, hvalue.trim_eq hspelled.trim_eq, hspelled.unquote]
  refine ⟨trimStart key, trimEnd value, hcolon, ?_, ?_, Text.trim_append_cons key (by decide) value⟩
  · rw [hkeyRead]
    exact harg.key_ne_nil
  · rw [hkeyRead, hvalueRead]

/-- The items of a list are the pieces between its commas, without the blanks around them. -/
theorem WritesItems.items {α : Type} {writes : α → Text → Prop} {xs : List α} {t : Text}
    (h : WritesItems writes xs t) (hwrites : ∀ x ∈ xs, ∀ u, writes x u → ',' ∉ u ∧ trim u ≠ []) :
    List.Forall₂ (fun x item => ∃ u, writes x u ∧ item = trim u) xs (items t) := by
  induction h with
  | @blank t hgap =>
    have hcomma : ',' ∉ t := fun hmem => absurd (hgap _ hmem) (by decide)
    have hnil : trim t = [] := by
      rw [trim, ← List.append_nil t, Text.trimStart_gap hgap]
      rfl
    have hitems : RouteFile.items t = [] := by
      simp [RouteFile.items, Text.splitOn_of_not_mem hcomma, hnil]
    rw [hitems]
    exact .nil
  | @last x t hx =>
    obtain ⟨hcomma, hne⟩ := hwrites x List.mem_cons_self t hx
    have hitems : RouteFile.items t = [trim t] := by
      simp [RouteFile.items, Text.splitOn_of_not_mem hcomma, hne]
    rw [hitems]
    exact .cons ⟨t, hx, rfl⟩ .nil
  | @next x xs t u hx hrest ih =>
    obtain ⟨hx', hxs⟩ := List.forall_mem_cons.mp hwrites
    obtain ⟨hcomma, hne⟩ := hx' t hx
    have hitems : RouteFile.items (t ++ ',' :: u) = trim t :: RouteFile.items u := by
      simp [RouteFile.items, Text.splitOn_append hcomma, hne]
    rw [hitems]
    exact .cons ⟨t, hx, rfl⟩ (ih hxs)

theorem WritesItems.not_mem {α : Type} {writes : α → Text → Prop} {xs : List α} {t : Text}
    (h : WritesItems writes xs t) {mark : Char} (hmark : isBlank mark = false ∧ mark ≠ ',')
    (hwrites : ∀ x ∈ xs, ∀ u, writes x u → mark ∉ u) :
    mark ∉ t := by
  induction h with
  | blank hgap => exact fun hmem => absurd (hgap _ hmem) (by simp [hmark.1])
  | @last x t hx => exact hwrites x List.mem_cons_self t hx
  | @next x xs t u hx hrest ih =>
    obtain ⟨hx', hxs⟩ := List.forall_mem_cons.mp hwrites
    simp [hx' t hx, hmark.2, ih hxs]

theorem WritesFormat.not_mem {m : MediaType} {t : Text} (h : WritesFormat m t) {mark : Char}
    (hmark : isBlank mark = false) (htext : mark ∉ m.text) : mark ∉ t :=
  fun hmem => (h.mem hmem).elim (by simp [hmark]) htext

theorem WritesFormat.trim_eq {m : MediaType} {t : Text} (h : WritesFormat m t) (hm : m.Proper) :
    trim t = m.text :=
  Padded.trim_eq h hm.trim_text

theorem WritesFormat.shows {m : MediaType} {t : Text} (h : WritesFormat m t) (hm : m.Proper) :
    ShowsFormat m (trim t) := by
  rw [ShowsFormat, h.trim_eq hm, hm.ofFormat?_text]

theorem WritesArg.trim_ne_nil {arg : Text × Text} {t : Text} (h : WritesArg arg t) :
    trim t ≠ [] := by
  obtain ⟨key, spelled, value, -, -, -, rfl⟩ := h
  rw [Text.trim_append_cons key (by decide) value]
  simp

/-- A block that is written is one that is read, if no item has the marks that end it and each is
read. -/
theorem WritesBlock.shows {α : Type} {opening closing : Char} {writes shown : α → Text → Prop}
    {xs : List α} {block : Text} (h : WritesBlock opening closing writes xs block)
    (hclosing : isBlank closing = false ∧ closing ≠ ',') (hwrites : ∀ x ∈ xs, ∀ u,
      writes x u → (closing ∉ u ∧ ',' ∉ u) ∧ trim u ≠ [] ∧ shown x (trim u)) :
    ShowsBlock opening closing shown xs block := by
  cases h with
  | absent => exact .absent
  | @block _ inside hitems =>
    have hpieces := hitems.items fun x hx u hu => ⟨(hwrites x hx u hu).1.2, (hwrites x hx u hu).2.1⟩
    refine .block (hitems.not_mem hclosing fun x hx u hu => (hwrites x hx u hu).1.1) ?_
    refine ((List.forall₂_and_left _ _).mpr ⟨hwrites, hpieces⟩).imp ?_
    rintro x item ⟨hx, u, hu, rfl⟩
    exact (hx u hu).2.2

theorem WritesBlock.shows_args {args : List (Text × Text)} {block : Text}
    (h : WritesBlock '{' '}' WritesArg args block) (hargs : ∀ arg ∈ args, PlainArg arg) :
    ShowsBlock '{' '}' ShowsArg args block := by
  refine h.shows (by decide) fun arg harg u hu => ?_
  have hplain := hargs arg harg
  exact ⟨⟨hu.not_mem (by decide) hplain.key_plain.2.2 hplain.value_plain.2,
    hu.not_mem (by decide) hplain.key_plain.1 hplain.value_plain.1⟩, hu.trim_ne_nil,
    hu.shows hplain⟩

theorem Writable.isWord_method {d : RouteDefinition} (h : Writable d) : IsWord d.method := by
  refine ⟨h.method_ne_nil, fun c hc => ?_⟩
  obtain hstar | halpha := Bool.or_eq_true_iff.mp h.method
  · rw [eq_of_beq hstar, List.mem_singleton] at hc
    rw [hc]
    decide
  · exact Text.isBlank_of_isAlpha (List.all_eq_true.mp halpha c hc)

/-- The line that a definition is written on has the overall shape, with the parts of the definition
in it. -/
theorem Writes.shows {d : RouteDefinition} {line : Text} (hd : Writable d) (h : Writes d line) :
    Shows { d with origin := none } line := by
  obtain ⟨start, afterMethod, afterPath, tail, hstart, hgap, hne, hgap', hne', htail,
    hhead, rfl⟩ := h
  obtain ⟨gapArgs, args, block, rest, hgapArgs, hargs, hblock,
    ⟨gapFormats, block', last, hgapFormats, hblock', hend, rfl⟩,
    rfl⟩ := htail
  have hstatics : ShowsBlock '{' '}' ShowsArg args block :=
    hblock.shows_args fun arg harg => hd.args arg (hargs.mem_iff.mp harg)
  have hformats : ShowsBlock '(' ')' ShowsFormat d.formats block' :=
    hblock'.shows (by decide) fun m hm u hu => by
    obtain ⟨hparsed, hcomma, hclosing⟩ := hd.formats m hm
    have hproper := MediaType.proper_iff.mpr hparsed
    refine ⟨⟨hu.not_mem (by decide) hclosing, hu.not_mem (by decide) hcomma⟩, ?_, hu.shows hproper⟩
    rw [hu.trim_eq hproper]
    exact List.ne_nil_of_mem m.slash_mem_text
  refine ⟨_, args, ?_, ⟨gapArgs, block, gapFormats, block', last, hgapArgs, hstatics, hgapFormats,
    hformats, hend, rfl⟩, (TextMap.ofList_of_perm hargs).symm, rfl⟩
  exact ⟨start, afterMethod, afterPath, hstart, hd.isWord_method, hd.method, hgap, hne, hd.path,
    hgap', hne', hd.action, hhead, rfl⟩

/-- A line is read as the definition that it stands for; where it stands is not on the line. -/
theorem readLine_writes {d : RouteDefinition} {line : Text} (hd : Writable d) (h : Writes d line) :
    readLine line = .ok { d with origin := none } :=
  readLine_eq_ok_iff.mpr (h.shows hd)

/-- The reader keeps to the grammar. Each line that a definition is written on is read as this
definition, however it is spaced, and the lines that are read at all are those of the overall shape,
each as what stands in it: any other is rejected. -/
theorem readLine_grammar :
    (∀ d line, Writable d → Writes d line → readLine line = .ok { d with origin := none }) ∧
      ∀ d line, readLine line = .ok d ↔ Shows d line :=
  ⟨fun _ _ hd h => readLine_writes hd h, fun _ _ => readLine_eq_ok_iff⟩

def showUser : RouteDefinition where
  method := "GET".toList
  path := "/users/\x7bid\x7d".toList
  action := "Users.show".toList
  staticArgs := .ofList [("lang".toList, "en".toList)]
  formats := [.new "text".toList "html".toList]

/-- A line with blanks wherever they may stand, but none where they may be left out. -/
theorem readLine_grammar_spaced :
    Writes showUser
      "\tGET  /users/\x7bid\x7d Users.show \x7b lang : 'en' \x7d(text/html)# all".toList ∧
      readLine "\tGET  /users/\x7bid\x7d Users.show \x7b lang : 'en' \x7d(text/html)# all".toList =
        .ok showUser := by
  have hgaps : IsGap "\t".toList ∧ IsGap "  ".toList := by simp [IsGap, isBlank]
  have harg : WritesArg ("lang".toList, "en".toList) " lang : 'en' ".toList :=
    ⟨" lang ".toList, "'en'".toList, " 'en' ".toList,
      ⟨_, _, isGap_space, isGap_space, rfl⟩, .single, ⟨_, _, isGap_space, isGap_space, rfl⟩, rfl⟩
  have hformat : WritesFormat (.new "text".toList "html".toList) "text/html".toList := padded_self _
  have hformats : WritesFormats showUser.formats "(text/html)# all".toList :=
    ⟨[], "(text/html)".toList, "# all".toList, isGap_nil, .block (.last hformat),
      ⟨[], _, isGap_nil, .inr rfl, rfl⟩, rfl⟩
  have htail : WritesTail showUser " \x7b lang : 'en' \x7d(text/html)# all".toList :=
    ⟨[' '], _, _, _, isGap_space, .refl _, .block (.last harg), hformats, rfl⟩
  have hwrites : Writes showUser
      "\tGET  /users/\x7bid\x7d Users.show \x7b lang : 'en' \x7d(text/html)# all".toList :=
    ⟨"\t".toList, "  ".toList, [' '], _, hgaps.1, hgaps.2, List.cons_ne_nil _ _, isGap_space,
      List.cons_ne_nil _ _, htail,
      fun c hc => Option.some.inj hc ▸ isGap_space ' ' List.mem_cons_self, by decide +kernel⟩
  exact ⟨hwrites, readLine_grammar.1 _ _ ⟨by decide, by decide, by decide⟩ hwrites⟩

theorem WritesBlock.trimEnd_eq {α : Type} {opening closing : Char} {writes : α → Text → Prop}
    {xs : List α} {t : Text} (hclosing : isBlank closing = false)
    (h : WritesBlock opening closing writes xs t) : trimEnd t = t := by
  cases h with
  | absent => rfl
  | @block _ inside hitems =>
    have hend := Text.trimEnd_append_cons (opening :: inside) hclosing []
    simpa [trimEnd] using hend

/-- What is trimmed off a part of a line is blanks behind it, and those before it too if nothing is
left. -/
theorem exists_trimEnd_part {gap block : Text} (hgap : IsGap gap) (hblock : trimEnd block = block)
    (rest : Text) :
    ∃ gap', IsGap gap' ∧ trimEnd (gap ++ block ++ rest) = gap' ++ block ++ trimEnd rest := by
  by_cases hne : block = []
  · subst hne
    rw [List.append_nil]
    by_cases hrest : trimEnd rest = []
    · rw [Text.trimEnd_gap (Text.trimEnd_eq_nil_iff.mp hrest),
        Text.trimEnd_eq_nil_iff.mpr hgap, hrest]
      exact ⟨[], isGap_nil, rfl⟩
    · rw [Text.trimEnd_append gap hrest]
      exact ⟨gap, hgap, by rw [List.append_nil]⟩
  · exact ⟨gap, hgap, Text.trimEnd_behind gap hblock hne rest⟩

theorem WritesEnd.trimEnd {t : Text} (h : WritesEnd t) : WritesEnd (trimEnd t) := by
  obtain ⟨gap, note, hgap, hnote, rfl⟩ := h
  obtain rfl | hcomment := hnote
  · rw [List.append_nil, Text.trimEnd_eq_nil_iff.mpr hgap]
    exact ⟨[], [], isGap_nil, .inl rfl, rfl⟩
  · obtain ⟨more, rfl⟩ := isComment_iff.mp hcomment
    rw [Text.trimEnd_append_cons gap (by decide) more]
    exact ⟨gap, _, hgap, .inr rfl, rfl⟩

theorem WritesFormats.trimEnd {formats : List MediaType} {t : Text} (h : WritesFormats formats t) :
    WritesFormats formats (trimEnd t) := by
  obtain ⟨gap, block, rest, hgap, hblock, hrest, rfl⟩ := h
  obtain ⟨gap', hgap', htrimmed⟩ := exists_trimEnd_part hgap (hblock.trimEnd_eq (by decide)) rest
  exact ⟨gap', block, _, hgap', hblock, hrest.trimEnd, htrimmed⟩

theorem WritesTail.trimEnd {d : RouteDefinition} {t : Text} (h : WritesTail d t) :
    WritesTail d (trimEnd t) := by
  obtain ⟨gap, args, block, rest, hgap, hargs, hblock, hrest, rfl⟩ := h
  obtain ⟨gap', hgap', htrimmed⟩ := exists_trimEnd_part hgap (hblock.trimEnd_eq (by decide)) rest
  exact ⟨gap', args, block, _, hgap', hargs, hblock, hrest.trimEnd, htrimmed⟩

/-- A line stays one for the definition when the blanks around it are taken away, and then begins
with the method. -/
theorem Writes.trim {d : RouteDefinition} {line : Text} (hd : Writable d) (h : Writes d line) :
    Writes d (trim line) ∧ d.method <+: trim line := by
  obtain ⟨start, afterMethod, afterPath, tail, hstart, hgap, hne, hgap', hne', htail,
    hhead, rfl⟩ := h
  have hmethod := hd.isWord_method
  have hfront :
      trimStart (start ++ d.method ++ (afterMethod ++ d.path ++ (afterPath ++ d.action ++ tail))) =
      d.method ++ (afterMethod ++ d.path ++ (afterPath ++ d.action ++ tail)) := by
    have hself : trimStart d.method = d.method := Text.trimStart_eq_self_iff.mpr fun c hc =>
      hmethod.2 c (List.mem_of_mem_head? hc)
    rw [List.append_assoc, Text.trimStart_gap hstart,
      Text.trimStart_append _ (by rw [hself]; exact hmethod.1), hself]
  have hback : trimEnd (d.method ++ (afterMethod ++ d.path ++ (afterPath ++ d.action ++ tail))) =
      d.method ++ (afterMethod ++ d.path ++ (afterPath ++ d.action ++ trimEnd tail)) := by
    have hbehind := Text.trimEnd_behind (d.method ++ afterMethod ++ d.path ++ afterPath)
      (Text.trimEnd_solid hd.action.2) hd.action.1 tail
    simpa only [List.append_assoc] using hbehind
  have htailHead : ∀ c ∈ (trimEnd tail).head?, isBlank c = true := fun c hc => by
    obtain ⟨u, hu⟩ := Text.prefix_trimEnd tail
    refine hhead c ?_
    rw [← hu]
    exact List.mem_head?_append_of_mem_head? hc
  rw [Text.trim, hfront, hback]
  exact ⟨⟨[], afterMethod, afterPath, _, isGap_nil, hgap, hne, hgap', hne', htail.trimEnd,
    htailHead, rfl⟩, List.prefix_append _ _⟩

theorem Writable.not_isIdle {d : RouteDefinition} {line : Text} (hd : Writable d)
    (h : d.method <+: line) :
    isIdle line = false := by
  obtain ⟨rest, rfl⟩ := h
  cases hm : d.method with
  | nil => exact absurd hm hd.method_ne_nil
  | cons c more =>
    have hne : c ≠ '#' := by
      rintro rfl
      have hmethod := hd.method
      rw [hm] at hmethod
      obtain hstar | halpha := Bool.or_eq_true_iff.mp hmethod
      · cases eq_of_beq hstar
      · exact absurd (List.all_eq_true.mp halpha '#' List.mem_cons_self) (by decide)
    simp [isIdle, isComment, hne]

end Signpost.RouteFile
