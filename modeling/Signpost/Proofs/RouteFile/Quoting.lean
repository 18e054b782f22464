import Signpost.Proofs.RouteFile.Reading

/-!
What quotes around the value of a static argument are good for. The end of the block and the commas
in it are looked for before the quotes are, so quotes keep blanks, colons, brackets and quotes of
the other kind, but no comma and no closing brace: a line with one of these in a value is rejected,
or read with other arguments. Main statement: `RouteFile.readLine_quoted`.
-/

namespace Signpost.RouteFile

open Text (IsGap isBlank trim trimStart)

theorem mem_of_mem_unquote {t : Text} {c : Char} (h : c ∈ unquote t) : c ∈ t := by
  have hbetween : ∀ {quote : Char} {v : Text}, between? quote t = some v → c ∈ v → c ∈ t := by
    intro quote v hv hc
    obtain ⟨rest, hstart, hend⟩ := Option.bind_eq_some_iff.mp hv
    rw [Text.stripStart?_eq_some.mp hstart, Text.stripEnd?_eq_some hend]
    exact List.mem_append_right _ (List.mem_append_left _ hc)
  unfold unquote at h
  cases hsingle : between? '\'' t with
  | some v =>
    rw [hsingle] at h
    exact hbetween hsingle h
  | none =>
    cases hdouble : between? '"' t with
    | some v =>
      rw [hsingle, hdouble] at h
      exact hbetween hdouble h
    | none =>
      rw [hsingle, hdouble] at h
      exact h

theorem mem_of_mem_items {t item : Text} (h : item ∈ items t) {c : Char} (hc : c ∈ item) :
    c ≠ ',' ∧ c ∈ t := by
  obtain ⟨hitem, -⟩ := List.mem_filter.mp h
  obtain ⟨piece, hpiece, rfl⟩ := List.mem_map.mp hitem
  exact Text.mem_of_mem_splitOn hpiece (Text.mem_of_mem_trim hc)

/-- A static argument that is read of an item has nothing in it that is not in the item. -/
theorem ShowsArg.mem {arg : Text × Text} {item : Text} (h : ShowsArg arg item) {c : Char}
    (hc : c ∈ arg.1 ∨ c ∈ arg.2) :
    c ∈ item := by
  obtain ⟨key, value, -, -, rfl, rfl⟩ := h
  rcases hc with hc | hc
  · exact List.mem_append_left _ (Text.mem_of_mem_trim hc)
  · exact List.mem_append_right _
      (List.mem_cons_of_mem _ (Text.mem_of_mem_trim (mem_of_mem_unquote hc)))

theorem ShowsArg.plain {arg : Text × Text} {item : Text} (h : ShowsArg arg item)
    (hcomma : ',' ∉ item) (hclosing : '}' ∉ item) : PlainArg arg := by
  have hmem := fun c => h.mem (c := c)
  obtain ⟨key, value, hcolon, hkey, rfl, -⟩ := h
  exact {
    key_ne_nil := hkey
    key_trimmed := Text.trim_trim key
    key_plain := ⟨fun hc => hcomma (hmem _ (.inl hc)), fun hc => hcolon (Text.mem_of_mem_trim hc),
      fun hc => hclosing (hmem _ (.inl hc))⟩
    value_plain := ⟨fun hc => hcomma (hmem _ (.inr hc)), fun hc => hclosing (hmem _ (.inr hc))⟩ }

/-- The static arguments of a line are the items of the block that its tail begins with. -/
theorem HasWords.takes_of_readLine {d d' : RouteDefinition} {tail line : Text}
    (hwords : HasWords d tail line) (h : readLine line = .ok d') :
    ∃ args rest,
      Takes '{' '}' ShowsArg args rest (trimStart tail) ∧ d'.staticArgs = .ofList args := by
  rw [readLine, hwords.readWords] at h
  obtain ⟨⟨words, rest⟩, hread, h⟩ := Except.bind_eq_ok h
  obtain ⟨⟨withArgs, afterArgs⟩, hargs, h⟩ := Except.bind_eq_ok h
  obtain ⟨⟨whole, afterFormats⟩, hformats, h⟩ := Except.bind_eq_ok h
  obtain ⟨rfl, rfl⟩ := Prod.mk.inj (Except.ok.inj hread)
  obtain ⟨args, htakes, rfl⟩ := readStaticBlock_eq_ok_iff.mp hargs
  obtain ⟨formats, -, rfl⟩ := readFormatBlock_eq_ok_iff.mp hformats
  simp only at h
  split_ifs at h
  obtain rfl := Except.ok.inj h
  exact ⟨args, afterArgs, htakes, rfl⟩

theorem exists_item_of_mem {args : List (Text × Text)} {pieces : List Text}
    (h : List.Forall₂ ShowsArg args pieces) {arg : Text × Text}
    (harg : arg ∈ args) : ∃ item ∈ pieces, ShowsArg arg item := by
  induction h with
  | nil => cases harg
  | @cons _ item _ pieces hitem _ ih =>
    rcases List.mem_cons.mp harg with rfl | harg
    · exact ⟨item, List.mem_cons_self, hitem⟩
    · obtain ⟨found, hfound, hshows⟩ := ih harg
      exact ⟨found, List.mem_cons_of_mem item hfound, hshows⟩

/-- No static argument of a line has a mark in it that ends an item or the block, quotes or not. -/
theorem plain_of_readLine {d : RouteDefinition} {line : Text} (h : readLine line = .ok d) :
    ∀ arg ∈ d.staticArgs.entries, PlainArg arg := by
  intro arg harg
  obtain ⟨tail, -, hwords, -⟩ := readLine_eq_ok_iff.mp h
  obtain ⟨args, rest, htakes, hstatics⟩ := hwords.takes_of_readLine h
  rw [hstatics] at harg
  have hmem := TextMap.mem_of_mem_ofList harg
  rcases htakes with ⟨-, rfl, -⟩ | ⟨inside, after, -, hclosing, hitems, -⟩
  · cases hmem
  · obtain ⟨item, hitem, hshows⟩ := exists_item_of_mem hitems hmem
    exact hshows.plain (fun hc => (mem_of_mem_items hitem hc).1 rfl) fun hc =>
      hclosing (mem_of_mem_items hitem hc).2

/-- A key that none of the marks around it can be taken for a part of. -/
structure PlainKey (key : Text) : Prop where
  ne_nil : key ≠ []
  trimmed : trim key = key
  plain : ',' ∉ key ∧ ':' ∉ key ∧ '}' ∉ key

instance (key : Text) : Decidable (PlainKey key) :=
  decidable_of_iff (key ≠ [] ∧ trim key = key ∧ ',' ∉ key ∧ ':' ∉ key ∧ '}' ∉ key)
    ⟨fun ⟨hne, htrimmed, hplain⟩ => ⟨hne, htrimmed, hplain⟩, fun h =>
      ⟨h.ne_nil, h.trimmed, h.plain⟩⟩

/-- A static argument with its value between quotes. -/
def quotedArg (quote : Char) (key value : Text) : Text :=
  key ++ ':' :: quote :: (value ++ [quote])

/-- The line has the words and the formats of the definition, the formats by any names that are
read as them, and one static argument with its value between quotes. -/
def WritesQuoted (quote : Char) (key value : Text) (d : RouteDefinition) (line : Text) : Prop :=
  ∃ gap gap' block rest, IsGap gap ∧ IsGap gap' ∧ ShowsBlock '(' ')' ShowsFormat d.formats block ∧
    WritesEnd rest ∧
    HasWords d (gap ++ '{' :: (quotedArg quote key value ++ '}' :: (gap' ++ block ++ rest))) line

theorem spells_quoted {quote : Char} (hquote : quote = '\'' ∨ quote = '"') (value : Text) :
    Spells value (quote :: (value ++ [quote])) := by
  rcases hquote with rfl | rfl
  · exact .single
  · exact .double

variable {quote : Char} {key value line : Text} {d : RouteDefinition}

/-- A value without a comma and without a closing brace comes back from between the quotes, whatever
else is in it. -/
theorem WritesQuoted.readLine (h : WritesQuoted quote key value d line)
    (hquote : quote = '\'' ∨ quote = '"') (hkey : PlainKey key)
    (hvalue : ',' ∉ value ∧ '}' ∉ value) :
    readLine line = .ok { d with staticArgs := .ofList [(key, value)], origin := none } := by
  obtain ⟨gap, gap', block, rest, hgap, hgap', hformats, hend, hwords⟩ := h
  have harg : PlainArg (key, value) := ⟨hkey.ne_nil, hkey.trimmed, hkey.plain, hvalue⟩
  have hwrites : WritesArg (key, value) (quotedArg quote key value) :=
    ⟨key, _, _, padded_self _, spells_quoted hquote value, padded_self _, rfl⟩
  have hargs :
      ShowsBlock '{' '}' ShowsArg [(key, value)] ('{' :: (quotedArg quote key value ++ ['}'])) :=
    (WritesBlock.block (.last hwrites)).shows_args fun arg hmem => List.mem_singleton.mp hmem ▸ harg
  refine readLine_eq_ok_iff.mpr ⟨_, [(key, value)], hwords, ?_, rfl, rfl⟩
  exact ⟨gap, _, gap', block, rest, hgap, hargs, hgap', hformats, hend, by simp⟩

/-- The block ends at the first closing brace, between quotes or not. -/
theorem WritesQuoted.items (h : WritesQuoted quote key value d line) {d' : RouteDefinition}
    (hread : RouteFile.readLine line = .ok d') :
    ∃ args, List.Forall₂ ShowsArg args (items ((quotedArg quote key value).takeWhile (· ≠ '}'))) ∧
      d'.staticArgs = .ofList args := by
  obtain ⟨gap, gap', block, rest, hgap, -, -, -, hwords⟩ := h
  obtain ⟨args, rest', htakes, hstatics⟩ := hwords.takes_of_readLine hread
  rw [Text.trimStart_gap_cons hgap (by decide)] at htakes
  refine ⟨args, ?_, hstatics⟩
  rcases htakes with ⟨hhead, -, -⟩ | ⟨inside, after, heq, hclosing, hitems, -⟩
  · exact absurd rfl hhead
  · have hinside : (quotedArg quote key value).takeWhile (· ≠ '}') = inside := by
      rw [← Text.takeWhile_ne_append _ (gap' ++ block ++ rest), (List.cons.inj heq).2,
        Text.takeWhile_ne_append, Text.takeWhile_ne_of_not_mem hclosing]
    rw [hinside]
    exact hitems

/-- Quotes keep a value from the colon, the blanks and the quotes of the other kind, not from the
comma and the closing brace. A line with the value between quotes is read with just that static
argument if the value has neither of these. If it has one, the line is rejected or read with other
static arguments: those that the pieces of the block show, cut at the first closing brace and at
every comma. -/
theorem readLine_quoted (hquote : quote = '\'' ∨ quote = '"') (hkey : PlainKey key)
    (h : WritesQuoted quote key value d line) :
    (',' ∉ value ∧ '}' ∉ value →
        readLine line = .ok { d with staticArgs := .ofList [(key, value)], origin := none }) ∧
      ∀ d', readLine line = .ok d' →
        (d'.staticArgs = .ofList [(key, value)] ↔ ',' ∉ value ∧ '}' ∉ value) ∧
          ∃ args,
            List.Forall₂ ShowsArg args (items ((quotedArg quote key value).takeWhile (· ≠ '}'))) ∧
            d'.staticArgs = .ofList args := by
  refine ⟨h.readLine hquote hkey, fun d' hread =>
    ⟨⟨fun hstatics => ?_, fun hvalue => ?_⟩, h.items hread⟩⟩
  · exact (plain_of_readLine hread (key, value)
      (by rw [hstatics]; exact List.mem_singleton_self _)).value_plain
  · obtain rfl := Except.ok.inj ((h.readLine hquote hkey hvalue).symm.trans hread)
    rfl

def showHome : RouteDefinition where
  method := "GET".toList
  path := "/".toList
  action := "home".toList

theorem writesQuoted_home (quote : Char) (key value : Text) {formats : List MediaType}
    {block : Text} (hformats : ShowsBlock '(' ')' ShowsFormat formats block) :
    WritesQuoted quote key value { showHome with formats }
      ("GET / home ".toList ++ '\x7b' :: (quotedArg quote key value ++ '\x7d' :: block)) := by
  obtain ⟨hmethod, hletters, hpath, haction⟩ : IsWord showHome.method ∧
      isMethod showHome.method = true ∧ IsWord showHome.path ∧ IsWord showHome.action := by decide
  have hend : WritesEnd [] := ⟨[], [], isGap_nil, .inl rfl, rfl⟩
  refine ⟨[' '], [], block, [], isGap_space, isGap_nil, hformats, hend, ?_⟩
  rw [List.append_nil, List.nil_append]
  exact ⟨[], [' '], [' '], isGap_nil, hmethod, hletters, isGap_space, List.cons_ne_nil _ _, hpath,
    isGap_space, List.cons_ne_nil _ _, haction,
    fun c hc => Option.some.inj hc ▸ isGap_space ' ' List.mem_cons_self, rfl⟩

/-- Blanks, colons, brackets, the mark of a comment and the other quote are safe between quotes,
also with a format behind the block that goes by its short name. -/
theorem readLine_quoted_safe :
    PlainKey "k".toList ∧
      WritesQuoted '"' "k".toList " a:b (c) \x7b 'd' #".toList
        { showHome with formats := [.new "application".toList "json".toList] }
        "GET / home \x7bk:\" a:b (c) \x7b 'd' #\"\x7d(json)".toList ∧
      readLine "GET / home \x7bk:\" a:b (c) \x7b 'd' #\"\x7d(json)".toList =
        .ok { showHome with
          staticArgs := .ofList [("k".toList, " a:b (c) \x7b 'd' #".toList)]
          formats := [.new "application".toList "json".toList] } := by
  have hclosing : ')' ∉ "json".toList := by decide
  have hjson : MediaType.ofFormat? "json".toList =
      some (.new "application".toList "json".toList) := by decide
  have hformats : ShowsBlock '(' ')' ShowsFormat [.new "application".toList "json".toList]
      "(json)".toList := .block hclosing (.cons hjson .nil)
  have hwrites := writesQuoted_home '"' "k".toList " a:b (c) \x7b 'd' #".toList hformats
  exact ⟨by decide, hwrites, (readLine_quoted (.inr rfl) (by decide) hwrites).1 (by decide)⟩

/-- A comma between quotes makes two static arguments of one, and with a closing brace there the
rest of the value is taken for trailing input. -/
theorem readLine_quoted_cut :
    (WritesQuoted '\'' "k".toList "a,b:c".toList showHome "GET / home \x7bk:'a,b:c'\x7d".toList ∧
        readLine "GET / home \x7bk:'a,b:c'\x7d".toList =
          .ok { showHome with staticArgs := .ofList [("k".toList, "'a".toList),
            ("b".toList, "c'".toList)] } ∧
        TextMap.ofList [("k".toList, "'a".toList), ("b".toList, "c'".toList)] ≠
          .ofList [("k".toList, "a,b:c".toList)]) ∧
      WritesQuoted '\'' "k".toList "a\x7db".toList showHome "GET / home \x7bk:'a\x7db'\x7d".toList ∧
        readLine "GET / home \x7bk:'a\x7db'\x7d".toList = .error (.trailingInput "b'\x7d".toList) :=
  ⟨⟨writesQuoted_home _ _ _ .absent, by decide +kernel, by decide +kernel⟩,
    writesQuoted_home _ _ _ .absent, by decide +kernel⟩

end Signpost.RouteFile
