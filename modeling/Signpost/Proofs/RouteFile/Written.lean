import Signpost.Proofs.MediaType.Reading
import Signpost.RouteFile.Basic

/-!
The grammar of route files, as a relation between definitions and the lines that they can be written
as. What is free is left free: blanks between the parts and around items, the order of static
arguments, the kind of quotes, comments, and lines that hold no route. `RouteFile.write` is one way
to write definitions, and it keeps to the grammar.
-/

namespace Signpost.RouteFile

open Text (IsGap)

def Padded (core t : Text) : Prop :=
  ∃ before after, IsGap before ∧ IsGap after ∧ t = before ++ core ++ after

/-- A list with commas: there is one behind each item, except that the last may do without. -/
inductive WritesItems {α : Type} (writes : α → Text → Prop) : List α → Text → Prop
  | blank {t : Text} : IsGap t → WritesItems writes [] t
  | last {x : α} {t : Text} : writes x t → WritesItems writes [x] t
  | next {x : α} {xs : List α} {t u : Text} :
      writes x t → WritesItems writes xs u → WritesItems writes (x :: xs) (t ++ ',' :: u)

/-- A list between brackets; when it has no items, the brackets may be left out too. -/
inductive WritesBlock {α : Type} (opening closing : Char) (writes : α → Text → Prop) :
    List α → Text → Prop
  | absent : WritesBlock opening closing writes [] []
  | block {xs : List α} {inside : Text} :
      WritesItems writes xs inside →
        WritesBlock opening closing writes xs (opening :: (inside ++ [closing]))

/-- A value stands between quotes of one kind. One that has no quotes in it and no blanks at its
ends may stand alone. -/
inductive Spells (value : Text) : Text → Prop
  | single : Spells value ('\'' :: (value ++ ['\'']))
  | double : Spells value ('"' :: (value ++ ['"']))
  | bare : Text.trim value = value → '\'' ∉ value → '"' ∉ value → Spells value value

def WritesArg (arg : Text × Text) (t : Text) : Prop :=
  ∃ key spelled value,
    Padded arg.1 key ∧ Spells arg.2 spelled ∧ Padded spelled value ∧ t = key ++ ':' :: value

def WritesFormat (m : MediaType) (t : Text) : Prop :=
  Padded m.text t

/-- Blanks, and a comment behind them if there is one. -/
def WritesEnd (t : Text) : Prop :=
  ∃ gap note, IsGap gap ∧ (note = [] ∨ isComment note = true) ∧ t = gap ++ note

def WritesFormats (formats : List MediaType) (t : Text) : Prop :=
  ∃ gap block rest, IsGap gap ∧ WritesBlock '(' ')' WritesFormat formats block ∧ WritesEnd rest ∧
    t = gap ++ block ++ rest

/-- What follows the action. -/
def WritesTail (d : RouteDefinition) (t : Text) : Prop :=
  ∃ gap args block rest,
    IsGap gap ∧ args.Perm d.staticArgs.entries ∧ WritesBlock '{' '}' WritesArg args block ∧
    WritesFormats d.formats rest ∧ t = gap ++ block ++ rest

/-- The line stands for the definition. There is a blank behind the method and the path, and behind
the action if anything follows it. -/
def Writes (d : RouteDefinition) (line : Text) : Prop :=
  ∃ start afterMethod afterPath tail,
    IsGap start ∧ IsGap afterMethod ∧ afterMethod ≠ [] ∧ IsGap afterPath ∧
    afterPath ≠ [] ∧ WritesTail d tail ∧ (∀ c ∈ tail.head?, Text.isBlank c = true) ∧
    line = start ++ d.method ++ (afterMethod ++ d.path ++ (afterPath ++ d.action ++ tail))

/-- The lines stand for the definitions, in order, among lines without a route. -/
inductive WritesLines : List RouteDefinition → List Text → Prop
  | done : WritesLines [] []
  | idle {ds : List RouteDefinition} {line : Text} {lines : List Text} :
      isIdle (Text.trim line) = true → WritesLines ds lines → WritesLines ds (line :: lines)
  | route {d : RouteDefinition} {ds : List RouteDefinition} {line : Text} {lines : List Text} :
      Writes d line → WritesLines ds lines → WritesLines (d :: ds) (line :: lines)

/-- The content of a route file stands for the definitions. -/
def WritesFile (ds : List RouteDefinition) (content : Text) : Prop :=
  WritesLines ds (Text.lines content)

/-- A word of a line. -/
def IsWord (t : Text) : Prop :=
  t ≠ [] ∧ ∀ c ∈ t, Text.isBlank c = false

/-- A static argument that none of the marks around it can be taken for a part of. -/
structure PlainArg (arg : Text × Text) : Prop where
  key_ne_nil : arg.1 ≠ []
  key_trimmed : Text.trim arg.1 = arg.1
  key_plain : ',' ∉ arg.1 ∧ ':' ∉ arg.1 ∧ '}' ∉ arg.1
  value_plain : ',' ∉ arg.2 ∧ '}' ∉ arg.2

/-- The parts of a definition but for its method can be written on a line. -/
structure PlainParts (d : RouteDefinition) : Prop where
  path : IsWord d.path
  action : IsWord d.action
  args : ∀ arg ∈ d.staticArgs.entries, PlainArg arg
  formats : ∀ m ∈ d.formats, (∃ t, MediaType.parse? t = some m) ∧ ',' ∉ m.text ∧ ')' ∉ m.text

-- by the characters of the word, not by all that there are
instance (t : Text) : Decidable (IsWord t) :=
  decidable_of_iff (t ≠ [] ∧ (t.all fun c => !Text.isBlank c) = true) (by simp [IsWord])

instance (arg : Text × Text) : Decidable (PlainArg arg) :=
  decidable_of_iff (arg.1 ≠ [] ∧ Text.trim arg.1 = arg.1 ∧
    (',' ∉ arg.1 ∧ ':' ∉ arg.1 ∧ '}' ∉ arg.1) ∧
      (',' ∉ arg.2 ∧ '}' ∉ arg.2))
    ⟨fun ⟨hne, htrimmed, hkey, hvalue⟩ => ⟨hne, htrimmed, hkey, hvalue⟩,
      fun h => ⟨h.key_ne_nil, h.key_trimmed, h.key_plain, h.value_plain⟩⟩

instance (d : RouteDefinition) : Decidable (PlainParts d) :=
  decidable_of_iff (IsWord d.path ∧ IsWord d.action ∧ (∀ arg ∈ d.staticArgs.entries, PlainArg arg) ∧
      ∀ m ∈ d.formats, m.Proper ∧ ',' ∉ m.text ∧ ')' ∉ m.text)
    ⟨fun ⟨hpath, haction, hargs, hformats⟩ => ⟨hpath, haction, hargs, fun m hm =>
        ⟨MediaType.proper_iff.mp (hformats m hm).1, (hformats m hm).2⟩⟩,
      fun h => ⟨h.path, h.action, h.args, fun m hm =>
        ⟨MediaType.proper_iff.mpr (h.formats m hm).1, (h.formats m hm).2⟩⟩⟩

structure Writable (d : RouteDefinition) : Prop extends PlainParts d where
  method_ne_nil : d.method ≠ []
  method : isMethod d.method = true

def writeArg (arg : Text × Text) : Text :=
  arg.1 ++ ':' :: '\'' :: (arg.2 ++ ['\''])

def writeBlock (opening closing : Char) (pieces : List Text) : Text :=
  if pieces = [] then [] else ' ' :: opening :: (Text.join [',', ' '] pieces ++ [closing])

def writeLine (d : RouteDefinition) : Text :=
  d.method ++ ' ' :: (d.path ++ ' ' ::
    (d.action ++ (writeBlock '{' '}' (d.staticArgs.entries.map writeArg) ++
    writeBlock '(' ')' (d.formats.map MediaType.text))))

/-- A route file of the definitions, one a line. -/
def write (ds : List RouteDefinition) : Text :=
  Text.join ['\n'] (ds.map writeLine)

theorem isGap_nil : IsGap [] := by
  simp [IsGap]

theorem isGap_space : IsGap [' '] := by
  simp [IsGap, Text.isBlank]

theorem padded_self (t : Text) : Padded t t :=
  ⟨[], [], isGap_nil, isGap_nil, by simp⟩

theorem padded_cons (t : Text) : Padded t (' ' :: t) :=
  ⟨[' '], [], isGap_space, isGap_nil, by simp⟩

theorem writesItems_join {α : Type} {writes : α → Text → Prop} {piece : α → Text}
    (hself : ∀ x, writes x (piece x)) (hspaced : ∀ x, writes x (' ' :: piece x)) (x : α)
    (xs : List α) :
    WritesItems writes (x :: xs) (Text.join [',', ' '] ((x :: xs).map piece)) := by
  -- behind a comma stands a blank, so the list is generalised over the text of its first item
  have hgeneral : ∀ (xs : List α) (x : α) (t : Text), writes x t →
      WritesItems writes (x :: xs) (Text.join [',', ' '] (t :: xs.map piece)) := by
    intro xs
    induction xs with
    | nil => exact fun x t ht => .last ht
    | cons y ys ih =>
      intro x t ht
      have hrest := ih y _ (hspaced y)
      cases ys with
      | nil =>
        have hjoin : Text.join [',', ' '] (t :: [y].map piece) = t ++ ',' :: ' ' :: piece y := by
          simp [Text.join]
        rw [hjoin]
        exact .next ht hrest
      | cons z zs =>
        have hjoin : Text.join [',', ' '] (t :: (y :: z :: zs).map piece) =
            t ++ ',' :: Text.join [',', ' '] ((' ' :: piece y) :: (z :: zs).map piece) := by
          simp [Text.join]
        rw [hjoin]
        exact .next ht hrest
  exact hgeneral xs x _ (hself x)

theorem writesBlock_writeBlock {α : Type} {opening closing : Char} {writes : α → Text → Prop}
    {piece : α → Text} (hself : ∀ x, writes x (piece x)) (hspaced : ∀ x, writes x (' ' :: piece x))
    (xs : List α) :
    ∃ gap block, IsGap gap ∧ WritesBlock opening closing writes xs block ∧
      writeBlock opening closing (xs.map piece) = gap ++ block := by
  cases xs with
  | nil => exact ⟨[], [], isGap_nil, .absent, rfl⟩
  | cons x xs => exact ⟨[' '], _, isGap_space, .block (writesItems_join hself hspaced x xs), rfl⟩

theorem head_writeBlock {opening closing : Char} {pieces : List Text} :
    ∀ c ∈ (writeBlock opening closing pieces).head?, c = ' ' := by
  unfold writeBlock
  split_ifs <;> simp [eq_comm]

theorem writesArg_writeArg (arg : Text × Text) : WritesArg arg (writeArg arg) :=
  ⟨_, _, _, padded_self _, .single, padded_self _, rfl⟩

theorem writesArg_spaced (arg : Text × Text) : WritesArg arg (' ' :: writeArg arg) :=
  ⟨_, _, _, padded_cons _, .single, padded_self _, rfl⟩

theorem writes_writeLine (d : RouteDefinition) : Writes d (writeLine d) := by
  obtain ⟨gap, args, hgap, hargs, hargsEq⟩ : ∃ gap block, IsGap gap ∧
      WritesBlock '{' '}' WritesArg d.staticArgs.entries block ∧
      writeBlock '{' '}' (d.staticArgs.entries.map writeArg) = gap ++ block :=
    writesBlock_writeBlock writesArg_writeArg writesArg_spaced _
  obtain ⟨gap', formats, hgap', hformats, hformatsEq⟩ : ∃ gap block, IsGap gap ∧
      WritesBlock '(' ')' WritesFormat d.formats block ∧
      writeBlock '(' ')' (d.formats.map MediaType.text) = gap ++ block :=
    writesBlock_writeBlock (fun m : MediaType => padded_self m.text) (fun m => padded_cons m.text) _
  have hend : WritesEnd [] := ⟨[], [], isGap_nil, .inl rfl, rfl⟩
  have htail : WritesTail d (gap ++ args ++ (gap' ++ formats ++ [])) :=
    ⟨gap, _, args, _, hgap, .refl _, hargs, ⟨gap', formats, [], hgap', hformats, hend, rfl⟩, rfl⟩
  rw [List.append_nil, ← hargsEq, ← hformatsEq] at htail
  refine ⟨[], [' '], [' '], _, isGap_nil, isGap_space, List.cons_ne_nil _ _, isGap_space,
    List.cons_ne_nil _ _, htail,
    fun c hc => ?_, by simp [writeLine]⟩
  have hspace : c = ' ' := by
    rw [List.head?_append, Option.mem_def, Option.or_eq_some_iff] at hc
    obtain hc | ⟨-, hc⟩ := hc
    · exact head_writeBlock c hc
    · exact head_writeBlock c hc
  rw [hspace]
  exact isGap_space ' ' List.mem_cons_self

/-- Definitions without line breaks make a file with a line for each. -/
theorem writesFile_write {ds : List RouteDefinition} (h : ∀ d ∈ ds, '\n' ∉ writeLine d) :
    WritesFile ds (write ds) := by
  have hlines : ∀ ds : List RouteDefinition, WritesLines ds (ds.map writeLine) := by
    intro ds
    induction ds with
    | nil => exact .done
    | cons d ds ih => exact .route (writes_writeLine d) ih
  cases ds with
  | nil => exact .idle rfl .done
  | cons d ds =>
    have hpieces : ∀ p ∈ (d :: ds).map writeLine, '\n' ∉ p := by
      intro p hp
      obtain ⟨e, he, rfl⟩ := List.mem_map.mp hp
      exact h e he
    rw [WritesFile, Text.lines, write, Text.splitOn_join (by simp) hpieces]
    exact hlines (d :: ds)

end Signpost.RouteFile
