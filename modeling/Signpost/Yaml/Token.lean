import Signpost.Yaml.Block
import Signpost.Yaml.Flow
import Signpost.Yaml.Tag

/-!
The tokens of a YAML text. Indentation becomes tokens of its own, and a key that has no mark in
front of it is only known as one when its colon comes: until then the place where it started is
remembered. Such a key has to end on its line and within 1024 characters.
-/

namespace Signpost.Yaml

inductive Token where
  | directive (d : Directive)
  | documentStart
  | documentEnd
  | blockSequenceStart
  | blockMappingStart
  | blockEnd
  | flowSequenceStart
  | flowSequenceEnd
  | flowMappingStart
  | flowMappingEnd
  | blockEntry
  | flowEntry
  | key
  | value
  | alias (name : Text)
  | anchor (name : Text)
  | tag (t : WrittenTag)
  | scalar (plain : Bool) (text : Text)
  deriving Repr, DecidableEq

/-- A place where a key may have started. -/
structure KeyStart where
  /-- No other token may start there, because the line starts as one of an open mapping. -/
  required : Bool
  /-- How many tokens precede it. -/
  count : Nat
  place : Cursor

/-- How many characters a key without a mark may take. -/
def maxKeyLength : Nat := 1024

/-- A text that has been cut into tokens up to a place. -/
structure Layout where
  cursor : Cursor
  /-- The column of the innermost open block, counted from one; zero if there is none. -/
  indent : Nat := 0
  indents : List Nat := []
  keyAllowed : Bool := true
  /-- Where a key may have started, outside of all flow collections or in the innermost one. -/
  keyStart : Option KeyStart := none
  /-- The same around each open flow collection, innermost first. -/
  outerKeys : List (Option KeyStart) := []
  /-- The tokens, latest first, and their number. -/
  tokens : List Token := []
  count : Nat := 0

namespace Layout

def inFlow (s : Layout) : Bool :=
  !s.outerKeys.isEmpty

def column (s : Layout) : Nat :=
  s.cursor.column + 1

def emit (s : Layout) (t : Token) : Layout :=
  { s with tokens := t :: s.tokens, count := s.count + 1 }

/-- Adds a token behind the first `n`. -/
def emitAt (s : Layout) (n : Nat) (t : Token) : Layout :=
  let later := s.count - n
  { s with tokens := s.tokens.take later ++ t :: s.tokens.drop later, count := s.count + 1 }

def pass (s : Layout) (n : Nat) : Layout :=
  { s with cursor := s.cursor.pass n }

/-- Passes over white space and comments. Tabs count as white space only where no key can start. A
new line outside of flow collections may start with a key. -/
def skipSpace : (fuel : Nat) → Layout → Layout
  | 0, s => s
  | fuel + 1, s =>
    let c := s.cursor
    let c := if c.column == 0 && c.rest.head? == some '\ufeff' then c.pass 1 else c
    let tabs := s.inFlow || !s.keyAllowed
    let c := (c.skipWhile fun x => x == ' ' || (tabs && x == '\t')).skipComment
    if c.rest.head?.any isBreak then
      skipSpace fuel { s with cursor := c.takeBreak.2, keyAllowed := s.keyAllowed || !s.inFlow }
    else { s with cursor := c }

/-- Gives up the place where a key may have started; one that was required is missed. -/
def dropKey (s : Layout) : Option Layout :=
  if s.keyStart.any (·.required) then none else some { s with keyStart := none }

/-- The place while a key that started there can still end at the cursor. -/
def liveKey (c : Cursor) (k : Option KeyStart) : Option (Option KeyStart) :=
  match k with
  | none => some none
  | some k =>
    if k.place.line < c.line ∨ k.place.index + maxKeyLength < c.index then
      if k.required then none else some none
    else some (some k)

def dropStaleKeys (s : Layout) : Option Layout := do
  return { s with keyStart := ← liveKey s.cursor s.keyStart,
                  outerKeys := ← s.outerKeys.mapM (liveKey s.cursor) }

def markKey (s : Layout) : Option Layout :=
  if s.keyAllowed then do
    let s ← s.dropKey
    return { s with keyStart := some ⟨!s.inFlow && s.indent == s.column, s.count, s.cursor⟩ }
  else some s

/-- Opens a block whose column is deeper than that of the innermost one, with a token behind the
first `n`. -/
def openBlock (s : Layout) (column n : Nat) (t : Token) : Layout :=
  if !s.inFlow && s.indent < column then
    { s with indent := column, indents := s.indent :: s.indents }.emitAt n t
  else s

/-- Closes the blocks deeper than a column; `open_` are the columns of the open ones, innermost
first. -/
def closeBlocksFrom (column : Nat) : (open_ : List Nat) → Layout → Layout
  | [], s => s
  | outer :: more, s =>
    if column < s.indent then
      closeBlocksFrom column more ({ s with indent := outer, indents := more }.emit .blockEnd)
    else s

def closeBlocks (s : Layout) (column : Nat) : Layout :=
  if s.inFlow then s else closeBlocksFrom column s.indents s

/-- Adds a token that stands outside of all blocks. -/
def outside (s : Layout) (t : Token) (after : Cursor) : Option Layout := do
  let s ← (s.closeBlocks 0).dropKey
  return { s with keyAllowed := false, cursor := after }.emit t

/-- Adds a token that may start a key but behind which none can. -/
def word (s : Layout) (t : Token) (after : Cursor) : Option Layout := do
  let s ← s.markKey
  return { s with keyAllowed := false, cursor := after }.emit t

def openFlow (s : Layout) (t : Token) : Option Layout := do
  let s ← s.markKey
  return ({ s with keyStart := none, outerKeys := s.keyStart :: s.outerKeys,
                   keyAllowed := true }.pass 1).emit t

def closeFlow (s : Layout) (t : Token) : Option Layout := do
  let s ← s.dropKey
  let s : Layout := match s.outerKeys with
    | k :: more => { s with keyStart := k, outerKeys := more }
    | [] => s
  return ({ s with keyAllowed := false }.pass 1).emit t

def flowEntry (s : Layout) : Option Layout := do
  let s ← s.dropKey
  return ({ s with keyAllowed := true }.pass 1).emit .flowEntry

/-- Opens a block for a mark at its start, if there is none in this column. Outside of flow
collections such a mark may stand only where a key could. -/
def openAtMark (s : Layout) (t : Token) : Option Layout :=
  if !s.inFlow && !s.keyAllowed then none else some (s.openBlock s.column s.count t)

def blockEntry (s : Layout) : Option Layout := do
  let s ← (← s.openAtMark .blockSequenceStart).dropKey
  return ({ s with keyAllowed := true }.pass 1).emit .blockEntry

def markedKey (s : Layout) : Option Layout := do
  let s ← (← s.openAtMark .blockMappingStart).dropKey
  return ({ s with keyAllowed := !s.inFlow }.pass 1).emit .key

/-- Adds the mark of a value, and in front of its key the mark that this was one. -/
def value (s : Layout) : Option Layout :=
  match s.keyStart with
  | some k =>
    let s := (s.emitAt k.count .key).openBlock (k.place.column + 1) k.count .blockMappingStart
    some (({ s with keyStart := none, keyAllowed := false }.pass 1).emit .value)
  | none => do
    let s ← s.openAtMark .blockMappingStart
    return ({ s with keyAllowed := !s.inFlow }.pass 1).emit .value

def blockScalar (s : Layout) (literal : Bool) : Option Layout := do
  let s ← s.dropKey
  let (t, after) ← readBlock literal s.indent (s.cursor.pass 1)
  return { s with keyAllowed := true, cursor := after }.emit (.scalar false t)

def quotedScalar (s : Layout) (quote : Char) : Option Layout := do
  let c := s.cursor.pass 1
  let (t, after) ← readQuoted quote (c.rest.length + 1) [] c
  s.word (.scalar false t) after

/-- Adds a plain scalar. If it ended on an earlier line, a key may start here. -/
def plainScalar (s : Layout) : Option Layout := do
  let r ← readPlain s.inFlow s.indent (s.cursor.rest.length + 1) ⟨[], {}, s.cursor⟩
  let s ← s.word (.scalar true r.text) r.cursor
  return { s with keyAllowed := r.gap.broken }

def reserved : Text :=
  "-?:,[]\x7b\x7d#&*!|>'\"%@`".toList

def startsPlain (inFlow : Bool) (c : Char) (rest : Text) : Bool :=
  (!isSpace c && !isBreak c && !reserved.contains c) ||
    (c == '-' && !rest.head?.any isSpace) ||
    (!inFlow && (c == '?' || c == ':') && !atWordEnd rest)

def addToken (s : Layout) (c : Char) (rest : Text) : Option Layout :=
  let alone := atWordEnd rest
  if s.cursor.column == 0 && c == '%' then do
    let (d, after) ← readDirective s.cursor
    s.outside (.directive d) after
  else if s.cursor.atDocumentStart then s.outside .documentStart (s.cursor.pass 3)
  else if s.cursor.atDocumentEnd then s.outside .documentEnd (s.cursor.pass 3)
  else if c == '[' then s.openFlow .flowSequenceStart
  else if c == '{' then s.openFlow .flowMappingStart
  else if c == ']' then s.closeFlow .flowSequenceEnd
  else if c == '}' then s.closeFlow .flowMappingEnd
  else if c == ',' then s.flowEntry
  else if c == '-' && alone then s.blockEntry
  else if c == '?' && (s.inFlow || alone) then s.markedKey
  else if c == ':' && (s.inFlow || alone) then s.value
  else if c == '*' then do
    let (name, after) ← readAnchor s.cursor
    s.word (.alias name) after
  else if c == '&' then do
    let (name, after) ← readAnchor s.cursor
    s.word (.anchor name) after
  else if c == '!' then do
    let (t, after) ← readTag s.inFlow s.cursor
    s.word (.tag t) after
  else if c == '|' && !s.inFlow then s.blockScalar true
  else if c == '>' && !s.inFlow then s.blockScalar false
  else if c == '\'' || c == '"' then s.quotedScalar c
  else if startsPlain s.inFlow c rest then s.plainScalar
  else none

def run : (fuel : Nat) → Layout → Option Layout
  | 0, _ => none
  | fuel + 1, s => do
    let s ← (skipSpace (s.cursor.rest.length + 1) s).dropStaleKeys
    let s := s.closeBlocks s.column
    match s.cursor.rest with
    | [] => (s.closeBlocks 0).dropKey
    | c :: rest => run fuel (← s.addToken c rest)

end Layout

def isPrintable (c : Char) : Bool :=
  let n := c.toNat
  n == 9 || n == 10 || n == 13 || (32 ≤ n && n ≤ 126) || n == 0x85 || (0xA0 ≤ n && n ≤ 0xD7FF) ||
    (0xE000 ≤ n && n ≤ 0xFFFD) || 0x10000 ≤ n

def Token.ofText? (t : Text) : Option (List Token) :=
  if t.all isPrintable then (Layout.run (t.length + 1)
    { cursor := .start t }).map (·.tokens.reverse) else none

end Signpost.Yaml
