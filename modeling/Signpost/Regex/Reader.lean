import Signpost.Number.Word
import Signpost.Regex.Class
import Signpost.Regex.Weight

/-!
Reading a pattern. The reader goes over the pattern once, from left to right, and keeps a stack of
the groups that are still open; `Regex.read?` gives the expression, or nothing for text that is no
pattern: look-around and back-references, counts the wrong way round, groups that do not close or
share a name, and patterns that nest or weigh too much.
-/

namespace Signpost.Regex

/-- An expression that has been read, how deep it nests, and whether a repetition may follow it. -/
structure Piece where
  regex : Regex
  depth : Nat := 0
  repeatable : Bool := true

/-- The alternatives of a group: those that are finished and the pieces of the current one, latest
first. -/
structure Branches where
  done : List Piece := []
  pieces : List Piece := []

/-- A group that is still open: what stands before it, its name, and the modes to go back to. -/
structure OpenGroup where
  outer : Branches
  name : Option Text
  modes : Modes

structure Reader where
  branches : Branches := {}
  opened : List OpenGroup := []
  modes : Modes := {}
  names : List Text := []

/-- How deep a pattern may nest. -/
def maxDepth : Nat := 250

/-- Pieces, latest first, in a row. -/
def joinPieces (step : Regex → Regex → Regex) : List Piece → Piece
  | [] => { regex := .empty }
  | [p] => p
  | pieces =>
    match pieces.reverse with
    | [] => { regex := .empty }
    | p :: ps =>
      { regex := ps.foldl (fun r q => step r q.regex) p.regex
        depth := pieces.foldl (fun d q => max d q.depth) 0 + 1 }

def Branches.close (b : Branches) : Piece :=
  joinPieces .alt (joinPieces .cat b.pieces :: b.done)

def Reader.push (s : Reader) (p : Piece) : Reader :=
  { s with branches := { s.branches with pieces := p :: s.branches.pieces } }

/-- Reads the letters of a change of modes up to `:` or `)`. A letter, or the hyphen, stands at most
once, and the hyphen not last. -/
def readModeLetters (seen : List Char) : Text → Option (List Char × Char × Text)
  | [] => none
  | c :: rest =>
    if c = ':' ∨ c = ')' then if seen.head? = some '-' then none else some (seen.reverse, c, rest)
    else if c ∈ seen ∨ c ∉ "-imsUuRx".toList then none
    else readModeLetters (c :: seen) rest

def Modes.switch (m : Modes) (letter : Char) (on : Bool) : Modes :=
  match letter with
  | 'i' => { m with ignoreCase := on }
  | 'm' => { m with multiLine := on }
  | 's' => { m with dotAll := on }
  | 'U' => { m with swapGreed := on }
  | 'u' => { m with unicode := on }
  | 'R' => { m with anyLineEnd := on }
  | 'x' => { m with verbose := on }
  | _ => m

/-- The modes after a change: letters in front of the hyphen switch on, those behind it off. -/
def Modes.change (m : Modes) (letters : List Char) (on : Bool) : Modes :=
  match letters with
  | [] => m
  | '-' :: letters => m.change letters false
  | c :: letters => (m.switch c on).change letters on

def isGroupName : Text → Bool
  | [] => false
  | c :: rest =>
    (c == '_' || Unicode.isAlphabetic c) &&
      rest.all fun d => d == '_' || d == '.' || d == '[' || d == ']' || Unicode.isAlphanumeric d

def Reader.open (s : Reader) (name : Option Text) (modes : Modes) : Reader :=
  { branches := {}, opened := ⟨s.branches, name, s.modes⟩ :: s.opened, modes := modes
    names := match name with
      | some n => n :: s.names
      | none => s.names }

def Reader.close (s : Reader) : Option Reader :=
  match s.opened with
  | [] => none
  | g :: opened =>
    let inner := s.branches.close
    let regex := match g.name with
      | some name => .group name inner.regex
      | none => inner.regex
    some ({ s with branches := g.outer, opened := opened, modes := g.modes }.push
      { regex := regex, depth := inner.depth + 1 })

def Reader.alternative (s : Reader) : Reader :=
  { s with
    branches := { done := joinPieces .cat s.branches.pieces :: s.branches.done, pieces := [] } }

def Reader.repeatLast (s : Reader) (least : Nat) (most : Option Nat) (greedy : Bool) :
    Option Reader :=
  match s.branches.pieces with
  | [] => none
  | p :: pieces =>
    if p.repeatable then
      let q : Piece :=
        { regex := .repeated p.regex least most (greedy != s.modes.swapGreed),
          depth := p.depth + 1 }
      some { s with branches := { s.branches with pieces := q :: pieces } }
    else none

/-- Reads a count, which may have blanks around it and has at most 32 bits. -/
def readCount (m : Modes) (t : Text) : Option (Nat × Text) := do
  let t := Text.trimStart t
  let (digits, rest) := m.readWhile Char.isDigit t
  let n ← Text.decimalValue? digits
  if n < wordCount 32 then return (n, Text.trimStart rest) else none

def readBounds (m : Modes) (t : Text) : Option (Nat × Option Nat × Text) := do
  let (least, rest) ← readCount m (m.skip t)
  match rest with
  | ',' :: rest =>
    match m.skip rest with
    | '}' :: rest => return (least, none, rest)
    | rest =>
      let (most, rest) ← readCount m rest
      match rest with
      | '}' :: rest => if least ≤ most then return (least, some most, rest) else none
      | _ => none
  | '}' :: rest => return (least, some least, rest)
  | _ => none

/-- A question mark behind a repetition makes it prefer fewer turns. -/
def readLazy : Text → Bool × Text
  | '?' :: rest => (true, rest)
  | t => (false, t)

def literalPiece (m : Modes) (c : Char) : Piece :=
  if m.unicode || c.toNat < 128 then { regex := .set (m.finish false (.single c)) }
  else { regex := .set (.single c) }

/-- The piece for the dot. It is refused where only ASCII may match. -/
def dotPiece? (m : Modes) : Option Piece :=
  if !m.unicode then none
  else if m.dotAll then some { regex := .set .all }
  else if m.anyLineEnd then some { regex := .set (.compl (.union (.single '\n') (.single '\r'))) }
  else some { regex := .set (.compl (.single '\n')) }

/-- The piece for an atom. A byte beyond ASCII is refused where only ASCII may match. -/
def atomPiece? (m : Modes) : Atom → Option Piece
  | .literal c asByte =>
    if asByte && !m.unicode && 128 ≤ c.toNat then none else some (literalPiece m c)
  | .set s => some { regex := .set s }
  | .look l => some { regex := .look l }

inductive Part where
  | piece (p : Piece)
  /-- A change of modes from here on. -/
  | change (modes : Modes)
  | opening (name : Option Text) (modes : Modes)
  | closing
  | alternative
  | repetition (least : Nat) (most : Option Nat) (greedy : Bool)

def readNamedGroup (m : Modes) (t : Text) : Option (Part × Text) := do
  let (name, rest) ← Text.cutFirst '>' t
  if isGroupName name then return (.opening (some name) m, rest) else none

def readModeChange (m : Modes) (t : Text) : Option (Part × Text) := do
  let (letters, last, rest) ← readModeLetters [] t
  let modes := m.change letters true
  if last = ':' then return (.opening none modes, rest)
  else if letters = [] then none
  else return (.change modes, rest)

def readGroupStart (m : Modes) (t : Text) : Option (Part × Text) :=
  match m.skip t with
  | '?' :: '=' :: _ | '?' :: '!' :: _ | '?' :: '<' :: '=' :: _ | '?' :: '<' :: '!' :: _ => none
  | '?' :: 'P' :: '<' :: rest => readNamedGroup m rest
  | '?' :: '<' :: rest => readNamedGroup m rest
  | '?' :: rest => readModeChange m rest
  | t => some (.opening none m, t)

def readRepetition (least : Nat) (most : Option Nat) (t : Text) : Option (Part × Text) :=
  let (isLazy, rest) := readLazy t
  some (.repetition least most (!isLazy), rest)

/-- The piece for a sign of the start or the end: of the text, or of a line. -/
def anchorPiece (m : Modes) (line anyLine text : Look) : Piece :=
  { regex := .look (if m.multiLine then if m.anyLineEnd then anyLine else line else text) }

def readPart (m : Modes) (c : Char) (rest : Text) : Option (Part × Text) :=
  match c with
  | '(' => readGroupStart m rest
  | ')' => some (.closing, rest)
  | '|' => some (.alternative, rest)
  | '[' => do
    let (members, depth, rest) ← readBracket m rest
    return (.piece { regex := .set members, depth := depth }, rest)
  | '?' => readRepetition 0 (some 1) rest
  | '*' => readRepetition 0 none rest
  | '+' => readRepetition 1 none rest
  | '{' => do
    let (least, most, rest) ← readBounds m rest
    readRepetition least most (m.skip rest)
  | '\\' => do
    let (atom, rest) ← readEscape m rest
    return (.piece (← atomPiece? m atom), rest)
  | '.' => (dotPiece? m).map fun p => (.piece p, rest)
  | '^' => some (.piece (anchorPiece m .lineStart .anyLineStart .textStart), rest)
  | '$' => some (.piece (anchorPiece m .lineEnd .anyLineEnd .textEnd), rest)
  | c => some (.piece (literalPiece m c), rest)

/-- What a part of a pattern does. No two groups share a name, and a change of modes is nothing to
repeat. -/
def Reader.apply (s : Reader) : Part → Option Reader
  | .piece p => some (s.push p)
  | .change modes => some ({ s with modes := modes }.push { regex := .empty, repeatable := false })
  | .opening (some name) modes =>
    if s.names.contains name then none else some (s.open (some name) modes)
  | .opening none modes => some (s.open none modes)
  | .closing => s.close
  | .alternative => some s.alternative
  | .repetition least most greedy => s.repeatLast least most greedy

def Reader.step (s : Reader) (c : Char) (rest : Text) : Option (Reader × Text) := do
  let (part, rest) ← readPart s.modes c rest
  return (← s.apply part, rest)

/-- Reads a whole pattern. Each part takes at least one character, so its length is fuel enough. -/
def Reader.run (fuel : Nat) (s : Reader) (t : Text) : Option Reader :=
  match s.modes.skip t with
  | [] => some s
  | c :: rest =>
    match fuel with
    | 0 => none
    | fuel + 1 => do
      let (s, rest) ← s.step c rest
      Reader.run fuel s rest

/-- The expression that a pattern stands for; `ignoreCase` makes it ignore case from the start. -/
def read? (ignoreCase : Bool) (pattern : Text) : Option Regex := do
  let s ← Reader.run pattern.length { modes := { ignoreCase } } pattern
  if s.opened.isEmpty then
    let whole := s.branches.close
    if whole.depth ≤ maxDepth ∧ whole.regex.weight ≤ maxWeight then return whole.regex else none
  else none

end Signpost.Regex
