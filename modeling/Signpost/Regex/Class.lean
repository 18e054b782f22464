import Signpost.Regex.Basic
import Signpost.Regex.Property
import Signpost.Text.Decimal

/-!
Reading the smallest parts of a pattern: escapes, and sets between brackets. Sets nest and have
three operators, intersection, difference and symmetric difference, all of one rank and below
juxtaposition, which is union. A set is read with a stack of the brackets and operators that are
still open.
-/

namespace Signpost.Regex

/-- How a stretch of a pattern is to be read; changed by `(?flags)`. -/
structure Modes where
  ignoreCase : Bool := false
  multiLine : Bool := false
  dotAll : Bool := false
  swapGreed : Bool := false
  unicode : Bool := true
  anyLineEnd : Bool := false
  verbose : Bool := false
  deriving Repr, DecidableEq

/-- Skips blanks and comments, which run from `#` to the end of the line. -/
def skipComments (inComment : Bool) : Text → Text
  | [] => []
  | c :: rest =>
    if inComment then skipComments (c != '\n') rest
    else if Text.isBlank c then skipComments false rest
    else if c = '#' then skipComments true rest
    else c :: rest

/-- What follows once the blanks that do not count have been skipped. -/
def Modes.skip (m : Modes) (t : Text) : Text :=
  if m.verbose then skipComments false t else t

theorem skipComments_length (inComment : Bool) (t : Text) :
    (skipComments inComment t).length ≤ t.length := by
  induction t generalizing inComment with
  | nil => simp [skipComments]
  | cons c rest ih =>
    have hle : ∀ b, (skipComments b rest).length ≤ (c :: rest).length := by
      intro b
      exact Nat.le_succ_of_le (ih b)
    simp only [skipComments]
    split
    · exact hle _
    · split
      · exact hle _
      · split
        · exact hle _
        · exact Nat.le_refl _

theorem Modes.skip_length (m : Modes) (t : Text) : (m.skip t).length ≤ t.length := by
  unfold skip
  split
  · exact skipComments_length false t
  · exact Nat.le_refl _

/-- The characters of a kind in front of a text, with the blanks that do not count left out, and the
text behind them. -/
def Modes.readWhile (m : Modes) (p : Char → Bool) : Text → Text × Text
  | [] => ([], [])
  | c :: rest =>
    if p c then
      let (taken, rest) := m.readWhile p (m.skip rest)
      (c :: taken, rest)
    else ([], c :: rest)
termination_by t => t.length
decreasing_by exact Nat.lt_succ_of_le (m.skip_length rest)

inductive Atom where
  /-- One character; `asByte` when it was written as a byte of two hexadecimal digits. -/
  | literal (c : Char) (asByte : Bool)
  | set (s : CharSet)
  | look (l : Look)

def charOfCode? (n : Nat) : Option Char :=
  if h : n.isValidChar then some (Char.ofNatAux n h) else none

def readHexDigits (m : Modes) : (count : Nat) → (value : Nat) → Text → Option (Nat × Text)
  | 0, value, t => some (value, t)
  | _ + 1, _, [] => none
  | count + 1, value, c :: rest => do
    readHexDigits m count (value * 16 + (← Text.digitValue? 16 c)) (m.skip rest)

def readBracedHex (m : Modes) (inside : Text) (rest : Text) : Option (Nat × Text) := do
  let digits := if m.verbose then inside.filter fun c => !Text.isBlank c else inside
  return (← Text.numberValue? 16 digits, m.skip rest)

/-- Reads a character given by its code, after `x`, `u` or `U`. -/
def readCode (m : Modes) (kind : Char) (t : Text) : Option (Atom × Text) := do
  match m.skip t with
  | '{' :: rest =>
    let (inside, rest) ← Text.cutFirst '}' rest
    let (code, rest) ← readBracedHex m inside rest
    return (.literal (← charOfCode? code) false, rest)
  | t =>
    let count := if kind = 'x' then 2 else if kind = 'u' then 4 else 8
    let (code, rest) ← readHexDigits m count 0 t
    return (.literal (← charOfCode? code) (kind == 'x'), rest)

/-- Folds case into a set and complements it, as a bracket or a property escape asks. -/
def Modes.finish (m : Modes) (negated : Bool) (s : CharSet) : CharSet :=
  let s := if m.ignoreCase then if m.unicode then .variants s else .asciiVariants s else s
  if negated then .compl s else s

/-- The set of a property escape, by what stands between its braces. -/
def propertyNamed? (name : Text) : Option CharSet :=
  match Text.cutFirst '!' name with
  | some (property, '=' :: value) => CharProperty.withValue? property value
  | _ =>
    match Text.cutFirst ':' name with
    | some (property, value) => CharProperty.withValue? property value
    | none =>
      match Text.cutFirst '=' name with
      | some (property, value) => CharProperty.withValue? property value
      | none => CharProperty.named? name

def readProperty (m : Modes) (negated : Bool) (t : Text) : Option (Atom × Text) := do
  if !m.unicode then none
  else
    match m.skip t with
    | [] => none
    | '{' :: rest =>
      let (inside, rest) ← Text.cutFirst '}' rest
      let inside := if m.verbose then inside.filter fun c => !Text.isBlank c else inside
      return (.set (m.finish negated (← propertyNamed? inside)), rest)
    | c :: rest =>
      if c = '\\' then none
      else return (.set (m.finish negated (← CharProperty.named? [c])), m.skip rest)

/-- The ASCII members of the classes of digits, blanks and word characters. -/
def asciiDigits : CharSet := .range '0' '9'

def asciiBlanks : CharSet := .ofRanges [('\t', '\r'), (' ', ' ')]

def asciiWordChars : CharSet := .ofRanges [('0', '9'), ('A', 'Z'), ('_', '_'), ('a', 'z')]

/-- The set of a one-letter class; its complement is refused where only ASCII may match. -/
def letterClass? (m : Modes) (letter : Char) : Option CharSet :=
  let pick (p : CharProperty) (ascii : CharSet) : CharSet :=
    if m.unicode then .property p else ascii
  let complement (s : CharSet) : Option CharSet := if m.unicode then some (.compl s) else none
  match letter with
  | 'd' => some (pick .digit asciiDigits)
  | 's' => some (pick .blank asciiBlanks)
  | 'w' => some (pick .word asciiWordChars)
  | 'D' => complement (pick .digit asciiDigits)
  | 'S' => complement (pick .blank asciiBlanks)
  | 'W' => complement (pick .word asciiWordChars)
  | _ => none

def isBoundaryLetter (c : Char) : Bool :=
  c.isAlpha || c == '-'

def boundaryNamed? (unicode : Bool) (name : Text) : Option Look :=
  match String.ofList name with
  | "start" => some (.wordStart unicode)
  | "end" => some (.wordEnd unicode)
  | "start-half" => some (.wordStartHalf unicode)
  | "end-half" => some (.wordEndHalf unicode)
  | _ => none

/-- Reads what may follow `\b`: the name of a special boundary between braces. Braces that cannot
hold a name are left for a repetition. -/
def readBoundary (m : Modes) (t : Text) : Option (Atom × Text) :=
  match t with
  | '{' :: rest =>
    match m.skip rest with
    | [] => none
    | c :: inside =>
      if isBoundaryLetter c then
        match m.readWhile isBoundaryLetter (c :: inside) with
        | (name, '}' :: rest) => (boundaryNamed? m.unicode name).map fun l => (.look l, rest)
        | _ => none
      else some (.look (.wordBoundary m.unicode), t)
  | _ => some (.look (.wordBoundary m.unicode), t)

def readEscape (m : Modes) : Text → Option (Atom × Text)
  | [] => none
  | c :: rest =>
    if c.isDigit then none
    else if c = 'x' ∨ c = 'u' ∨ c = 'U' then readCode m c rest
    else if c = 'p' ∨ c = 'P' then readProperty m (c == 'P') rest
    else if "dswDSW".toList.contains c then (letterClass? m c).map fun s => (.set s, rest)
    else match c with
      | 'a' => some (.literal '\x07' false, rest)
      | 'f' => some (.literal '\x0c' false, rest)
      | 't' => some (.literal '\t' false, rest)
      | 'n' => some (.literal '\n' false, rest)
      | 'r' => some (.literal '\r' false, rest)
      | 'v' => some (.literal '\x0b' false, rest)
      | 'A' => some (.look .textStart, rest)
      | 'z' => some (.look .textEnd, rest)
      | 'b' => readBoundary m rest
      | 'B' => some (.look (.notWordBoundary m.unicode), rest)
      | '<' => some (.look (.wordStart m.unicode), rest)
      | '>' => some (.look (.wordEnd m.unicode), rest)
      | _ => if c.toNat < 128 && !c.isAlphanum then some (.literal c false, rest) else none

def asciiClass? (name : String) : Option CharSet :=
  match name with
  | "alnum" => some (.ofRanges [('0', '9'), ('A', 'Z'), ('a', 'z')])
  | "alpha" => some (.ofRanges [('A', 'Z'), ('a', 'z')])
  | "ascii" => some (.range '\x00' '\x7f')
  | "blank" => some (.ofRanges [('\t', '\t'), (' ', ' ')])
  | "cntrl" => some (.ofRanges [('\x00', '\x1f'), ('\x7f', '\x7f')])
  | "digit" => some (.range '0' '9')
  | "graph" => some (.range '!' '~')
  | "lower" => some (.range 'a' 'z')
  | "print" => some (.range ' ' '~')
  | "punct" => some (.ofRanges [('!', '/'), (':', '@'), ('[', '\x60'), ('\x7b', '~')])
  | "space" => some (.ofRanges [('\t', '\r'), (' ', ' ')])
  | "upper" => some (.range 'A' 'Z')
  | "word" => some (.ofRanges [('0', '9'), ('A', 'Z'), ('_', '_'), ('a', 'z')])
  | "xdigit" => some (.ofRanges [('0', '9'), ('A', 'F'), ('a', 'f')])
  | _ => none

def readCaret : Text → Bool × Text
  | '^' :: rest => (true, rest)
  | t => (false, t)

/-- Reads a named ASCII class after its opening bracket; `none` when there is none, and the bracket
then opens a set. The class has no value where its complement would leave ASCII. -/
def readAsciiClass (m : Modes) : Text → Option (Option CharSet × Text)
  | ':' :: rest =>
    let (negated, rest) := readCaret rest
    match Text.cutFirst ':' rest with
    | some (name, ']' :: rest) =>
      (asciiClass? (String.ofList name)).map fun s =>
        (if negated && !m.unicode then none else some (m.finish negated s), rest)
    | _ => none
  | _ => none

inductive SetOperator where
  | inter
  | diff
  | symmDiff
  deriving Repr, DecidableEq

def SetOperator.apply : SetOperator → CharSet → CharSet → CharSet
  | inter, a, b => .inter a b
  | diff, a, b => a.diff b
  | symmDiff, a, b => a.symmDiff b

/-- A set under construction: how many items it has, and how deep they nest. -/
structure SetItems where
  set : CharSet := .empty
  count : Nat := 0
  depth : Nat := 0

def SetItems.add (items : SetItems) (s : CharSet) (depth : Nat) : SetItems :=
  ⟨if items.count = 0 then s else .union items.set s, items.count + 1, max items.depth depth⟩

/-- Several items nest one level deeper than one. -/
def SetItems.nesting (items : SetItems) : Nat :=
  if items.count ≤ 1 then items.depth else items.depth + 1

/-- What is still open while a set is read. -/
inductive OpenSet where
  /-- A bracket, with the items before it. -/
  | bracket (outer : SetItems) (negated : Bool)
  /-- An operator, with its left side and how deep that nests. -/
  | operator (op : SetOperator) (left : CharSet) (depth : Nat)

/-- Applies the operator that waits for its right side, if there is one. -/
def applyWaiting (m : Modes) (right : CharSet) (depth : Nat) :
    List OpenSet → CharSet × Nat × List OpenSet
  | .operator op left leftDepth :: opened =>
    (op.apply (m.finish false left) (m.finish false right), max leftDepth depth + 1, opened)
  | opened => (right, depth, opened)

def readNegation (m : Modes) (t : Text) : Bool × Text :=
  match m.skip t with
  | '^' :: rest => (true, m.skip rest)
  | t => (false, t)

/-- Reads what stands for itself at the start of a set and nowhere else: hyphens, or a closing
bracket. -/
def readFirstItems (m : Modes) (t : Text) : SetItems × Text :=
  match m.readWhile (· == '-') t with
  | ([], ']' :: rest) => (({} : SetItems).add (.single ']') 0, m.skip rest)
  | (hyphens, rest) => (hyphens.foldl (fun items c => items.add (.single c) 0) {}, rest)

def readSetStart (m : Modes) (t : Text) : Bool × SetItems × Text :=
  let (negated, t) := readNegation m t
  (negated, readFirstItems m t)

/-- The next character that counts after the one in front. -/
def peekAfter (m : Modes) (rest : Text) : Option Char :=
  if m.verbose then
    match skipComments false rest with
    | c :: _ => some c
    | [] => rest.head?
  else rest.head?

/-- Reads one end of an interval, or an item. -/
def readSetAtom (m : Modes) : Text → Option (Atom × Text)
  | [] => none
  | '\\' :: rest => readEscape m rest
  | c :: rest => some (.literal c false, rest)

/-- A character may stand in a set: any, or only ASCII where only ASCII may match. -/
def allowedInSet (m : Modes) (c : Char) : Bool :=
  m.unicode || c.toNat < 128

def atomSet? (m : Modes) : Atom → Option CharSet
  | .literal c _ => if allowedInSet m c then some (.single c) else none
  | .set s => some s
  | .look _ => none

/-- Reads an item of a set: a character, an interval or a class. -/
def readSetItem (m : Modes) (t : Text) : Option (CharSet × Text) := do
  let (first, rest) ← readSetAtom m t
  match m.skip rest with
  | [] => none
  | '-' :: afterHyphen =>
    let next := peekAfter m afterHyphen
    if next = some ']' ∨ next = some '-' then return (← atomSet? m first, '-' :: afterHyphen)
    else
      match m.skip afterHyphen with
      | [] => none
      | afterHyphen =>
        let (last, rest) ← readSetAtom m afterHyphen
        match first, last with
        | .literal a _, .literal b _ =>
          if a ≤ b ∧ allowedInSet m a ∧ allowedInSet m b then return (.range a b, rest) else none
        | _, _ => none
  | rest => return (← atomSet? m first, rest)

inductive SetPart where
  /-- A bracket that opens a set, with what stands at its start. -/
  | opening (negated : Bool) (items : SetItems)
  | closing
  | operator (op : SetOperator)
  | item (s : CharSet)

def readSetPart (m : Modes) (t : Text) : Option (SetPart × Text) :=
  match m.skip t with
  | [] => none
  | '[' :: rest =>
    match readAsciiClass m rest with
    | some (s, rest) => s.map fun s => (.item s, rest)
    | none =>
      let (negated, items, rest) := readSetStart m rest
      some (.opening negated items, rest)
  | ']' :: rest => some (.closing, rest)
  | '&' :: '&' :: rest => some (.operator .inter, rest)
  | '-' :: '-' :: rest => some (.operator .diff, rest)
  | '~' :: '~' :: rest => some (.operator .symmDiff, rest)
  | t => (readSetItem m t).map fun (s, rest) => (.item s, rest)

inductive SetState where
  | within (opened : List OpenSet) (items : SetItems)
  /-- At the end: the set, and how deep it nests. -/
  | finished (s : CharSet) (depth : Nat)

def SetPart.next (m : Modes) (opened : List OpenSet) (items : SetItems) : SetPart → Option SetState
  | opening negated inner => some (.within (.bracket items negated :: opened) inner)
  | item s => some (.within opened (items.add s 0))
  | operator op =>
    let (left, depth, opened) := applyWaiting m items.set items.nesting opened
    some (.within (.operator op left depth :: opened) {})
  | closing =>
    let (s, depth, opened) := applyWaiting m items.set items.nesting opened
    match opened with
    | .bracket outer negated :: opened =>
      if negated && !m.unicode then none
      else
        let s := m.finish negated s
        match opened with
        | [] => some (.finished s (depth + 1))
        | _ => some (.within opened (outer.add s (depth + 1)))
    | _ => none

/-- Reads a set after its opening bracket, with the brackets and operators in `opened` around it:
the set, how deep it nests, and the rest of the pattern. -/
def readSet (m : Modes) :
    (fuel : Nat) → List OpenSet → SetItems → Text → Option (CharSet × Nat × Text)
  | 0, _, _, _ => none
  | fuel + 1, opened, items, t => do
    let (part, rest) ← readSetPart m t
    match ← part.next m opened items with
    | .within opened items => readSet m fuel opened items rest
    | .finished s depth => return (s, depth, rest)

def readBracket (m : Modes) (t : Text) : Option (CharSet × Nat × Text) :=
  let (negated, items, rest) := readSetStart m t
  readSet m (t.length + 1) [.bracket {} negated] items rest

end Signpost.Regex
