import Signpost.Text.Decimal
import Signpost.Yaml.Cursor

/-!
Scalars that are blocks of lines. A literal block keeps its line breaks, a folded one folds those
between lines that start with no white space. What is left of the breaks at the end is told by the
header.
-/

namespace Signpost.Yaml

/-- What becomes of the line breaks at the end of a block. -/
inductive Chomping where
  | strip
  | clip
  | keep
  deriving Repr, DecidableEq

/-- What the header of a block says: its chomping, and its indentation if that is given. -/
structure BlockHeader where
  chomping : Chomping := .clip
  indent : Option Nat := none
  deriving Repr

def readChomping (c : Cursor) : Option (Chomping × Cursor) :=
  match c.rest with
  | '+' :: _ => some (.keep, c.pass 1)
  | '-' :: _ => some (.strip, c.pass 1)
  | _ => none

/-- Reads an indentation, a digit that is not zero. No digit leaves it open, a zero is refused. -/
def readIndentation (c : Cursor) : Option (Option Nat × Cursor) :=
  match c.rest with
  | x :: _ =>
    if x == '0' then none
    else if x.isDigit then some (some (x.toNat - '0'.toNat), c.pass 1)
    else some (none, c)
  | [] => some (none, c)

/-- Reads the header of a block after its first character: chomping and indentation in either order,
then the end of the line. -/
def readBlockHeader (c : Cursor) : Option (BlockHeader × Cursor) :=
  match readChomping c with
  | some (chomping, c) => do
    let (indent, c) ← readIndentation c
    return (⟨chomping, indent⟩, ← c.endLine?)
  | none => do
    let (indent, c) ← readIndentation c
    match indent, readChomping c with
    | some _, some (chomping, c) => return (⟨chomping, indent⟩, ← c.endLine?)
    | _, _ => return (⟨.clip, indent⟩, ← c.endLine?)

/-- Blank lines: their breaks, and the deepest column that spaces led to. -/
structure BlankLines where
  breaks : Text := []
  deepest : Nat := 0

/-- Passes over blank lines and the indentation behind them, which goes up to `indent`, or as far as
spaces go while that is unknown. A tab may not stand in it. -/
def Cursor.takeBlankLines (indent : Option Nat) :
    (fuel : Nat) → BlankLines → Cursor → Option (BlankLines × Cursor)
  | 0, _, _ => none
  | fuel + 1, b, c =>
    let spaces := (c.rest.takeWhile (· == ' ')).length
    let c := c.pass (match indent with
      | some n => min spaces (n - c.column)
      | none => spaces)
    let b := { b with deepest := max b.deepest c.column }
    let open_ := indent.all fun n => c.column < n
    match c.rest with
    | x :: _ =>
      if open_ && x == '\t' then none
      else if isBreak x then
        let (br, next) := c.takeBreak
        takeBlankLines indent fuel { b with breaks := b.breaks ++ br } next
      else some (b, c)
    | [] => some (b, c)

/-- A block as far as it has been read: its text without the last line break, that break, the blank
lines behind it, and whether the last line starts with white space. -/
structure BlockLines where
  text : Text := []
  lastBreak : Text := []
  blank : Text := []
  spaced : Bool := false

/-- The block with its line breaks joined to it, in front of a line that starts with white space or
not. -/
def BlockLines.joined (literal spaced : Bool) (b : BlockLines) : Text :=
  let folds := !literal && b.lastBreak == ['\n'] && !b.spaced && !spaced
  let between := if folds then if b.blank = [] then [' '] else [] else b.lastBreak
  b.text ++ between ++ b.blank

def readBlockLines (literal : Bool) (indent : Nat) :
    (fuel : Nat) → BlockLines → Cursor → Option (BlockLines × Cursor)
  | 0, _, _ => none
  | fuel + 1, b, c =>
    match c.rest with
    | [] => some (b, c)
    | x :: _ =>
      if c.column ≠ indent then some (b, c)
      else do
        let spaced := isSpace x
        let (line, c) := c.takeWhile fun y => !isBreak y
        let (lastBreak, c) := c.takeBreak
        let (blank, c) ← c.takeBlankLines (some indent) (c.rest.length + 1) {}
        readBlockLines literal indent fuel ⟨b.joined literal spaced ++ line, lastBreak,
          blank.breaks, spaced⟩ c

def BlockLines.chomped (chomping : Chomping) (b : BlockLines) : Text :=
  match chomping with
  | .strip => b.text
  | .clip => b.text ++ b.lastBreak
  | .keep => b.text ++ b.lastBreak ++ b.blank

/-- Reads a block after its first character. It stands in a collection whose items start in column
`margin`, counted from one, or in none if that is zero. -/
def readBlock (literal : Bool) (margin : Nat) (c : Cursor) : Option (Text × Cursor) := do
  let (header, c) ← readBlockHeader c
  let given := header.indent.map fun n => margin - 1 + n
  let limit := c.rest.length + 1
  let (blank, c) ← c.takeBlankLines given limit {}
  let indent := given.getD (max blank.deepest (max margin 1))
  let (lines, c) ← readBlockLines literal indent limit { blank := blank.breaks } c
  return (lines.chomped header.chomping, c)

end Signpost.Yaml
