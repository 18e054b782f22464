import Signpost.Text.Basic

/-!
A place in a YAML text, with its line and column, and the white space between words. White space
within a line counts as it stands; across lines it folds: one line break becomes a space, and of
several the first is dropped.
-/

namespace Signpost.Yaml

def isSpace (c : Char) : Bool :=
  c == ' ' || c == '\t'

def isBreak (c : Char) : Bool :=
  c == '\n' || c == '\r' || c == '\u0085' || c == '\u2028' || c == '\u2029'

/-- The character may stand in the name of an anchor, a directive or a tag handle. -/
def isNameChar (c : Char) : Bool :=
  c.isAlphanum || c == '_' || c == '-'

/-- No word goes on here: a space, a line break or the end follows. -/
def atWordEnd : Text → Bool
  | [] => true
  | c :: _ => isSpace c || isBreak c

def atLineEnd : Text → Bool
  | [] => true
  | c :: _ => isBreak c

/-- A place in a text: what lies ahead, how many characters lie behind, and which line and column it
is. -/
structure Cursor where
  rest : Text
  index : Nat
  line : Nat
  column : Nat
  deriving Repr

namespace Cursor

def start (t : Text) : Cursor :=
  ⟨t, 0, 0, 0⟩

def pass (n : Nat) (c : Cursor) : Cursor :=
  ⟨c.rest.drop n, c.index + n, c.line, c.column + n⟩

/-- The characters ahead that a test holds of, and the place behind them; none of them may end the
line. -/
def takeWhile (p : Char → Bool) (c : Cursor) : Text × Cursor :=
  let taken := c.rest.takeWhile p
  (taken, c.pass taken.length)

def skipWhile (p : Char → Bool) (c : Cursor) : Cursor :=
  (c.takeWhile p).2

/-- The line break ahead, as it counts in text, and the place behind it. -/
def takeBreak (c : Cursor) : Text × Cursor :=
  match c.rest with
  | '\r' :: '\n' :: rest => (['\n'], ⟨rest, c.index + 2, c.line + 1, 0⟩)
  | b :: rest =>
    let next : Cursor := ⟨rest, c.index + 1, c.line + 1, 0⟩
    if b == '\u2028' || b == '\u2029' then ([b], next)
    else if isBreak b then (['\n'], next)
    else ([], c)
  | [] => ([], c)

def skipComment (c : Cursor) : Cursor :=
  match c.rest with
  | '#' :: _ => c.skipWhile fun x => !isBreak x
  | _ => c

/-- The place behind a line that may hold no more than spaces and a comment. -/
def endLine? (c : Cursor) : Option Cursor :=
  let c := (c.skipWhile isSpace).skipComment
  if atLineEnd c.rest then some c.takeBreak.2 else none

/-- A document starts here: the line starts with three dashes and no word goes on behind them. -/
def atDocumentStart (c : Cursor) : Bool :=
  match c.rest with
  | '-' :: '-' :: '-' :: rest => c.column == 0 && atWordEnd rest
  | _ => false

def atDocumentEnd (c : Cursor) : Bool :=
  match c.rest with
  | '.' :: '.' :: '.' :: rest => c.column == 0 && atWordEnd rest
  | _ => false

def atDocumentMark (c : Cursor) : Bool :=
  c.atDocumentStart || c.atDocumentEnd

end Cursor

/-- The white space between two words of a scalar. -/
structure Gap where
  /-- A line has ended in it. -/
  broken : Bool := false
  /-- Its characters, while no line has ended. -/
  spaces : Text := []
  first : Text := []
  more : Text := []
  deriving Repr

/-- What a gap contributes to its scalar. -/
def Gap.text (g : Gap) : Text :=
  if !g.broken then g.spaces
  else if g.first = ['\n'] then
    if g.more = [] then [' '] else g.more
  else g.first ++ g.more

def Gap.addSpace (g : Gap) (c : Char) : Gap :=
  if g.broken then g else { g with spaces := g.spaces ++ [c] }

def Gap.addBreak (g : Gap) (b : Text) : Gap :=
  if g.broken then { g with more := g.more ++ b } else { broken := true, first := b }

/-- Passes over white space. Tabs may not indent a line by less than `indent`. -/
def Cursor.takeGap (indent : Nat) : (fuel : Nat) → Gap → Cursor → Option (Gap × Cursor)
  | 0, _, _ => none
  | fuel + 1, g, c =>
    match c.rest with
    | [] => some (g, c)
    | x :: _ =>
      if isSpace x then
        if g.broken && c.column < indent && x == '\t' then none
        else takeGap indent fuel (g.addSpace x) (c.pass 1)
      else if isBreak x then
        let (b, next) := c.takeBreak
        takeGap indent fuel (g.addBreak b) next
      else some (g, c)

end Signpost.Yaml
