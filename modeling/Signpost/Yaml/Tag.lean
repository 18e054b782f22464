import Signpost.Text.Decimal
import Signpost.Text.Utf8
import Signpost.Yaml.Cursor

/-!
The tags and anchors of nodes as they are written, and the directives in front of a document. A tag
is a handle, which stands for the start of a name, and the rest of that name; `%TAG` directives say
what a handle stands for.
-/

namespace Signpost.Yaml

/-- A tag as it is written. A name that stands for itself has an empty handle. -/
structure WrittenTag where
  handle : Text
  rest : Text
  deriving Repr, DecidableEq

inductive Directive where
  | version (major minor : Nat)
  | tagHandle (handle stands : Text)
  deriving Repr, DecidableEq

/-- The character may stand in a tag; a few only between angle brackets. -/
def isTagChar (bracketed : Bool) (c : Char) : Bool :=
  isNameChar c || ";/?:@&=+$.%!~*'()".toList.contains c ||
    (bracketed && (c == ',' || c == '[' || c == ']'))

def tagBytes : Text → Option (List Nat)
  | [] => some []
  | '%' :: a :: b :: rest => do return (← Text.numberValue? 16 [a, b]) :: (← tagBytes rest)
  | '%' :: _ => none
  | c :: rest => do return Text.charBytes c ++ (← tagBytes rest)

def readTagChars (bracketed : Bool) (c : Cursor) : Option (Text × Cursor) := do
  let (written, c) := c.takeWhile (isTagChar bracketed)
  return (← Text.ofBytes? (← tagBytes written), c)

/-- The word at this place that may be a handle: an exclamation mark, a name, and another mark if
there is one. -/
def takeHandle (c : Cursor) : Text × Cursor :=
  let (name, after) := (c.pass 1).takeWhile isNameChar
  match after.rest with
  | '!' :: _ => ('!' :: name ++ ['!'], after.pass 1)
  | _ => ('!' :: name, after)

def readBracketedTag (c : Cursor) : Option (WrittenTag × Cursor) := do
  let (rest, c) ← readTagChars true (c.pass 2)
  match rest, c.rest with
  | _ :: _, '>' :: _ => return (⟨[], rest⟩, c.pass 1)
  | _, _ => none

/-- Reads a tag with a handle, or one that is local; a single mark is a tag by itself. -/
def readShortTag (c : Cursor) : Option (WrittenTag × Cursor) := do
  let (handle, after) := takeHandle c
  if 1 < handle.length ∧ handle.getLast? = some '!' then
    let (rest, after) ← readTagChars false after
    if rest = [] then none else return (⟨handle, rest⟩, after)
  else
    let (rest, after) ← readTagChars false after
    match handle.drop 1 ++ rest with
    | [] => return (⟨[], ['!']⟩, after)
    | name => return (⟨['!'], name⟩, after)

/-- Reads a tag, behind which the word has to end; in a flow collection a comma may follow as
well. -/
def readTag (inFlow : Bool) (c : Cursor) : Option (WrittenTag × Cursor) := do
  let (tag, after) ← match c.rest with
    | '!' :: '<' :: _ => readBracketedTag c
    | _ => readShortTag c
  if atWordEnd after.rest || (inFlow && after.rest.head? == some ',') then return (tag, after)
  else none

/-- Reads the name of an anchor after its mark. White space or one of a few marks has to follow. -/
def readAnchor (c : Cursor) : Option (Text × Cursor) :=
  let (name, after) := (c.pass 1).takeWhile isNameChar
  if name ≠ [] && (atWordEnd after.rest ||
    after.rest.head?.any ("?:,]\x7d%@`".toList.contains ·)) then some (name, after)
  else none

def maxVersionDigits : Nat := 9

def readVersionNumber (c : Cursor) : Option (Nat × Cursor) := do
  let (digits, c) := c.takeWhile Char.isDigit
  if maxVersionDigits < digits.length then none else return (← Text.decimalValue? digits, c)

def readVersion (c : Cursor) : Option (Directive × Cursor) := do
  let (major, c) ← readVersionNumber (c.skipWhile isSpace)
  match c.rest with
  | '.' :: _ =>
    let (minor, c) ← readVersionNumber (c.pass 1)
    return (.version major minor, c)
  | _ => none

def readTagHandle (c : Cursor) : Option (Directive × Cursor) := do
  let c := c.skipWhile isSpace
  let (handle, c) ← if c.rest.head? = some '!' then some (takeHandle c) else none
  if handle.getLast? ≠ some '!' ∨ !c.rest.head?.any isSpace then none
  else
    let (stands, c) ← readTagChars true (c.skipWhile isSpace)
    if stands = [] ∨ !atWordEnd c.rest then none else return (.tagHandle handle stands, c)

def readDirective (c : Cursor) : Option (Directive × Cursor) := do
  let (name, c) := (c.pass 1).takeWhile isNameChar
  let (directive, c) ←
    if !atWordEnd c.rest then none
    else if name = "YAML".toList then readVersion c
    else if name = "TAG".toList then readTagHandle c
    else none
  return (directive, ← c.endLine?)

end Signpost.Yaml
