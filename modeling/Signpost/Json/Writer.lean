import Signpost.Document
import Signpost.Text.Decimal

/-!
Writing JSON, with one item or entry a line and two spaces of indentation for each level. Only what
has to be escaped is.
-/

namespace Signpost.Json

def escapedChar (c : Char) : Text :=
  if c = '"' then ['\\', '"']
  else if c = '\\' then ['\\', '\\']
  else if c = '\n' then ['\\', 'n']
  else if c = '\r' then ['\\', 'r']
  else if c = '\t' then ['\\', 't']
  else if c = '\x08' then ['\\', 'b']
  else if c = '\x0c' then ['\\', 'f']
  else if c.toNat < 32 then
    let digits := Text.hexadecimal c.toNat
    ['\\', 'u'] ++ List.replicate (4 - digits.length) '0' ++ digits
  else [c]

def stringText (t : Text) : Text :=
  ['"'] ++ t.flatMap escapedChar ++ ['"']

def newLine (level : Nat) : Text :=
  '\n' :: List.replicate (2 * level) ' '

/-- Lines between brackets; without any, the brackets close at once. -/
def bracketed (opening closing : Char) (level : Nat) (lines : List Text) : Text :=
  if lines = [] then [opening, closing]
  else
    [opening] ++ newLine (level + 1) ++ Text.join (',' :: newLine (level + 1)) lines ++
      newLine level ++ [closing]

mutual

/-- A document that stands at a level. Tags are left out. -/
def textAt (level : Nat) : Document → Text
  | .null => "null".toList
  | .bool true => "true".toList
  | .bool false => "false".toList
  | .number t => t
  | .string t => stringText t
  | .sequence items => bracketed '[' ']' level (itemTexts (level + 1) items)
  | .mapping entries => bracketed '{' '}' level (entryTexts (level + 1) entries)
  | .tagged _ value => textAt level value

def itemTexts (level : Nat) : List Document → List Text
  | [] => []
  | d :: rest => textAt level d :: itemTexts level rest

/-- Entries that stand at a level. A key that is no text is written as the text of its scalar. -/
def entryTexts (level : Nat) : List (Document × Document) → List Text
  | [] => []
  | (k, v) :: rest =>
    (stringText (k.scalar?.getD []) ++ [':', ' '] ++ textAt level v) :: entryTexts level rest

end

def write (d : Document) : Text :=
  textAt 0 d

end Signpost.Json
