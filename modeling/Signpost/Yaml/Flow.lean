import Signpost.Text.Decimal
import Signpost.Yaml.Cursor

/-!
Scalars whose lines fold: plain ones and quoted ones. Reading one gives its text and the place
behind it.
-/

namespace Signpost.Yaml

/-! ## Plain scalars -/

def isFlowMark (c : Char) : Bool :=
  c == ',' || c == '[' || c == ']' || c == '{' || c == '}'

/-- Reads a word of a plain scalar. A colon ends it in front of white space; in a flow collection it
may not stand in front of a mark. -/
def readPlainWord (inFlow : Bool) : (taken : Text) → Text → Option (Text)
  | taken, [] => some taken.reverse
  | taken, c :: rest =>
    if isSpace c || isBreak c then some taken.reverse
    else if inFlow && c == ':' && rest.head?.any (fun d => isFlowMark d || d == '?') then none
    else if (c == ':' && atWordEnd rest) || (inFlow && isFlowMark c) then some taken.reverse
    else readPlainWord inFlow (c :: taken) rest

/-- What has been read of a scalar, the gap behind it, and the place behind that. -/
structure Stretch where
  text : Text
  gap : Gap
  cursor : Cursor

/-- Reads a plain scalar on from the start of a word. It goes on while the lines are indented by
`indent`, which does not matter in a flow collection. -/
def readPlain (inFlow : Bool) (indent : Nat) : (fuel : Nat) → Stretch → Option Stretch
  | 0, _ => none
  | fuel + 1, s =>
    if s.cursor.atDocumentMark || s.cursor.rest.head? == some '#' then some s
    else do
      let word ← readPlainWord inFlow [] s.cursor.rest
      let after := s.cursor.pass word.length
      let s : Stretch := if word = [] then s else ⟨s.text ++ s.gap.text ++ word, {}, after⟩
      if after.rest.head?.any fun c => isSpace c || isBreak c then
        let (gap, c) ← after.takeGap indent (after.rest.length + 1) s.gap
        let s : Stretch := ⟨s.text, gap, c⟩
        if !inFlow && c.column < indent then return s else readPlain inFlow indent fuel s
      else return s

/-! ## Quoted scalars -/

/-- The character with a code of so many hexadecimal digits, and how many characters they take. -/
def readCharCode (count : Nat) (t : Text) : Option (Char × Nat) := do
  let digits := t.take count
  if digits.length < count then none
  else
    let n ← Text.numberValue? 16 digits
    if h : n.isValidChar then some (Char.ofNatAux n h, count + 1) else none

def readEscape : Text → Option (Char × Nat)
  | [] => none
  | c :: rest =>
    match c with
    | '0' => some ('\x00', 1)
    | 'a' => some ('\x07', 1)
    | 'b' => some ('\x08', 1)
    | 't' => some ('\t', 1)
    | '\t' => some ('\t', 1)
    | 'n' => some ('\n', 1)
    | 'v' => some ('\x0b', 1)
    | 'f' => some ('\x0c', 1)
    | 'r' => some ('\r', 1)
    | 'e' => some ('\x1b', 1)
    | ' ' => some (' ', 1)
    | '"' => some ('"', 1)
    | '/' => some ('/', 1)
    | '\\' => some ('\\', 1)
    | 'N' => some ('\u0085', 1)
    | '_' => some ('\u00a0', 1)
    | 'L' => some ('\u2028', 1)
    | 'P' => some ('\u2029', 1)
    | 'x' => readCharCode 2 rest
    | 'u' => readCharCode 4 rest
    | 'U' => readCharCode 8 rest
    | _ => none

/-- Reads a word between single quotes, in which two of them stand for one. -/
def readSingleQuotedWord : (fuel : Nat) → (taken : Text) → Cursor → Option (Text × Cursor)
  | 0, _, _ => none
  | fuel + 1, taken, c =>
    match c.rest with
    | '\'' :: '\'' :: _ => readSingleQuotedWord fuel ('\'' :: taken) (c.pass 2)
    | '\'' :: _ => some (taken.reverse, c)
    | rest =>
      if atWordEnd rest then some (taken.reverse, c)
      else readSingleQuotedWord fuel ((rest.take 1) ++ taken) (c.pass 1)

/-- Reads a word between double quotes, and tells whether it ended with an escaped line break. -/
def readDoubleQuotedWord : (fuel : Nat) → (taken : Text) → Cursor → Option (Text × Bool × Cursor)
  | 0, _, _ => none
  | fuel + 1, taken, c =>
    match c.rest with
    | '"' :: _ => some (taken.reverse, false, c)
    | '\\' :: rest =>
      if rest.head?.any isBreak then some (taken.reverse, true, (c.pass 1).takeBreak.2)
      else do
        let (x, count) ← readEscape rest
        readDoubleQuotedWord fuel (x :: taken) (c.pass (count + 1))
    | rest =>
      if atWordEnd rest then some (taken.reverse, false, c)
      else readDoubleQuotedWord fuel ((rest.take 1) ++ taken) (c.pass 1)

def readQuoted (quote : Char) : (fuel : Nat) → (taken : Text) → Cursor → Option (Text × Cursor)
  | 0, _, _ => none
  | fuel + 1, taken, c =>
    if c.atDocumentMark then none
    else do
      let limit := c.rest.length + 1
      let (word, escaped, c) ← if quote = '"' then readDoubleQuotedWord limit [] c
        else (readSingleQuotedWord limit [] c).map fun (word, c) => (word, false, c)
      let taken := taken ++ word
      match c.rest with
      | [] => none
      | x :: _ =>
        if x = quote then return (taken, c.pass 1)
        else
          let (gap, c) ← c.takeGap 0 limit { broken := escaped }
          readQuoted quote fuel (taken ++ gap.text) c

end Signpost.Yaml
