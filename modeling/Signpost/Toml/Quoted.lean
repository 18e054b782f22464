import Signpost.Text.Decimal

/-!
The strings of TOML: between double quotes with escapes, or between single quotes without any;
within one line, or over several between three quotes. A line break counts as a line feed, and one
right after the three quotes does not count.
-/

namespace Signpost.Toml

def isPlain (c : Char) : Bool :=
  c == '\t' || (32 ≤ c.toNat && c.toNat ≠ 127)

def isSpace (c : Char) : Bool :=
  c == ' ' || c == '\t'

def skipSpace (t : Text) : Text :=
  t.dropWhile isSpace

def newline? : Text → Option Text
  | '\n' :: rest => some rest
  | '\r' :: '\n' :: rest => some rest
  | _ => none

def skipLines : (fuel : Nat) → Text → Text
  | 0, t => t
  | fuel + 1, t =>
    match newline? (skipSpace t) with
    | some rest => skipLines fuel rest
    | none => skipSpace t

def readCode (count : Nat) (t : Text) : Option (Char × Text) := do
  let digits := t.take count
  if digits.length < count then none
  else
    let n ← Text.numberValue? 16 digits
    if h : n.isValidChar then some (Char.ofNatAux n h, t.drop count) else none

def readEscape : Text → Option (Char × Text)
  | 'b' :: rest => some ('\x08', rest)
  | 'f' :: rest => some ('\x0c', rest)
  | 'n' :: rest => some ('\n', rest)
  | 'r' :: rest => some ('\r', rest)
  | 't' :: rest => some ('\t', rest)
  | '"' :: rest => some ('"', rest)
  | '\\' :: rest => some ('\\', rest)
  | 'u' :: rest => readCode 4 rest
  | 'U' :: rest => readCode 8 rest
  | _ => none

/-- Reads a string within a line up to its closing quote. Only between double quotes a backslash
escapes. -/
def readLineString (quote : Char) : (fuel : Nat) → (taken : Text) → Text → Option (Text × Text)
  | fuel + 1, taken, c :: rest =>
    if c = quote then some (taken.reverse, rest)
    else if c = '\\' ∧ quote = '"' then do
      let (x, rest) ← readEscape rest
      readLineString quote fuel (x :: taken) rest
    else if isPlain c then readLineString quote fuel (c :: taken) rest
    else none
  | _, _, _ => none

def countQuotes (quote : Char) (t : Text) : Nat :=
  (t.takeWhile (· == quote)).length

def maxInnerQuotes : Nat := 2

/-- Reads a string over several lines up to its three closing quotes, in front of which up to two
more belong to it. A backslash at the end of a line drops what blanks and line breaks follow. -/
def readLongString (quote : Char) : (fuel : Nat) → (taken : Text) → Text → Option (Text × Text)
  | fuel + 1, taken, c :: rest =>
    let quotes := countQuotes quote (c :: rest)
    if 3 ≤ quotes then
      let inner := min (quotes - 3) maxInnerQuotes
      some (taken.reverse ++ List.replicate inner quote, (c :: rest).drop (inner + 3))
    else if c = '\\' ∧ quote = '"' then
      match newline? (skipSpace rest) with
      | some rest => readLongString quote fuel taken (skipLines (rest.length + 1) rest)
      | none => do
        let (x, rest) ← readEscape rest
        readLongString quote fuel (x :: taken) rest
    else
      match newline? (c :: rest) with
      | some rest => readLongString quote fuel ('\n' :: taken) rest
      | none => if isPlain c then readLongString quote fuel (c :: taken) rest else none
  | _, _, _ => none

def readString (quote : Char) (t : Text) : Option (Text × Text) :=
  match Text.stripStart? [quote, quote, quote] t with
  | some rest =>
    let rest := (newline? rest).getD rest
    readLongString quote (rest.length + 1) [] rest
  | none => readLineString quote (t.length + 1) [] (t.drop 1)

end Signpost.Toml
