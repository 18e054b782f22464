import Signpost.Document
import Signpost.Json.Number

/-!
Reading JSON. A key stands once in an object, and values nest at most 127 deep.
-/

namespace Signpost.Json

def skipSpace (t : Text) : Text :=
  t.dropWhile fun c => c == ' ' || c == '\t' || c == '\n' || c == '\r'

def readUnit : Text → Option (Nat × Text)
  | a :: b :: c :: d :: rest => do return (← Text.numberValue? 16 [a, b, c, d], rest)
  | _ => none

/-- The character that two units of a pair encode. -/
def pairChar? (high low : Nat) : Option Char :=
  if 0xDC00 ≤ low ∧ low < 0xE000 then
    some (Char.ofNat (0x10000 + (high - 0xD800) * 0x400 + (low - 0xDC00)))
  else none

/-- Reads an escape given by code, after its `u`. -/
def readCode (t : Text) : Option (Char × Text) := do
  let (n, rest) ← readUnit t
  if n < 0xD800 ∨ 0xE000 ≤ n then return (Char.ofNat n, rest)
  else if n < 0xDC00 then
    match rest with
    | '\\' :: 'u' :: rest => do
      let (low, rest) ← readUnit rest
      return (← pairChar? n low, rest)
    | _ => none
  else none

def readEscape : Text → Option (Char × Text)
  | '"' :: rest => some ('"', rest)
  | '\\' :: rest => some ('\\', rest)
  | '/' :: rest => some ('/', rest)
  | 'b' :: rest => some ('\x08', rest)
  | 'f' :: rest => some ('\x0c', rest)
  | 'n' :: rest => some ('\n', rest)
  | 'r' :: rest => some ('\r', rest)
  | 't' :: rest => some ('\t', rest)
  | 'u' :: rest => readCode rest
  | _ => none

/-- Reads a string after its opening quote; `taken` holds what has been read, last character
first. -/
def readString : (fuel : Nat) → (taken : Text) → Text → Option (Text × Text)
  | fuel + 1, taken, c :: rest =>
    if c = '"' then some (taken.reverse, rest)
    else if c = '\\' then do
      let (d, rest) ← readEscape rest
      readString fuel (d :: taken) rest
    else if c.toNat < 32 then none
    else readString fuel (c :: taken) rest
  | _, _, _ => none

def maxDepth : Nat := 127

mutual

def readValue (fuel depth : Nat) (t : Text) : Option (Document × Text) :=
  match fuel with
  | 0 => none
  | fuel + 1 =>
    match skipSpace t with
    | '{' :: rest =>
      match depth with
      | 0 => none
      | depth + 1 =>
        match skipSpace rest with
        | '}' :: rest => some (.mapping [], rest)
        | rest => readEntries fuel depth [] rest
    | '[' :: rest =>
      match depth with
      | 0 => none
      | depth + 1 =>
        match skipSpace rest with
        | ']' :: rest => some (.sequence [], rest)
        | rest => readItems fuel depth [] rest
    | '"' :: rest => (readString (rest.length + 1) [] rest).map fun (s, rest) => (.string s, rest)
    | 't' :: 'r' :: 'u' :: 'e' :: rest => some (.bool true, rest)
    | 'f' :: 'a' :: 'l' :: 's' :: 'e' :: rest => some (.bool false, rest)
    | 'n' :: 'u' :: 'l' :: 'l' :: rest => some (.null, rest)
    | rest => (readNumber rest).map fun (n, rest) => (.number n, rest)

/-- Reads the items of a sequence from the next one on; `taken` holds those before it, latest
first. -/
def readItems (fuel depth : Nat) (taken : List Document) (t : Text) : Option (Document × Text) :=
  match fuel with
  | 0 => none
  | fuel + 1 => do
    let (item, rest) ← readValue fuel depth t
    match skipSpace rest with
    | ',' :: rest => readItems fuel depth (item :: taken) rest
    | ']' :: rest => return (.sequence (item :: taken).reverse, rest)
    | _ => none

def readEntries (fuel depth : Nat) (taken : List (Document × Document)) (t : Text) :
    Option (Document × Text) :=
  match fuel with
  | 0 => none
  | fuel + 1 =>
    match skipSpace t with
    | '"' :: rest => do
      let (key, rest) ← readString (rest.length + 1) [] rest
      if taken.any fun e => Document.isKey key e.1 then none
      else
        match skipSpace rest with
        | ':' :: rest =>
          let (value, rest) ← readValue fuel depth rest
          let taken := (Document.string key, value) :: taken
          match skipSpace rest with
          | ',' :: rest => readEntries fuel depth taken rest
          | '}' :: rest => return (.mapping taken.reverse, rest)
          | _ => none
        | _ => none
    | _ => none

end

def read? (t : Text) : Option Document := do
  let (value, rest) ← readValue (2 * t.length + 2) maxDepth t
  match skipSpace rest with
  | [] => return value
  | _ => none

end Signpost.Json
