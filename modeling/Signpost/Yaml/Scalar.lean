import Signpost.Document
import Signpost.Number.Shortest
import Signpost.Number.Word

/-!
What scalars stand for. A plain scalar may be null, a truth value or a number; all else is text.
Numbers keep the text that they are printed as. A plain scalar that is an integer of more than 64
bits but at most 128 stands for nothing.
-/

namespace Signpost.Yaml

def isNull (t : Text) : Bool :=
  t == "null".toList || t == "Null".toList || t == "NULL".toList || t == ['~']

def truth? (t : Text) : Option Bool :=
  if t == "true".toList || t == "True".toList || t == "TRUE".toList then some true
  else if t == "false".toList || t == "False".toList || t == "FALSE".toList then some false
  else none

def hasLeadingZero (t : Text) : Bool :=
  let digits := match t with
    | '-' :: rest | '+' :: rest => rest
    | _ => t
  match digits with
  | '0' :: rest => !rest.isEmpty && rest.all Char.isDigit
  | _ => false

/-- The number of digits with the mark of their base in front, or of decimal digits. -/
def natural? (t : Text) : Option Nat :=
  match t with
  | '0' :: 'x' :: digits => Text.numberValue? 16 digits
  | '0' :: 'o' :: digits => Text.numberValue? 8 digits
  | '0' :: 'b' :: digits => Text.numberValue? 2 digits
  | _ => if hasLeadingZero t then none else Text.decimalValue? t

def integer? (t : Text) : Option Int :=
  match t with
  | '-' :: rest => (natural? rest).map fun n => -(n : Int)
  | '+' :: rest => (natural? rest).map Int.ofNat
  | _ => (natural? t).map Int.ofNat

/-- The digits of a decimal and its power of ten: digits with a point among them or at an end. -/
def mantissa? (t : Text) : Option (Nat × Int) :=
  let (whole, fraction) := (Text.cutFirst '.' t).getD (t, [])
  (Text.decimalValue? (whole ++ fraction)).map fun n => (n, -(fraction.length : Int))

def exponent? (t : Text) : Option Int :=
  match t with
  | '-' :: rest => (Text.decimalValue? rest).map fun n => -(n : Int)
  | '+' :: rest => (Text.decimalValue? rest).map Int.ofNat
  | _ => (Text.decimalValue? t).map Int.ofNat

def unsignedDecimal? (t : Text) : Option Binary64 := do
  match Text.cutFirst 'e' (Text.lowerAscii t) with
  | some (m, e) =>
    let (n, tens) ← mantissa? m
    Binary64.ofDecimal? n (tens + (← exponent? e))
  | none =>
    let (n, tens) ← mantissa? t
    Binary64.ofDecimal? n tens

/-- How the number that a text means is printed, if it is not an integer. -/
def decimalText? (t : Text) : Option Text :=
  let infinities := [".inf".toList, ".Inf".toList, ".INF".toList]
  let unsigned := match t with
    | '+' :: rest => rest
    | _ => t
  if infinities.contains unsigned then some ".inf".toList
  else if infinities.contains (t.drop 1) ∧ t.head? = some '-' then some "-.inf".toList
  else if t = ".nan".toList ∨ t = ".NaN".toList ∨ t = ".NAN".toList then some ".nan".toList
  else
    match t with
    | '-' :: rest => (unsignedDecimal? rest).map fun x => '-' :: x.text
    | _ => (unsignedDecimal? unsigned).map Binary64.text

/-- An integer as a value. One of at most 64 bits is kept, a larger one of at most 128 bits is
refused, and one beyond that is no integer. -/
def ofInteger? (i : Int) : Option (Option Document) :=
  if fitsSigned 64 i || fitsUnsigned 64 i then some (some (.number (Binary64.signedText i)))
  else if fitsSigned 128 i || fitsUnsigned 128 i then some none
  else none

/-- What a plain scalar without a tag stands for. -/
def plainValue? (t : Text) : Option Document :=
  if t = [] ∨ isNull t then some .null
  else
    match truth? t with
    | some b => some (.bool b)
    | none =>
      match (integer? t).bind ofInteger? with
      | some value => value
      | none =>
        if hasLeadingZero t then some (.string t)
        else some ((decimalText? t).elim (.string t) .number)

def untaggedValue? (plain : Bool) (t : Text) : Option Document :=
  if plain then plainValue? t else some (.string t)

def standardTag : Text :=
  "tag:yaml.org,2002:".toList

/-- What a scalar with a tag that is not local stands for. The standard tags ask for a value of
their kind; under any other the text stands for itself. -/
def globalValue? (tag t : Text) : Option Document :=
  match (Text.stripStart? standardTag tag).map String.ofList with
  | some "bool" => (truth? t).map .bool
  | some "int" => ((integer? t).bind ofInteger?).join
  | some "float" => (decimalText? t).map .number
  | some "null" => if isNull t then some .null else none
  | _ => some (.string t)

end Signpost.Yaml
