import Signpost.Text.Basic

/-!
Document values: what a JSON or YAML text stands for. Mappings keep their order, and keys may be any
value. A number is the text that it is printed as, so that a document and its numbers can be
compared without rounding.
-/

namespace Signpost

inductive Document where
  | null
  | bool (b : Bool)
  | number (t : Text)
  | string (t : Text)
  | sequence (items : List Document)
  | mapping (entries : List (Document × Document))
  /-- A value under a tag of its own. -/
  | tagged (tag : Text) (value : Document)
  deriving Repr, BEq

namespace Document

/-- The value under its tags. -/
def untagged : Document → Document
  | tagged _ value => value.untagged
  | value => value

def entries? (d : Document) : Option (List (Document × Document)) :=
  match d.untagged with
  | mapping entries => some entries
  | _ => none

def items? (d : Document) : Option (List Document) :=
  match d.untagged with
  | sequence items => some items
  | _ => none

def text? (d : Document) : Option Text :=
  match d.untagged with
  | string t => some t
  | _ => none

/-- The key is this text, untagged. -/
def isKey (key : Text) : Document → Bool
  | string t => t == key
  | _ => false

def get? (d : Document) (key : Text) : Option Document :=
  (d.entries?.bind fun es => es.find? fun e => isKey key e.1).map (·.2)

/-- The text of a scalar that is not null and has no tag. -/
def scalar? : Document → Option Text
  | string t => some t
  | number t => some t
  | bool true => some "true".toList
  | bool false => some "false".toList
  | _ => none

end Document

end Signpost
