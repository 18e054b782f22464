import Signpost.Text.Map
import Signpost.Text.Quoted

/-!
Arguments of an action: values under names, each a single text or a list of texts.
-/

namespace Signpost

inductive ArgValue where
  | single (t : Text)
  | list (ts : List Text)
  deriving Repr, DecidableEq

namespace ArgValue

/-- The value that binds a place in a path: the text, or the first of the list. -/
def first? : ArgValue → Option Text
  | single t => some t
  | list ts => ts.head?

def values : ArgValue → List Text
  | single t => [t]
  | list ts => ts

def text : ArgValue → Text
  | single t => t
  | list ts => ['['] ++ Text.join [',', ' '] ts ++ [']']

/-- How a value is shown in error messages, with its kind. -/
def described : ArgValue → Text
  | single t => "Single(".toList ++ Text.quoted t ++ [')']
  | list ts => "List([".toList ++ Text.join [',', ' '] (ts.map Text.quoted) ++ "])".toList

end ArgValue

abbrev Args := TextMap ArgValue

/-- How arguments are shown in error messages. -/
def Args.described (args : Args) : Text :=
  ['{'] ++ Text.join [',', ' '] (args.entries.map fun (k, v) =>
    Text.quoted k ++ [':', ' '] ++ v.described) ++ ['}']

/-- A value that stays as it is in a URL, for a client to fill in: it starts with a colon. -/
def isDeferred (t : Text) : Bool :=
  t.head? == some ':'

end Signpost
