import Signpost.Regex.Escape
import Signpost.Text.Map
import Signpost.Url.FormEncoding

/-!
Host templates. Everything from the first opening brace to the last closing one is one placeholder,
which stands for any text; the rest is literal and compared without regard to case.
-/

namespace Signpost

structure HostTemplate where
  raw : Text
  before : Text
  placeholder : Option Text
  after : Text
  deriving Repr, DecidableEq

namespace HostTemplate

def withoutBraces (t : Text) : Text :=
  t.filter fun c => !(c == '{' || c == '}')

def read (raw : Text) : HostTemplate :=
  match Text.cutFirst '{' raw with
  | some (before, rest) =>
    match Text.cutLast '}' rest with
    | some (inside, after) => ⟨raw, before, some (withoutBraces inside), after⟩
    | none => ⟨raw, raw, none, []⟩
  | none => ⟨raw, raw, none, []⟩

def stripped (h : HostTemplate) : Text :=
  withoutBraces h.raw

/-- The text of the pattern that hosts have to match; a route without host template has none. -/
def patternSource? (h : HostTemplate) : Option Text :=
  if h.raw = [] then none
  else
    let wildcard := if h.placeholder.isSome then "(.*)".toList else []
    some (Regex.escape h.before ++ wildcard ++ Regex.escape h.after)

def fixedText (h : HostTemplate) : Text :=
  h.before ++ h.after

/-- What a host, in small letters, gives to the placeholder: the host without the literal text of
the template. -/
def valueIn (h : HostTemplate) (host : Text) : Text :=
  Text.replaceAll (Text.lowerAscii h.fixedText) [] host

/-- The host for given values of the arguments. Without a value the template stays as it is. -/
def render (h : HostTemplate) (values : TextMap Text) : Text :=
  match h.placeholder.bind values.get? with
  | some value => h.before ++ Url.encodeValue value ++ h.after
  | none => h.raw

end HostTemplate

end Signpost
