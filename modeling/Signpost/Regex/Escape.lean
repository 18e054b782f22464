import Signpost.Text.Basic

/-!
Text as a pattern that matches just that text.
-/

namespace Signpost.Regex

/-- The characters with a meaning of their own in patterns. -/
def metaChars : Text :=
  "\\.+*?()|[]\x7b\x7d^$#&-~".toList

/-- The pattern that matches just this text: a backslash before each character with a meaning of its
own. -/
def escape (t : Text) : Text :=
  t.flatMap fun c => if c ∈ metaChars then ['\\', c] else [c]

end Signpost.Regex
