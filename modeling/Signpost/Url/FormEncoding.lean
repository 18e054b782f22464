import Signpost.Args
import Signpost.Text.Utf8

/-!
The encoding of forms: letters, digits and `*-._` stand for themselves, a space is a plus sign, and
every other byte is a percent sign and two hexadecimal digits.
-/

namespace Signpost.Url

def hexDigit (n : Nat) : Char :=
  if n < 10 then Char.ofNat ('0'.toNat + n) else Char.ofNat ('A'.toNat + (n - 10))

def isFormSafe (c : Char) : Bool :=
  c.isAlphanum || c == '*' || c == '-' || c == '.' || c == '_'

def percentByte (b : Nat) : Text :=
  ['%', hexDigit (b / 16), hexDigit (b % 16)]

def encodeChar (c : Char) : Text :=
  if isFormSafe c then [c]
  else if c = ' ' then ['+']
  else (Text.charBytes c).flatMap percentByte

def encode (t : Text) : Text :=
  t.flatMap encodeChar

/-- A value in a URL: encoded, unless it is left for the client to fill in. -/
def encodeValue (t : Text) : Text :=
  if isDeferred t then t else encode t

end Signpost.Url
