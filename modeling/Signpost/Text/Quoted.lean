import Signpost.Text.Decimal
import Signpost.Unicode.Category

/-!
Text between double quotes, as error messages show it: quotes, backslashes and control characters
are escaped, and so is every character that would not be seen.
-/

namespace Signpost.Text

def quotedChar (c : Char) : Text :=
  if c = '"' then ['\\', '"']
  else if c = '\\' then ['\\', '\\']
  else if c = '\n' then ['\\', 'n']
  else if c = '\r' then ['\\', 'r']
  else if c = '\t' then ['\\', 't']
  else if c.toNat = 0 then ['\\', '0']
  else if Unicode.isPrintable c && !Unicode.isCombining c then [c]
  else ['\\', 'u', '{'] ++ hexadecimal c.toNat ++ ['}']

def quoted (t : Text) : Text :=
  ['"'] ++ t.flatMap quotedChar ++ ['"']

end Signpost.Text
