import Signpost.Regex.CharSet
import Signpost.Unicode.Script

/-!
The names of Unicode properties in patterns. Names are compared without regard to case, blanks,
hyphens and underscores, and a leading `is` does not count.
-/

namespace Signpost.CharProperty

open Unicode

def normalName (name : Text) : Text :=
  let kept :=
    Text.lowerAscii (name.filter fun c => !(c == ' ' || c == '_' || c == '-' || 128 ≤ c.toNat))
  match kept with
  | ['i', 's', 'c'] => kept
  | 'i' :: 's' :: rest => rest
  | _ => kept

/-- The general categories under a name, which is that of one category or of a group of them. -/
def categoriesNamed? (name : String) : Option (List Category) :=
  match name with
  | "lu" | "uppercaseletter" => some [.lu]
  | "ll" | "lowercaseletter" => some [.ll]
  | "lt" | "titlecaseletter" => some [.lt]
  | "lc" | "casedletter" => some [.lu, .ll, .lt]
  | "lm" | "modifierletter" => some [.lm]
  | "lo" | "otherletter" => some [.lo]
  | "l" | "letter" => some [.lu, .ll, .lt, .lm, .lo]
  | "mn" | "nonspacingmark" => some [.mn]
  | "mc" | "spacingmark" => some [.mc]
  | "me" | "enclosingmark" => some [.me]
  | "m" | "mark" | "combiningmark" => some [.mn, .mc, .me]
  | "nd" | "decimalnumber" | "digit" => some [.nd]
  | "nl" | "letternumber" => some [.nl]
  | "no" | "othernumber" => some [.no]
  | "n" | "number" => some [.nd, .nl, .no]
  | "pc" | "connectorpunctuation" => some [.pc]
  | "pd" | "dashpunctuation" => some [.pd]
  | "ps" | "openpunctuation" => some [.ps]
  | "pe" | "closepunctuation" => some [.pe]
  | "pi" | "initialpunctuation" => some [.pi]
  | "pf" | "finalpunctuation" => some [.pf]
  | "po" | "otherpunctuation" => some [.po]
  | "p" | "punctuation" | "punct" => some [.pc, .pd, .ps, .pe, .pi, .pf, .po]
  | "sm" | "mathsymbol" => some [.sm]
  | "sc" | "currencysymbol" => some [.sc]
  | "sk" | "modifiersymbol" => some [.sk]
  | "so" | "othersymbol" => some [.so]
  | "s" | "symbol" => some [.sm, .sc, .sk, .so]
  | "zs" | "spaceseparator" => some [.zs]
  | "zl" | "lineseparator" => some [.zl]
  | "zp" | "paragraphseparator" => some [.zp]
  | "z" | "separator" => some [.zs, .zl, .zp]
  | "cc" | "control" | "cntrl" => some [.cc]
  | "cf" | "format" => some [.cf]
  | "cs" | "surrogate" => some [.cs]
  | "co" | "privateuse" => some [.co]
  | "cn" | "unassigned" => some [.cn]
  | "c" | "other" => some [.cc, .cf, .cs, .co, .cn]
  | _ => none

/-- The set under the name of a general category, or of one of the classes that are listed with
them. -/
def categorySet? (name : String) : Option CharSet :=
  match name with
  | "any" => some .all
  | "assigned" => some (.compl (.property (.ofCategories [.cn])))
  | "ascii" => some (.range '\x00' '\x7f')
  | _ => (categoriesNamed? name).map fun ks => .property (.ofCategories ks)

/-- The set under the name of a property that is either had or not. -/
def binarySet? (name : String) : Option CharSet :=
  match name with
  | "alphabetic" | "alpha" => some (.property .alphabetic)
  | "whitespace" | "wspace" | "space" => some (.property .blank)
  | "uppercase" | "upper" =>
    some (.union (.property (.ofCategories [.lu])) (.property (.ofRuns
      [(8544, 8559), (9398, 9423), (127280, 127305), (127312, 127337), (127344, 127369)])))
  | "lowercase" | "lower" =>
    some (.union (.property (.ofCategories [.ll])) (.property (.ofRuns
      [(170, 170), (186, 186), (688, 696), (704, 705), (736, 740), (837, 837), (890, 890),
        (4348, 4348), (7468, 7530), (7544, 7544), (7579, 7615), (8305, 8305), (8319, 8319),
        (8336, 8348), (8560, 8575), (9424, 9449), (11388, 11389), (42652, 42653), (42864, 42864),
        (42994, 42996), (43000, 43001), (43868, 43871), (43881, 43881), (67456, 67456),
        (67459, 67461), (67463, 67504), (67506, 67514), (122928, 122989)])))
  | _ => none

def scriptSet? (name : Text) : Option CharSet :=
  (scriptRuns? name).map fun runs => .property (.ofRuns runs)

def named? (name : Text) : Option CharSet :=
  let name := normalName name
  let key := String.ofList name
  binarySet? key <|> categorySet? key <|> scriptSet? name

/-- The set of the characters whose property has a value. -/
def withValue? (name value : Text) : Option CharSet :=
  let value := normalName value
  match String.ofList (normalName name) with
  | "gc" | "generalcategory" => categorySet? (String.ofList value)
  | "sc" | "script" | "scx" | "scriptextensions" => scriptSet? value
  | _ => none

end Signpost.CharProperty
