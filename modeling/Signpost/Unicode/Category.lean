import Signpost.Unicode.CategoryTable

/-!
General categories of characters, and the classes of characters that are unions of them: letters
that may stand in words, digits, and characters that are shown as themselves.
-/

namespace Signpost.Unicode

/-- The general categories: letters, marks, numbers, punctuation, symbols, separators and the
rest. -/
inductive Category where
  | lu | ll | lt | lm | lo
  | mn | mc | me
  | nd | nl | no
  | pc | pd | ps | pe | pi | pf | po
  | sm | sc | sk | so
  | zs | zl | zp
  | cc | cf | cs | co | cn
  deriving Repr, DecidableEq

def inRuns (runs : List (Nat × Nat)) (n : Nat) : Bool :=
  runs.any fun (first, last) => first ≤ n && n ≤ last

def Category.ofLetters? : Char → Char → Option Category
  | 'L', 'u' => some .lu | 'L', 'l' => some .ll | 'L', 't' => some .lt | 'L', 'm' => some .lm
  | 'L', 'o' => some .lo
  | 'M', 'n' => some .mn | 'M', 'c' => some .mc | 'M', 'e' => some .me
  | 'N', 'd' => some .nd | 'N', 'l' => some .nl | 'N', 'o' => some .no
  | 'P', 'c' => some .pc | 'P', 'd' => some .pd | 'P', 's' => some .ps | 'P', 'e' => some .pe
  | 'P', 'i' => some .pi | 'P', 'f' => some .pf | 'P', 'o' => some .po
  | 'S', 'm' => some .sm | 'S', 'c' => some .sc | 'S', 'k' => some .sk | 'S', 'o' => some .so
  | 'Z', 's' => some .zs | 'Z', 'l' => some .zl | 'Z', 'p' => some .zp
  | 'C', 'c' => some .cc | 'C', 'f' => some .cf | 'C', 's' => some .cs | 'C', 'o' => some .co
  | 'C', 'n' => some .cn
  | _, _ => none

/-- Reads runs of categories; `next` is the code point after the runs read, `count` the length read
so far. -/
def readCategoryRuns (next count : Nat) : List Char → List (Nat × Category)
  | [] => []
  | c :: rest =>
    if c.isDigit then readCategoryRuns next (count * 10 + (c.toNat - '0'.toNat)) rest
    else match rest with
      | [] => []
      | d :: rest =>
        let next := next + (if count = 0 then 1 else count)
        match Category.ofLetters? c d with
        | some k => (next, k) :: readCategoryRuns next 0 rest
        | none => readCategoryRuns next 0 rest

/-- The runs in order, each with the first code point after it. -/
def categoryTable : Array (Nat × Category) :=
  (readCategoryRuns 0 0 categoryRuns.toList).toArray

/-- The category of the first run, among those from `low` up to `high`, that reaches beyond the code
point. -/
def findCategory (table : Array (Nat × Category)) (n : Nat) : (fuel low high : Nat) → Category
  | 0, low, _ => (table[low]?.map (·.2)).getD .cn
  | fuel + 1, low, high =>
    if low < high then
      let middle := (low + high) / 2
      match table[middle]? with
      | some (next, _) =>
        if n < next then findCategory table n fuel low middle
        else findCategory table n fuel (middle + 1) high
      | none => .cn
    else (table[low]?.map (·.2)).getD .cn

def category (c : Char) : Category :=
  findCategory categoryTable c.toNat (Nat.log2 categoryTable.size + 1) 0 categoryTable.size

def isLetter (c : Char) : Bool :=
  if c.toNat < 128 then c.isAlpha
  else match category c with
    | .lu | .ll | .lt | .lm | .lo => true
    | _ => false

/-- The enclosed letters, which count as letters of words although they are symbols. -/
def isEnclosedLetter (n : Nat) : Bool :=
  inRuns [(9398, 9449), (127280, 127305), (127312, 127337), (127344, 127369)] n

/-- Letters and numerals written with letters. -/
def isAlphabetic (c : Char) : Bool :=
  isLetter c || category c == .nl || isEnclosedLetter c.toNat

def isAlphanumeric (c : Char) : Bool :=
  isAlphabetic c ||
  match category c with
  | .nd | .nl | .no => true
  | _ => false

def isDecimalDigit (c : Char) : Bool :=
  if c.toNat < 128 then c.isDigit else category c == .nd

/-- Characters of words: letters, marks, decimal digits, connectors and joiners. -/
def isWordChar (c : Char) : Bool :=
  if c.toNat < 128 then c.isAlphanum || c == '_'
  else isLetter c || isEnclosedLetter c.toNat || c.toNat == 0x200C || c.toNat == 0x200D ||
    match category c with
    | .nl | .nd | .mn | .mc | .me | .pc => true
    | _ => false

def isCombining (c : Char) : Bool :=
  (match category c with
    | .mn | .me => true
    | _ => false) ||
  inRuns [(2494, 2494), (2519, 2519), (2878, 2878), (2903, 2903), (3006, 3006), (3031, 3031),
    (3266, 3266), (3285, 3286), (3390, 3390), (3415, 3415), (3535, 3535), (3551, 3551),
    (6965, 6965), (8204, 8204), (12334, 12335), (65438, 65439), (70462, 70462), (70487, 70487),
    (70832, 70832), (70845, 70845), (71087, 71087), (71984, 71984),
    (119141, 119141), (119150, 119154), (917536, 917631)] c.toNat

/-- Characters with a shape of their own: neither controls, unassigned, private nor blanks other
than the space. -/
def isPrintable (c : Char) : Bool :=
  if c.toNat < 128 then 32 ≤ c.toNat && c.toNat < 127
  else match category c with
    | .cc | .cf | .cs | .co | .cn | .zl | .zp | .zs => false
    | _ => true

end Signpost.Unicode
