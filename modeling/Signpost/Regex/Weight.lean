import Signpost.Regex.Basic

/-!
How large a pattern is once its repetitions are written out. The measure is the memory, in bytes, of
an automaton over the bytes of the text, taken roughly; patterns beyond ten mebibytes are refused.
-/

namespace Signpost

/-- The weight of one property: how many byte ranges its characters need. -/
def CharProperty.weight : CharProperty → Nat
  | .digit => 4000
  | .blank => 500
  | .word => 60000
  | .alphabetic => 55000
  | .ofCategories ks => 12000 * ks.length
  | .ofRuns runs => 60 * runs.length

def CharSet.weight : CharSet → Nat
  | .empty => 24
  | .range first last => if last.toNat < 128 then 24 else if first = last then 96 else 200
  | .property p => p.weight
  | .union a b => a.weight + b.weight
  | .inter a b => a.weight + b.weight
  | .compl a => 300 + a.weight
  | .variants a => 2 * a.weight
  | .asciiVariants a => a.weight

namespace Regex

/-- The weight of an expression. A bounded repetition is written out as often as it may happen. -/
def weight : Regex → Nat
  | empty => 24
  | set s => s.weight
  | look _ => 24
  | cat r s => r.weight + s.weight
  | alt r s => 32 + r.weight + s.weight
  | repeated r least most _ =>
    match most with
    | some most => least * r.weight + (most - least) * (r.weight + 32)
    | none => max least 1 * r.weight + 64
  | group _ r => 48 + r.weight

def maxWeight : Nat :=
  10 * 1024 * 1024

end Regex

end Signpost
