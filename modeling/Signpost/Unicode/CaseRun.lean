/-!
One-to-one maps between letters of different case. Such a map moves whole stretches of the alphabet
by one distance, so it is written as runs, each of which moves every character, or every other one,
of an interval.
-/

namespace Signpost.Unicode

/-- A run of a case map: the code points `first`, `first + step`, … up to `last` move by `shift`. -/
structure CaseRun where
  first : Nat
  last : Nat
  step : Nat
  shift : Int
  deriving Repr, DecidableEq

def CaseRun.covers (r : CaseRun) (n : Nat) : Bool :=
  r.first ≤ n && n ≤ r.last && (n - r.first) % r.step == 0

/-- Where a map given by runs sends a code point; a code point that no run covers stays where it
is. -/
def mapByRuns (runs : List CaseRun) (n : Nat) : Nat :=
  match runs.find? (·.covers n) with
  | some r => ((n : Int) + r.shift).toNat
  | none => n

def sourcesByRuns (runs : List CaseRun) (n : Nat) : List Nat :=
  runs.filterMap fun r =>
    let source := ((n : Int) - r.shift).toNat
    if r.covers source && ((source : Int) + r.shift).toNat == n then some source else none

def caseRuns (rows : List (Nat × Nat × Nat × Int)) : List CaseRun :=
  rows.map fun (first, last, step, shift) => ⟨first, last, step, shift⟩

end Signpost.Unicode
