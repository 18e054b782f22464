import Signpost.Proofs.Template.ActionPattern
import Signpost.Proofs.Template.Segments

/-!
The constraints of placeholders that have none of their own. What they accept they accept whether or
not case matters, since no other character is a case variant of a slash. Main statements:
`CompiledTemplate.caseFree_path` and `CompiledTemplate.acceptsAnyCase_host`.
-/

namespace Signpost

namespace Unicode

/-- A code point that the runs of folding neither take nor reach is a variant of no other. -/
theorem eq_of_mem_variantCodes {m n : Nat} (hm : 0 < m)
    (hruns : ∀ r ∈ foldingRuns,
      ¬r.covers m = true ∧ ((m : Int) < r.first + r.shift ∨ r.last + r.shift < m))
    (h : m ∈ variantCodes n) : m = n := by
  rcases List.mem_cons.mp h with h | h
  · unfold mapByRuns at h
    split at h
    · next r hr =>
      have hcovers := List.find?_some hr
      have houtside := (hruns r (List.mem_of_find?_eq_some hr)).2
      simp only [CaseRun.covers, Bool.and_eq_true, decide_eq_true_eq] at hcovers
      omega
    · exact h
  · obtain ⟨r, hr, hsource⟩ := List.mem_filterMap.mp h
    dsimp only at hsource
    split_ifs at hsource with hcovers
    rw [Bool.and_eq_true] at hcovers
    obtain rfl := Option.some.inj hsource
    exact absurd hcovers.1 (hruns r hr).1

theorem eq_of_slash_mem_caseVariants {c : Char} (h : '/' ∈ caseVariants c) : c = '/' := by
  have hcode : c.toNat = 47 := by
    by_cases hascii : c.toNat < 128
    · have hall : ∀ n < 128, '/' ∈ caseVariants (Char.ofNat n) → n = 47 := by decide +kernel
      exact hall c.toNat hascii (by rwa [Char.ofNat_toNat])
    · have hruns : ∀ r ∈ foldingRuns,
          ¬r.covers 47 = true ∧ ((47 : Nat) < r.first + r.shift ∨
            r.last + r.shift < (47 : Nat)) := by
        decide +kernel
      rw [caseVariants, if_neg hascii] at h
      rcases List.mem_cons.mp h with heq | hvariant
      · rw [← heq]
        rfl
      · obtain ⟨n, hn, heq⟩ := List.mem_map.mp hvariant
        have hn47 : n = 47 := by
          have htoNat : (Char.ofNat n).toNat = 47 := congrArg Char.toNat heq
          by_cases hvalid : n.isValidChar
          · have hchar : Char.ofNat n = Char.ofNatAux n hvalid := dif_pos hvalid
            rw [hchar] at htoNat
            exact htoNat
          · have hchar : Char.ofNat n = '\x00' := dif_neg hvalid
            rw [hchar] at htoNat
            cases htoNat
        subst hn47
        exact (eq_of_mem_variantCodes (by decide) hruns hn).symm
  rw [← Char.ofNat_toNat c, hcode]

end Unicode

namespace CompiledTemplate

open Regex

/-- Whatever the constraint accepts it accepts when case does not matter. -/
def CaseFree (constraint : Text) : Prop :=
  ∀ v, (ownRegex constraint).anchored.isMatch v = true → AcceptsAnyCase constraint v

theorem caseFree_path : CaseFree pathConstraint := by
  intro v hv
  obtain ⟨hne, hslash⟩ := isMatch_path_iff.mp hv
  have hread : Regex.read? true pathConstraint =
      some (.repeated (.set (.compl (.variants (.single '/')))) 1 none true) := by decide +kernel
  have hwhole : Regex.read? true (Pattern.whole pathConstraint) =
      some (Regex.repeated (.set (.compl (.variants (.single '/')))) 1 none true).anchored := by
    decide +kernel
  refine ⟨⟨_, hread, rfl⟩, _, hwhole,
    isMatch_repeated_set.mpr ⟨List.length_pos_of_ne_nil hne, fun c hc => ?_⟩⟩
  rw [CharSet.mem, Bool.not_eq_true', ← Bool.not_eq_true]
  intro hvariants
  obtain ⟨d, hd, hmem⟩ := List.any_eq_true.mp hvariants
  obtain rfl := mem_single.mp hmem
  exact hslash (Unicode.eq_of_slash_mem_caseVariants hd ▸ hc)

/-- Any text on one line. -/
def anyLine : Regex :=
  .repeated (.set (.compl (.single '\n'))) 0 none true

theorem read?_host : Regex.read? true hostConstraint = some anyLine ∧
    Regex.read? true (Pattern.whole hostConstraint) = some anyLine.anchored := ⟨rfl, rfl⟩

theorem mem_anyLine {c : Char} : (CharSet.compl (.single '\n')).mem c = true ↔ c ≠ '\n' := by
  rw [CharSet.mem, Bool.not_eq_true', ← Bool.not_eq_true, mem_single]

theorem acceptsAnyCase_host {v : Text} (hv : '\n' ∉ v) : AcceptsAnyCase hostConstraint v := by
  refine ⟨⟨_, read?_host.1, rfl⟩, _, read?_host.2,
    isMatch_repeated_set.mpr ⟨Nat.zero_le _, fun c hc => ?_⟩⟩
  rw [mem_anyLine]
  rintro rfl
  exact hv hc

end CompiledTemplate

end Signpost
