import Signpost.Proofs.Template.PlainPath

/-!
Paths whose placeholders have no constraint of their own and fill a segment to its end. The values
of such a path hold no slash, so one path is read in one way only. Main statement:
`CompiledTemplate.BareSegments.unique`.
-/

namespace Signpost

namespace CompiledTemplate

open Regex

/-- Nothing follows, or literal text that starts with a slash. -/
def EndsSegment (tokens : List Token) : Prop :=
  tokens = [] ∨ ∃ t rest, tokens = .literal ('/' :: t) :: rest

instance : DecidablePred EndsSegment
  | [] => .isTrue (.inl rfl)
  | .literal [] :: _ => .isFalse (by rintro (h | ⟨_, _, h⟩) <;> cases h)
  | .literal (c :: t) :: rest =>
    if h : c = '/' then .isTrue (.inr ⟨t, rest, h ▸ rfl⟩)
    else .isFalse (by rintro (h' | ⟨_, _, h'⟩) <;> cases h'; exact h rfl)
  | .placeholder _ _ :: _ => .isFalse (by rintro (h | ⟨_, _, h⟩) <;> cases h)

/-- Every placeholder has no constraint of its own and ends a segment. -/
def BareSegments : List Token → Prop
  | [] => True
  | .literal _ :: tokens => BareSegments tokens
  | .placeholder _ constraint :: tokens =>
    constraint = none ∧ EndsSegment tokens ∧ BareSegments tokens

instance BareSegments.decidable : DecidablePred BareSegments
  | [] => .isTrue trivial
  | .literal _ :: tokens => BareSegments.decidable tokens
  | .placeholder _ constraint :: tokens =>
    have := BareSegments.decidable tokens
    inferInstanceAs (Decidable (constraint = none ∧ EndsSegment tokens ∧ BareSegments tokens))

theorem EndsSegment.dropOptionalSlash {tokens : List Token} (h : EndsSegment tokens) :
    EndsSegment (dropOptionalSlash tokens) := by
  rcases h with rfl | ⟨t, rest, rfl⟩
  · exact .inl rfl
  · cases rest with
    | nil =>
      rw [CompiledTemplate.dropOptionalSlash]
      split
      · exact .inl rfl
      · next kept hne hstrip =>
        have hkept := Text.stripEnd?_eq_some hstrip
        cases kept with
        | nil => exact absurd rfl hne
        | cons c kept =>
          obtain ⟨rfl, -⟩ := List.cons.inj hkept
          exact .inr ⟨kept, [], rfl⟩
      · exact .inr ⟨t, [], rfl⟩
    | cons token rest => exact .inr ⟨t, _, rfl⟩

theorem BareSegments.dropOptionalSlash {tokens : List Token} (h : BareSegments tokens) :
    BareSegments (dropOptionalSlash tokens) := by
  induction tokens using dropOptionalSlash.induct with
  | case1 => trivial
  | case2 t hstrip =>
    rw [CompiledTemplate.dropOptionalSlash, hstrip]
    trivial
  | case3 t kept hkept hstrip =>
    rw [CompiledTemplate.dropOptionalSlash, hstrip]
    split <;> trivial
  | case4 t hstrip =>
    rw [CompiledTemplate.dropOptionalSlash, hstrip]
    trivial
  | case5 token tokens hne ih =>
    rw [CompiledTemplate.dropOptionalSlash]
    · cases token with
      | literal t => exact ih h
      | placeholder name constraint => exact ⟨h.1, h.2.1.dropOptionalSlash, ih h.2.2⟩
    · exact hne

theorem BareSegments.constraint_eq {tokens : List Token} (h : BareSegments tokens) :
    ∀ p ∈ placeholders tokens, p.2 = pathConstraint := by
  induction tokens with
  | nil => simp [placeholders]
  | cons token tokens ih =>
    cases token with
    | literal t => exact ih h
    | placeholder name constraint =>
      obtain ⟨rfl, -, hrest⟩ := h
      exact List.forall_mem_cons.mpr ⟨rfl, ih hrest⟩

/-- On its own, the constraint of a bare placeholder is one or more characters that are no slash. -/
theorem read?_path :
    Regex.read? false pathConstraint =
      some (.repeated (.set (.compl (.range '/' '/'))) 1 none true) := by decide +kernel

theorem freeConstraint_path : FreeConstraint pathConstraint := ⟨_, read?_path, rfl⟩

theorem ownRegex_path :
    ownRegex pathConstraint = .repeated (.set (.compl (.range '/' '/'))) 1 none true := by
  rw [ownRegex, read?_path, Option.getD_some]

theorem turns_set_iff {s : CharSet} {n : Nat} {p : Place} {h : Hit} :
    Hit.Turns (Regex.set s).Way n p h ↔
      ∃ v, v.length = n ∧ (∀ c ∈ v, s.mem c = true) ∧ p.Passes v h.place ∧ h.captures = [] := by
  induction n generalizing p h with
  | zero =>
    constructor
    · rintro rfl
      exact ⟨[], rfl, by simp, .refl p, rfl⟩
    · rintro ⟨v, hv, -, hpasses, hnone⟩
      obtain rfl := List.length_eq_zero_iff.mp hv
      show h = ⟨p, []⟩
      rw [← hpasses.eq_of_nil, ← hnone]
  | succ n ih =>
    constructor
    · rintro ⟨k, l, hk, hl, rfl⟩
      obtain ⟨c, hc, hone, hknone⟩ := way_set.mp hk
      obtain ⟨v, hlength, hmem, hv, hlnone⟩ := ih.mp hl
      exact ⟨c :: v, congrArg Nat.succ hlength, List.forall_mem_cons.mpr ⟨hc, hmem⟩, hone.trans hv,
        by simp [Hit.extend, hknone, hlnone]⟩
    · rintro ⟨v, hlength, hmem, hpasses, hnone⟩
      obtain ⟨c, v, rfl⟩ := List.exists_cons_of_length_eq_add_one hlength
      obtain ⟨hc, hmem⟩ := List.forall_mem_cons.mp hmem
      obtain ⟨m, hm, hrest⟩ := Place.Passes.split (v := [c]) (w := v) hpasses
      exact ⟨⟨m, []⟩, h, way_set.mpr ⟨c, hc, hm, rfl⟩,
        ih.mpr ⟨v, Nat.succ.inj hlength, hmem, hrest, hnone⟩, (Hit.start_extend m h).symm⟩

/-- The texts of so many characters of a set. -/
theorem isMatch_repeated_set {s : CharSet} {least : Nat} {greedy : Bool} {v : Text} :
    (Regex.repeated (.set s) least none greedy).anchored.isMatch v = true ↔
      least ≤ v.length ∧ ∀ c ∈ v, s.mem c = true := by
  rw [isMatch_anchored_iff]
  constructor
  · rintro ⟨k, ⟨n, hleast, -, hturns⟩, hend⟩
    obtain ⟨w, rfl, hmem, hw, -⟩ := turns_set_iff.mp hturns
    obtain rfl := hw.eq_of_end hend
    exact ⟨hleast, hmem⟩
  · rintro ⟨hleast, hmem⟩
    exact ⟨⟨.finish v, []⟩, ⟨v.length, hleast, by simp,
      turns_set_iff.mpr ⟨v, rfl, hmem, Place.passes_finish v, rfl⟩⟩, rfl⟩

theorem isMatch_path_iff {v : Text} :
    (ownRegex pathConstraint).anchored.isMatch v = true ↔ v ≠ [] ∧ '/' ∉ v := by
  have hmem : ∀ c, (CharSet.compl (.range '/' '/')).mem c = true ↔ c ≠ '/' := by
    intro c
    show (!(CharSet.single '/').mem c) = true ↔ c ≠ '/'
    rw [Bool.not_eq_true', ← Bool.not_eq_true, mem_single]
  rw [ownRegex_path, isMatch_repeated_set, Nat.one_le_iff_ne_zero, List.length_eq_zero_iff.ne]
  simp only [hmem]
  exact and_congr_right fun _ => ⟨fun h hslash => h '/' hslash rfl, fun h c hc heq => h (heq ▸ hc)⟩

theorem slash_not_mem_of_accepts {a : Argument} {v : Text}
    (ha : a.pattern.regex = (ownRegex pathConstraint).anchored)
    (h : a.accepts v = true) : '/' ∉ v := by
  rw [Argument.accepts, Pattern.isMatch, ha] at h
  exact (isMatch_path_iff.mp h).2

/-- A path is read in one way only when no value holds a slash, even if one of the two readings
leaves a slash at the end. -/
theorem BareSegments.unique {a b : Text → Option Text} {tokens : List Token} {e : Text}
    (hbare : BareSegments tokens) (he : e = [] ∨ e = ['/'])
    (ha : ∀ p ∈ placeholders tokens, '/' ∉ (a p.1).getD [])
    (hb : ∀ p ∈ placeholders tokens, '/' ∉ (b p.1).getD [])
    (h : written a tokens ++ e = written b tokens) :
    ∀ p ∈ placeholders tokens, (a p.1).getD [] = (b p.1).getD [] := by
  induction tokens with
  | nil => simp [placeholders]
  | cons token tokens ih =>
    cases token with
    | literal t =>
      have hrest : t ++ (written a tokens ++ e) = t ++ written b tokens := by
        rw [← List.append_assoc]
        exact h
      exact ih hbare ha hb (List.append_cancel_left hrest)
    | placeholder name constraint =>
      obtain ⟨-, hend, hbare⟩ := hbare
      obtain ⟨ha₀, ha⟩ := List.forall_mem_cons.mp ha
      obtain ⟨hb₀, hb⟩ := List.forall_mem_cons.mp hb
      have hsplit :
          (a name).getD [] ++ (written a tokens ++ e) = (b name).getD [] ++ written b tokens := by
        rw [← List.append_assoc]
        exact h
      have hboth : (a name).getD [] = (b name).getD [] ∧
          written a tokens ++ e = written b tokens := by
        rcases hend with rfl | ⟨t, rest, rfl⟩
        · rcases he with rfl | rfl
          · simpa [written] using hsplit
          · -- The slash at the end would be in the last value.
            refine absurd ?_ hb₀
            have hslash : (a name).getD [] ++ ['/'] = (b name).getD [] := by
              simpa [written] using hsplit
            rw [← hslash]
            simp
        · exact (Text.append_separator_inj ha₀ hb₀ hsplit).imp_right (congrArg (List.cons '/'))
      exact List.forall_mem_cons.mpr ⟨hboth.1, ih hbare ha hb hboth.2⟩

end CompiledTemplate

end Signpost
