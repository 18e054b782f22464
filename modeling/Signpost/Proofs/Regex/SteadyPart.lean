import Signpost.Proofs.Regex.SteadySet

/-!
The parts of a pattern in front of further text. Main statement: `Regex.readPart_steady`, that
whatever part a text starts with, it is the same part when a closing parenthesis and more follow.
-/

namespace Signpost.Regex

variable {m : Modes}

theorem readModeLetters_append {seen letters : List Char} {last : Char} {t rest : Text}
    (h : readModeLetters seen t = some (letters, last, rest)) :
    rest.length ≤ t.length ∧
      ∀ u, readModeLetters seen (t ++ u) = some (letters, last, rest ++ u) := by
  induction t generalizing seen with
  | nil => simp [readModeLetters] at h
  | cons c t ih =>
    simp only [List.cons_append, readModeLetters] at h ⊢
    split_ifs at h ⊢ with hlast hhyphen hletter
    · obtain ⟨rfl, rfl, rfl⟩ : seen.reverse = letters ∧ c = last ∧ t = rest := by simpa using h
      exact ⟨Nat.le_succ _, fun u => rfl⟩
    · obtain ⟨hle, happend⟩ := ih h
      exact ⟨Nat.le_succ_of_le hle, happend⟩

theorem readNamedGroup_steady (t : Text) : Steady (readNamedGroup m) t := by
  refine Steady.congr (fun t => ?_) ((cutFirst_steady '>' t).map fun name =>
    if isGroupName name then some (.opening (some name) m) else none)
  cases hcut : Text.cutFirst '>' t with
  | none => simp [readNamedGroup, hcut]
  | some p => 
    cases hname : isGroupName p.1 <;> simp [readNamedGroup, hcut, hname]

theorem readModeChange_steady (t : Text) : Steady (readModeChange m) t := by
  have hletters : Steady (fun t => (readModeLetters [] t).map fun p =>
      ((p.1, p.2.1), p.2.2)) t := by
    refine Steady.of_append fun x rest hread => ?_
    obtain ⟨⟨letters, last, rest'⟩, hread', heq⟩ := Option.map_eq_some_iff.mp hread
    obtain ⟨rfl, rfl⟩ := Prod.mk.inj heq
    obtain ⟨hle, happend⟩ := readModeLetters_append hread'
    exact ⟨hle, fun u => by rw [happend]; rfl⟩
  refine Steady.congr (fun t => ?_) (hletters.map fun p =>
    if p.2 = ':' then some (.opening none (m.change p.1 true))
    else if p.1 = [] then none else some (.change (m.change p.1 true)))
  cases hread : readModeLetters [] t with
  | none => simp [readModeChange, hread]
  | some p =>
    simp only [readModeChange, hread, Option.map_some, Option.bind_some, Option.bind_eq_bind]
    split_ifs <;> rfl

/-- A question mark behind a parenthesis, with a character that neither looks around nor names a
group. -/
theorem readGroupStart_modes {c : Char} (hstop : ∀ u, m.skip ('?' :: u) = '?' :: u)
    (hc : c ∉ ['=', '!', '<', 'P']) (t : Text) :
    readGroupStart m ('?' :: c :: t) = readModeChange m (c :: t) := by
  simp only [List.mem_cons, List.not_mem_nil, or_false, not_or] at hc
  simp [readGroupStart, hstop, hc]

theorem readModeChange_head {t rest : Text} {part : Part}
    (h : readModeChange m t = some (part, rest)) :
    ∃ c t', t = c :: t' ∧ c ∉ ['=', '!', '<', 'P'] := by
  obtain ⟨⟨letters, last, behind⟩, hread, -⟩ := Option.bind_eq_some_iff.mp h
  cases t with
  | nil => simp [readModeLetters] at hread
  | cons c t =>
    refine ⟨c, t, rfl, fun hc => ?_⟩
    simp only [List.mem_cons, List.not_mem_nil, or_false] at hc
    rcases hc with rfl | rfl | rfl | rfl <;> simp [readModeLetters] at hread

theorem readGroupStart_steady (t : Text) : Steady (readGroupStart m) t := by
  refine Steady.skipping m (fun t => ?_) ?_ fun c rest hstop => ?_
  · unfold readGroupStart
    rw [m.skip_skip]
  · intro x rest hread
    simp only [readGroupStart, m.skip_nil, Option.some.injEq, Prod.mk.injEq] at hread
    obtain ⟨rfl, rfl⟩ := hread
    exact ⟨Nat.le_refl _, .inl fun u => by simp [readGroupStart]⟩
  · by_cases hmark : c = '?'
    · subst hmark
      intro x after hread
      have hgroup := hread
      simp only [readGroupStart, hstop] at hread
      split at hread
      · simp at hread
      · simp at hread
      · simp at hread
      · simp at hread
      · next rest' heq =>
        obtain rfl := (List.cons_eq_cons.mp heq).2
        refine Steady.cons _ (fun _ => rfl) (Steady.cons _ (fun _ => rfl) ?_) x after hgroup
        exact Steady.cons _ (fun u => by simp [readGroupStart, hstop])
          (readNamedGroup_steady (m := m) rest')
      · next rest' hequals hbang heq =>
        obtain rfl := (List.cons_eq_cons.mp heq).2
        cases rest' with
        | nil => simp [readNamedGroup, Text.cutFirst] at hread
        | cons d rest' =>
          have hd : d ≠ '=' ∧ d ≠ '!' :=
            ⟨fun h => hequals rest' (by rw [h]), fun h => hbang rest' (by rw [h])⟩
          refine Steady.cons _ (fun _ => rfl) (Steady.cons _ (fun _ => rfl) ?_) x after hgroup
          exact Steady.congr_cons (fun u => by simp [readGroupStart, hstop, hd])
            (readNamedGroup_steady (m := m) (d :: rest'))
      · next rest' _ _ _ _ _ _ heq =>
        obtain rfl := (List.cons_eq_cons.mp heq).2
        obtain ⟨d, rest, rfl, hd⟩ := readModeChange_head hread
        refine Steady.cons _ (fun _ => rfl) ?_ x after hgroup
        exact Steady.congr_cons (readGroupStart_modes hstop hd) (readModeChange_steady (d :: rest))
      · next hno => exact absurd rfl (hno rest)
    · refine Steady.congr_cons (fun u => ?_) (Steady.pure (.opening none m) (c :: rest))
      simp [readGroupStart, hstop, hmark]

theorem readRepetition_steady (least : Nat) (most : Option Nat) (t : Text) :
    Steady (readRepetition least most) t := by
  cases t with
  | nil =>
    intro x rest hread
    obtain ⟨rfl, rfl⟩ := Prod.mk.inj (Option.some.inj hread)
    exact ⟨Nat.le_refl _, .inl fun u => rfl⟩
  | cons c t =>
    by_cases hc : c = '?'
    · subst hc
      exact Steady.cons (fun t =>
        some (.repetition least most false, t)) (fun _ => rfl) (Steady.pure _ t)
    · refine Steady.congr_cons (fun u => ?_)
        (Steady.pure (Part.repetition least most true) (c :: t))
      simp [readRepetition, readLazy, hc]

theorem readBracket_steady (t : Text) :
    Steady (fun t => do
      let (members, depth, rest) ← readBracket m t
      return (Part.piece { regex := set members, depth := depth }, rest)) t := by
  refine Steady.of_append fun x rest hread => ?_
  obtain ⟨⟨members, depth, behind⟩, hbracket, heq⟩ := Option.bind_eq_some_iff.mp hread
  obtain ⟨rfl, rfl⟩ := Prod.mk.inj (Option.some.inj heq)
  obtain ⟨hle, happend⟩ := readBracket_append hbracket
  exact ⟨hle, fun u => by rw [happend]; rfl⟩

theorem readBounds_steady (t : Text) :
    Steady (fun t => do
      let (least, most, rest) ← readBounds m t
      readRepetition least most (m.skip rest)) t := by
  have hfirst : Steady (fun t => (readBounds m t).map fun p => ((p.1, p.2.1), p.2.2)) t := by
    refine Steady.of_append fun x rest hread => ?_
    obtain ⟨⟨least, most, behind⟩, hbounds, heq⟩ := Option.map_eq_some_iff.mp hread
    obtain ⟨rfl, rfl⟩ := Prod.mk.inj heq
    obtain ⟨hle, happend⟩ := readBounds_append hbounds
    exact ⟨hle, fun u => by rw [happend]; rfl⟩
  refine Steady.congr (fun t => ?_)
    (Steady.bind (fun p t => readRepetition p.1 p.2 (m.skip t)) hfirst
    fun p rest _ => Steady.skip (readRepetition_steady p.1 p.2 (m.skip rest)))
  cases readBounds m t <;> rfl

/-- Whatever part a text starts with, it is the same part when a closing parenthesis and more
follow. -/
theorem readPart_steady (c : Char) (t : Text) : Steady (readPart m c) t := by
  unfold readPart
  split
  · exact readGroupStart_steady t
  · exact Steady.pure Part.closing t
  · exact Steady.pure Part.alternative t
  · exact readBracket_steady t
  · exact readRepetition_steady 0 (some 1) t
  · exact readRepetition_steady 0 none t
  · exact readRepetition_steady 1 none t
  · exact readBounds_steady t
  · refine Steady.congr (fun t => ?_) ((readEscape_steady (m := m) t).map fun a =>
      (atomPiece? m a).map Part.piece)
    cases hread : readEscape m t with
    | none => rfl
    | some p => cases hpiece : atomPiece? m p.1 <;> simp [hpiece]
  · cases dotPiece? m with
    | none => exact Steady.fails rfl
    | some p => exact Steady.pure (Part.piece p) t
  · exact Steady.pure _ t
  · exact Steady.pure _ t
  · exact Steady.pure _ t

end Signpost.Regex
