import Signpost.Proofs.Regex.Steady

/-!
Escapes and counts in front of further text. Most of their readers never look behind what they take;
those that skip blanks at the end may run into an open comment there. Main statements:
`Regex.readEscape_steady` and `Regex.readBounds_append`.
-/

namespace Signpost.Regex

variable {m : Modes}

theorem cutFirst_steady (separator : Char) (t : Text) : Steady (Text.cutFirst separator) t := by
  refine Steady.of_append fun before rest hread => ?_
  exact ⟨Nat.le_of_lt (Text.length_cutFirst hread), fun u => Text.cutFirst_append _ hread⟩

theorem readHexDigits_steady (count value : Nat) (t : Text) :
    Steady (readHexDigits m count value) t := by
  induction count generalizing value t with
  | zero => exact Steady.pure value t
  | succ count ih =>
    cases t with
    | nil => exact Steady.fails rfl
    | cons c rest =>
      cases hdigit : Text.digitValue? 16 c with
      | none => exact Steady.fails (by simp [readHexDigits, hdigit])
      | some d =>
        refine Steady.cons _ (fun t => ?_) (Steady.skip (ih (value * 16 + d) (m.skip rest)))
        simp [readHexDigits, hdigit]

theorem readBracedHex_steady (inside t : Text) : Steady (readBracedHex m inside) t := by
  cases hvalue : Text.numberValue? 16 (if m.verbose then inside.filter fun c =>
    !Text.isBlank c else inside) with
  | none => exact Steady.fails (by simp [readBracedHex, hvalue])
  | some n =>
    refine Steady.congr (fun t => ?_) (Steady.skip (Steady.pure n (m.skip t)))
    simp [readBracedHex, hvalue]

theorem Steady.code {read : Text → Option (Nat × Text)} {t : Text} (h : Steady read t)
    (asByte : Bool) :
    Steady (fun t => do
      let (code, rest) ← read t
      return (Atom.literal (← charOfCode? code) asByte, rest)) t := by
  refine Steady.congr (fun t => ?_) (h.map fun code => (charOfCode? code).map fun c =>
    .literal c asByte)
  cases read t with
  | none => rfl
  | some p => cases hcode : charOfCode? p.1 <;> simp [hcode]

theorem readCode_steady (kind : Char) (t : Text) : Steady (readCode m kind) t := by
  refine Steady.skipping m (fun t => ?_) ?_ fun c rest hstop => ?_
  · unfold readCode
    rw [m.skip_skip]
  · refine Steady.fails ?_
    have hpos : (if kind = 'x' then 2 else if kind = 'u' then 4 else 8) ≠ 0 := by
      split_ifs <;> decide
    obtain ⟨n, hn⟩ := Nat.exists_eq_succ_of_ne_zero hpos
    simp [readCode, hn, readHexDigits]
  · by_cases hc : c = '{'
    · subst hc
      refine Steady.cons (fun t => (Text.cutFirst '}' t).bind fun p => do
        let (code, rest) ← readBracedHex m p.1 p.2
        return (.literal (← charOfCode? code) false, rest)) (fun t => ?_) ?_
      · simp [readCode, hstop]
      · exact Steady.bind _ (cutFirst_steady '}' rest)
          fun inside rest _ => (readBracedHex_steady inside rest).code false
    · have hplain := (readHexDigits_steady (m := m)
        (if kind = 'x' then 2 else if kind = 'u' then 4 else 8) 0 (c :: rest)).code (kind == 'x')
      refine Steady.congr_cons (fun t => ?_) hplain
      simp only [readCode, hstop]
      split
      · next heq => exact absurd (List.cons_eq_cons.mp heq).1 hc
      · rfl

theorem readProperty_steady (negated : Bool) (t : Text) : Steady (readProperty m negated) t := by
  by_cases hunicode : m.unicode = true
  · refine Steady.skipping m (fun t => ?_) ?_ fun c rest hstop => ?_
    · unfold readProperty
      rw [m.skip_skip]
    · exact Steady.fails (by simp [readProperty])
    · by_cases hbrace : c = '{'
      · subst hbrace
        refine Steady.cons _ (fun t => ?_) ((cutFirst_steady '}' rest).map fun inside =>
          (propertyNamed? (if m.verbose then inside.filter fun c =>
            !Text.isBlank c else inside)).map
            fun s => .set (m.finish negated s))
        simp only [readProperty, hunicode, hstop]
        cases hcut : Text.cutFirst '}' t with
        | none => rfl
        | some p => 
          cases hname : propertyNamed? (if m.verbose then p.1.filter fun c =>
            !Text.isBlank c else p.1) <;> simp [hname]
      · cases hname : CharProperty.named? [c] with
        | none => 
          refine Steady.fails ?_
          simp only [readProperty, hunicode, hstop]
          simp [hname]
        | some s =>
          by_cases hslash : c = '\\'
          · subst hslash
            exact Steady.fails (by simp [readProperty, hunicode, hstop])
          · refine Steady.cons _ (fun t => ?_)
              (Steady.skip (Steady.pure (.set (m.finish negated s)) (m.skip rest)))
            simp [readProperty, hunicode, hstop, hslash, hname]
  · exact Steady.fails (by simp [readProperty, hunicode])

/-- A boundary leaves the text behind it, or the text behind the name that it has. -/
theorem readBoundary_steady (t : Text) : Steady (readBoundary m) t := by
  cases t with
  | nil =>
    refine Steady.of_append fun x rest hread => ?_
    obtain ⟨rfl, rfl⟩ := Prod.mk.inj (Option.some.inj hread)
    exact ⟨Nat.le_refl _, fun u => rfl⟩
  | cons c rest =>
    by_cases hbrace : c = '{'
    · subst hbrace
      cases hskip : m.skip rest with
      | nil => exact Steady.fails (by simp [readBoundary, hskip])
      | cons d inside =>
        refine Steady.of_append fun x after hread => ?_
        simp only [readBoundary, hskip, List.cons_append] at hread ⊢
        by_cases hletter : isBoundaryLetter d = true
        · rw [if_pos hletter] at hread
          split at hread
          · next name behind hname =>
            obtain ⟨l, hl, heq⟩ := Option.map_eq_some_iff.mp hread
            obtain ⟨rfl, rfl⟩ := Prod.mk.inj heq
            have hle := m.readWhile_length isBoundaryLetter (d :: inside)
            have hle' := m.skip_length rest
            rw [hname] at hle
            rw [hskip] at hle'
            refine ⟨by simp only [List.length_cons] at hle hle' ⊢; omega, fun u => ?_⟩
            have happend :=
              Modes.readWhile_append (m := m) (p := isBoundaryLetter) (t := d :: inside)
              (')' :: u) (by rw [hname]; simp)
            rw [hname] at happend
            simp only [List.cons_append] at happend
            simp only [Modes.skip_append_of_cons _ hskip, if_pos hletter, happend, hl,
              Option.map_some]
          · simp at hread
        · rw [if_neg hletter] at hread
          obtain ⟨rfl, rfl⟩ := Prod.mk.inj (Option.some.inj hread)
          refine ⟨Nat.le_refl _, fun u => ?_⟩
          simp only [Modes.skip_append_of_cons _ hskip, if_neg hletter, List.cons_append]
    · have hplain : ∀ t,
          readBoundary m (c :: t) = some (.look (.wordBoundary m.unicode), c :: t) := by
        intro t
        unfold readBoundary
        split
        · next heq => exact absurd (List.cons_eq_cons.mp heq).1 hbrace
        · rfl
      exact Steady.congr_cons hplain (Steady.pure _ _)

theorem readEscape_steady (t : Text) : Steady (readEscape m) t := by
  cases t with
  | nil => exact Steady.fails rfl
  | cons c rest =>
    by_cases hdigit : c.isDigit = true
    · exact Steady.fails (by simp [readEscape, hdigit])
    by_cases hcode : c = 'x' ∨ c = 'u' ∨ c = 'U'
    · refine Steady.cons (readCode m c) (fun t => ?_) (readCode_steady c rest)
      simp only [readEscape, if_neg hdigit, if_pos hcode]
    by_cases hproperty : c = 'p' ∨ c = 'P'
    · refine Steady.cons (readProperty m (c == 'P')) (fun t => ?_) (readProperty_steady _ rest)
      simp only [readEscape, if_neg hdigit, if_neg hcode, if_pos hproperty]
    by_cases hboundary : c = 'b'
    · subst hboundary
      exact Steady.cons (readBoundary m) (fun t => rfl) (readBoundary_steady rest)
    have hplain : ∀ t, readEscape m (c :: t) =
        (readEscape m [c]).bind fun p => some (p.1, t) := by
      intro t
      simp only [readEscape, if_neg hdigit, if_neg hcode, if_neg hproperty]
      split
      · cases letterClass? m c <;> rfl
      · split
        case h_9 => exact absurd rfl hboundary
        case h_13 => split <;> rfl
        all_goals rfl
    cases hread : readEscape m [c] with
    | none => exact Steady.fails (by rw [hplain, hread]; rfl)
    | some p =>
      refine Steady.cons _ (fun t => ?_) (Steady.pure p.1 rest)
      rw [hplain, hread, Option.bind_some]

theorem readCount_append {t rest : Text} {n : Nat} (u : Text) (h : readCount m t = some (n, rest))
    (hrest : rest ≠ []) : readCount m (t ++ u) = some (n, rest ++ u) := by
  obtain ⟨n', hvalue, hn⟩ := Option.bind_eq_some_iff.mp h
  split_ifs at hn with hlt
  obtain ⟨rfl, rfl⟩ := Prod.mk.inj (Option.some.inj hn)
  have hbehind : (m.readWhile Char.isDigit (Text.trimStart t)).2 ≠ [] := by
    intro hnil
    rw [hnil] at hrest
    exact hrest rfl
  have hfront : Text.trimStart t ≠ [] := by
    intro hnil
    rw [hnil, Modes.readWhile] at hbehind
    exact hbehind rfl
  simp only [readCount, Text.trimStart_append u hfront, Modes.readWhile_append u hbehind, hvalue,
    Text.trimStart_append u hrest]
  simp [hlt]

@[simp]
theorem readCount_nil : readCount m [] = none := by
  simp [readCount, Text.trimStart, Modes.readWhile, Text.decimalValue?]

theorem readCount_length {t rest : Text} {n : Nat} (h : readCount m t = some (n, rest)) :
    rest.length ≤ t.length := by
  obtain ⟨n', hvalue, hn⟩ := Option.bind_eq_some_iff.mp h
  split_ifs at hn with hlt
  obtain ⟨rfl, rfl⟩ := Prod.mk.inj (Option.some.inj hn)
  have htrim : ∀ t, (Text.trimStart t).length ≤ t.length := fun t =>
    (List.dropWhile_suffix _).length_le
  exact Nat.le_trans (htrim _) (Nat.le_trans (m.readWhile_length _ _) (htrim t))

/-- Bounds end with a brace, so they are the same when more text follows. -/
theorem readBounds_append {t rest : Text} {least : Nat} {most : Option Nat}
    (h : readBounds m t = some (least, most, rest)) :
    rest.length ≤ t.length ∧ ∀ u, readBounds m (t ++ u) = some (least, most, rest ++ u) := by
  obtain ⟨⟨n, behind⟩, hleast, hmost⟩ := Option.bind_eq_some_iff.mp h
  have hskip : m.skip t ≠ [] := by
    intro hnil
    rw [hnil, readCount_nil] at hleast
    simp at hleast
  have hle := readCount_length hleast
  have hle' := m.skip_length t
  dsimp only at hmost
  split at hmost
  · next rest' =>
    have hleast' := fun u => readCount_append u hleast (by simp)
    split at hmost
    · next rest'' hbrace =>
      simp at hmost
      obtain ⟨rfl, rfl, rfl⟩ := hmost
      have hle'' := m.skip_length rest'
      rw [hbrace] at hle''
      refine ⟨by simp only [List.length_cons] at *; omega, fun u => ?_⟩
      unfold readBounds
      rw [Modes.skip_append_of_ne_nil u hskip, hleast' u]
      simp [Modes.skip_append_of_cons u hbrace]
    · next hother =>
      obtain ⟨⟨n', behind⟩, hcount, hclose⟩ := Option.bind_eq_some_iff.mp hmost
      cases hcomma : m.skip rest' with
      | nil =>
        rw [hcomma, readCount_nil] at hcount
        simp at hcount
      | cons c r =>
        have hc : c ≠ '}' := fun heq => hother r (by rw [hcomma, heq])
        have hle₁ := readCount_length hcount
        have hle₂ := m.skip_length rest'
        dsimp only at hclose
        split at hclose
        · next r' =>
          split_ifs at hclose with hbound
          simp at hclose
          obtain ⟨rfl, rfl, rfl⟩ := hclose
          refine ⟨by simp only [List.length_cons] at *; omega, fun u => ?_⟩
          rw [hcomma] at hcount
          have hcount' := readCount_append u hcount (by simp)
          rw [List.cons_append] at hcount'
          unfold readBounds
          rw [Modes.skip_append_of_ne_nil u hskip, hleast' u]
          simp only [Option.bind_eq_bind, Option.bind_some, List.cons_append]
          rw [Modes.skip_append_of_cons u hcomma]
          simp [hc, hcount', hbound]
        · simp at hclose
  · simp at hmost
    obtain ⟨rfl, rfl, rfl⟩ := hmost
    refine ⟨by simp only [List.length_cons] at *; omega, fun u => ?_⟩
    unfold readBounds
    rw [Modes.skip_append_of_ne_nil u hskip, readCount_append u hleast (by simp)]
    simp
  · simp at hmost

end Signpost.Regex
