import Signpost.Proofs.Regex.Nested

/-!
The names of groups. What a way to match captures is captured under the names of the groups of the
expression, and a reader has listed the name of every group that it holds. Main statements:
`Regex.Way.name_mem` and `Regex.Reads.covered`.
-/

namespace Signpost.Regex

def groupNames : Regex → List Text
  | empty => []
  | set _ => []
  | look _ => []
  | cat r s => r.groupNames ++ s.groupNames
  | alt r s => r.groupNames ++ s.groupNames
  | repeated r _ _ _ => r.groupNames
  | group name r => name :: r.groupNames

theorem Way.name_mem {r : Regex} {p : Place} {h : Hit} (hway : r.Way p h) :
    ∀ e ∈ h.captures, e.1 ∈ r.groupNames := by
  induction r generalizing p h with
  | empty =>
    obtain rfl : h = ⟨p, []⟩ := hway
    simp
  | set s =>
    obtain ⟨c, rest, -, -, rfl⟩ := hway
    simp
  | look l =>
    obtain ⟨-, rfl⟩ := hway
    simp
  | cat r s ihr ihs =>
    obtain ⟨k, l, hk, hl, rfl⟩ := hway
    intro e he
    rcases List.mem_append.mp he with hnext | hfirst
    · exact List.mem_append_right _ (ihs hl e hnext)
    · exact List.mem_append_left _ (ihr hk e hfirst)
  | alt r s ihr ihs =>
    intro e he
    rcases hway with hr | hs
    · exact List.mem_append_left _ (ihr hr e he)
    · exact List.mem_append_right _ (ihs hs e he)
  | repeated r least most greedy ih =>
    obtain ⟨n, -, -, hturns⟩ := hway
    induction n generalizing p h with
    | zero =>
      obtain rfl : h = ⟨p, []⟩ := hturns
      simp
    | succ n ihn =>
      obtain ⟨k, l, hk, hl, rfl⟩ := hturns
      intro e he
      rcases List.mem_append.mp he with hnext | hfirst
      · exact ihn hl e hnext
      · exact ih hk e hfirst
  | group name r ih =>
    obtain ⟨k, hk, rfl⟩ := hway
    intro e he
    rcases List.mem_cons.mp he with rfl | hinner
    · exact List.mem_cons_self
    · exact List.mem_cons_of_mem _ (ih hk e hinner)

/-- Expressions in a row, the first one first. -/
def row : List Regex → Regex
  | [] => empty
  | r :: rs => rs.foldl cat r

theorem joinPieces_regex (step : Regex → Regex → Regex) (pieces : List Piece) :
    (joinPieces step pieces).regex =
      match pieces.reverse.map (·.regex) with
      | [] => empty
      | r :: rs => rs.foldl step r := by
  match pieces with
  | [] => rfl
  | [p] => rfl
  | p :: q :: pieces =>
    unfold joinPieces
    cases hpieces : (p :: q :: pieces).reverse with
    | nil => simp at hpieces
    | cons first rest => simp [List.foldl_map, hpieces]

theorem joinPieces_cat (pieces : List Piece) :
    (joinPieces cat pieces).regex = row (pieces.reverse.map (·.regex)) := by
  rw [joinPieces_regex]
  cases pieces.reverse.map (·.regex) <;> rfl

theorem mem_groupNames_foldl {step : Regex → Regex → Regex} {n : Text}
    (hstep : ∀ r s, (step r s).groupNames = r.groupNames ++ s.groupNames) {rs : List Regex}
    {r : Regex} :
    n ∈ (rs.foldl step r).groupNames ↔ ∃ s ∈ r :: rs, n ∈ s.groupNames := by
  induction rs generalizing r with
  | nil => simp
  | cons s rs ih =>
    rw [List.foldl_cons, ih]
    simp only [List.exists_mem_cons_iff, hstep, List.mem_append, or_assoc]

theorem mem_groupNames_joinPieces {step : Regex → Regex → Regex} {pieces : List Piece} {n : Text}
    (hstep : ∀ r s, (step r s).groupNames = r.groupNames ++ s.groupNames) :
    n ∈ (joinPieces step pieces).regex.groupNames ↔ ∃ p ∈ pieces, n ∈ p.regex.groupNames := by
  have hpieces : (∃ p ∈ pieces, n ∈ p.regex.groupNames) ↔
      ∃ r ∈ pieces.reverse.map (·.regex), n ∈ r.groupNames := by
    simp
  rw [hpieces, joinPieces_regex]
  cases pieces.reverse.map (·.regex) with
  | nil => simp [groupNames]
  | cons r rs => exact mem_groupNames_foldl hstep

/-- Every group among the alternatives has a name of the list. -/
def Branches.NamedIn (names : List Text) (b : Branches) : Prop :=
  ∀ p ∈ b.pieces ++ b.done, ∀ n ∈ p.regex.groupNames, n ∈ names

/-- The reader has listed the name of every group that it holds. -/
structure Reader.Covered (s : Reader) : Prop where
  here : s.branches.NamedIn s.names
  opened : ∀ g ∈ s.opened, g.outer.NamedIn s.names ∧ ∀ n, g.name = some n → n ∈ s.names

theorem Reader.covered_start (modes : Modes) : Reader.Covered { modes } :=
  ⟨fun _ hp => absurd hp List.not_mem_nil, fun _ hg => absurd hg List.not_mem_nil⟩

theorem Branches.NamedIn.push {names : List Text} {b : Branches} {p : Piece} (h : b.NamedIn names)
    (hp : ∀ n ∈ p.regex.groupNames, n ∈ names) :
    Branches.NamedIn names { b with pieces := p :: b.pieces } := by
  intro q hq
  rcases List.mem_cons.mp hq with rfl | hq
  · exact hp
  · exact h q hq

theorem Branches.NamedIn.close {names : List Text} {b : Branches} (h : b.NamedIn names) :
    ∀ n ∈ b.close.regex.groupNames, n ∈ names := by
  intro n hn
  obtain ⟨p, hp, hn⟩ := (mem_groupNames_joinPieces fun _ _ => rfl).mp hn
  rcases List.mem_cons.mp hp with rfl | hp
  · obtain ⟨q, hq, hn⟩ := (mem_groupNames_joinPieces fun _ _ => rfl).mp hn
    exact h q (List.mem_append_left _ hq) n hn
  · exact h p (List.mem_append_right _ hp) n hn

theorem Branches.NamedIn.mono {names more : List Text} {b : Branches} (h : b.NamedIn names)
    (hsub : ∀ n ∈ names, n ∈ more) : b.NamedIn more :=
  fun p hp n hn => hsub n (h p hp n hn)

theorem Reader.Covered.push {s : Reader} {p : Piece} (h : s.Covered)
    (hp : ∀ n ∈ p.regex.groupNames, n ∈ s.names) : (s.push p).Covered :=
  ⟨h.here.push hp, h.opened⟩

theorem Reader.Covered.open {s : Reader} (h : s.Covered) (name : Option Text) (modes : Modes) :
    (s.open name modes).Covered := by
  have hsub : ∀ n ∈ s.names, n ∈ (s.open name modes).names := by
    intro n hn
    cases name with
    | none => exact hn
    | some name => exact List.mem_cons_of_mem _ hn
  constructor
  · intro p hp
    exact absurd hp List.not_mem_nil
  · intro g hg
    rcases List.mem_cons.mp hg with rfl | hg
    · refine ⟨h.here.mono hsub, fun n hn => ?_⟩
      obtain rfl : name = some n := hn
      exact List.mem_cons_self
    · exact ⟨(h.opened g hg).1.mono hsub, fun n hn => hsub n ((h.opened g hg).2 n hn)⟩

/-- A part leaves every name listed. Only the pieces that it brings along have to be free of
groups. -/
theorem Reader.Covered.apply {s s' : Reader} {part : Part} (hs : s.Covered)
    (h : s.apply part = some s') (hpart : ∀ p, part = .piece p → p.regex.groupNames = []) :
    s'.Covered := by
  cases part with
  | piece p =>
    obtain rfl := Option.some.inj h
    exact hs.push (by simp [hpart p rfl])
  | change modes =>
    obtain rfl := Option.some.inj h
    exact Reader.Covered.push (s := { s with modes := modes }) ⟨hs.here, hs.opened⟩
      (by simp [groupNames])
  | opening name modes =>
    cases name with
    | none =>
      obtain rfl := Option.some.inj h
      exact hs.open none modes
    | some name =>
      obtain ⟨-, rfl⟩ := Reader.apply_opening_eq_some h
      exact hs.open (some name) modes
  | closing =>
    obtain ⟨branches, opened, modes, names⟩ := s
    cases opened with
    | nil => simp [Reader.apply, Reader.close] at h
    | cons g opened =>
      obtain rfl := Option.some.inj h
      obtain ⟨houter, hname⟩ := hs.opened g List.mem_cons_self
      have hinner : ∀ n ∈ branches.close.regex.groupNames, n ∈ names := hs.here.close
      refine Reader.Covered.push (s := ⟨g.outer, opened, g.modes, names⟩)
        ⟨houter, fun g' hg' => hs.opened g' (List.mem_cons_of_mem _ hg')⟩ ?_
      cases hg : g.name with
      | none => exact hinner
      | some name =>
        intro n hn
        rcases List.mem_cons.mp hn with rfl | hn
        · exact hname _ hg
        · exact hinner n hn
  | alternative =>
    obtain rfl := Option.some.inj h
    refine ⟨fun p hp n hn => ?_, hs.opened⟩
    simp only [Reader.alternative, List.nil_append] at hp
    rcases List.mem_cons.mp hp with rfl | hp
    · obtain ⟨q, hq, hn⟩ := (mem_groupNames_joinPieces fun _ _ => rfl).mp hn
      exact hs.here q (List.mem_append_left _ hq) n hn
    · exact hs.here p (List.mem_append_right _ hp) n hn
  | repetition least most greedy =>
    obtain ⟨p, pieces, hpieces, rfl⟩ := Reader.apply_repetition_eq_some h
    have hhere : ∀ q ∈ (p :: pieces) ++ s.branches.done, ∀ n ∈ q.regex.groupNames, n ∈ s.names :=
      hpieces ▸ hs.here
    refine ⟨fun q hq n hn => ?_, hs.opened⟩
    rcases List.mem_cons.mp hq with rfl | hq
    · exact hhere p List.mem_cons_self n hn
    · exact hhere q (List.mem_cons_of_mem _ hq) n hn

theorem readPart_groupNames {m : Modes} {c : Char} {t rest : Text} {p : Piece}
    (h : readPart m c t = some (.piece p, rest)) : p.regex.groupNames = [] := by
  have hnamed : ∀ t, readNamedGroup m t ≠ some (.piece p, rest) := by
    intro t h
    obtain ⟨⟨name, behind⟩, -, hq⟩ := Option.bind_eq_some_iff.mp h
    dsimp only at hq
    split_ifs at hq
    simp at hq
  unfold readPart at h
  split at h
  · unfold readGroupStart at h
    split at h
    case h_5 => exact absurd h (hnamed _)
    case h_6 => exact absurd h (hnamed _)
    case h_7 =>
      obtain ⟨q, -, hq⟩ := Option.bind_eq_some_iff.mp h
      dsimp only at hq
      split_ifs at hq <;> simp at hq
    all_goals simp at h
  · simp at h
  · simp at h
  · obtain ⟨q, -, hq⟩ := Option.bind_eq_some_iff.mp h
    obtain ⟨rfl, -⟩ : _ = p ∧ _ = rest := by simpa using hq
    rfl
  · simp [readRepetition] at h
  · simp [readRepetition] at h
  · simp [readRepetition] at h
  · obtain ⟨q, -, hq⟩ := Option.bind_eq_some_iff.mp h
    simp [readRepetition] at hq
  · obtain ⟨⟨a, behind⟩, -, hq⟩ := Option.bind_eq_some_iff.mp h
    obtain ⟨q, hatom, heq⟩ := Option.bind_eq_some_iff.mp hq
    obtain ⟨rfl, -⟩ : q = p ∧ _ = rest := by simpa using heq
    cases a with
    | literal c asByte =>
      simp only [atomPiece?, literalPiece] at hatom
      split_ifs at hatom <;> obtain rfl := Option.some.inj hatom <;> rfl
    | set s =>
      obtain rfl := Option.some.inj hatom
      rfl
    | look l =>
      obtain rfl := Option.some.inj hatom
      rfl
  · obtain ⟨q, hdot, heq⟩ := Option.map_eq_some_iff.mp h
    obtain ⟨rfl, -⟩ : q = p ∧ _ = rest := by simpa using heq
    unfold dotPiece? at hdot
    split_ifs at hdot <;> obtain rfl := Option.some.inj hdot <;> rfl
  · obtain ⟨rfl, -⟩ : _ = p ∧ _ = rest := by simpa using h
    rfl
  · obtain ⟨rfl, -⟩ : _ = p ∧ _ = rest := by simpa using h
    rfl
  · obtain ⟨rfl, -⟩ : _ = p ∧ _ = rest := by simpa using h
    unfold literalPiece
    split <;> rfl

theorem Reader.Covered.step {s s' : Reader} {c : Char} {t rest : Text} (hs : s.Covered)
    (h : s.step c t = some (s', rest)) : s'.Covered := by
  obtain ⟨⟨part, rest'⟩, hpart, happly⟩ := Option.bind_eq_some_iff.mp h
  obtain ⟨s'', hs'', heq⟩ := Option.bind_eq_some_iff.mp happly
  obtain ⟨rfl, rfl⟩ := Prod.mk.inj (Option.some.inj heq)
  refine hs.apply hs'' fun p hp => ?_
  subst hp
  exact readPart_groupNames hpart

theorem Reads.covered {s final : Reader} {t : Text} (h : Reads s t final) (hs : s.Covered) :
    final.Covered := by
  revert hs
  induction h using Reads.induct with
  | stop t h hskip => exact id
  | step s t h c rest s' t' hskip hstep hrest ih => exact fun hs => ih (hs.step hstep)

end Signpost.Regex
