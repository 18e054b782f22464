import Signpost.Proofs.Regex.GroupBody

/-!
No group is lost. Once a reader has opened a group with a name it keeps it: open, within one of the
groups that are open, or among the pieces it has read. So a named group at which a reader arrives
while it goes through a pattern is a group of the expression. Main statements: `Regex.Reads.holds`
and `Regex.mem_groupNames_of_arrivesAt`.
-/

namespace Signpost.Regex

variable {name : Text}

/-- Some group among the alternatives has the name. -/
def Branches.Holds (name : Text) (b : Branches) : Prop :=
  ∃ p ∈ b.pieces ++ b.done, name ∈ p.regex.groupNames

theorem Branches.mem_groupNames_close {b : Branches} :
    name ∈ b.close.regex.groupNames ↔ b.Holds name := by
  have hjoin : ∀ pieces, name ∈ (joinPieces cat pieces).regex.groupNames ↔
      ∃ p ∈ pieces, name ∈ p.regex.groupNames :=
    fun _ => mem_groupNames_joinPieces fun _ _ => rfl
  rw [close, mem_groupNames_joinPieces fun _ _ => rfl, List.exists_mem_cons_iff, hjoin, Holds]
  simp only [List.mem_append, or_and_right, exists_or]

/-- The reader has opened a group with the name: it stands among what is read, or it or a group
around it is open. -/
def Reader.Holds (name : Text) (s : Reader) : Prop :=
  s.branches.Holds name ∨ ∃ g ∈ s.opened, g.name = some name ∨ g.outer.Holds name

variable {s s' final : Reader}

theorem Reader.Holds.push (hs : s.Holds name) (p : Piece) : (s.push p).Holds name :=
  hs.imp_left fun ⟨q, hq, hn⟩ => ⟨q, List.mem_cons_of_mem _ hq, hn⟩

theorem Reader.holds_push {p : Piece} (hp : name ∈ p.regex.groupNames) : (s.push p).Holds name :=
  .inl ⟨p, List.mem_cons_self, hp⟩

theorem Reader.holds_open (s : Reader) (name : Text) (modes : Modes) :
    (s.open (some name) modes).Holds name :=
  .inr ⟨_, List.mem_cons_self, .inl rfl⟩

theorem Reader.Holds.open (hs : s.Holds name) (other : Option Text) (modes : Modes) :
    (s.open other modes).Holds name := by
  rcases hs with hhere | ⟨g, hg, hn⟩
  · exact .inr ⟨_, List.mem_cons_self, .inr hhere⟩
  · exact .inr ⟨g, List.mem_cons_of_mem _ hg, hn⟩

theorem mem_groupNames_grouped {label : Option Text} {r : Regex} :
    name ∈ (grouped label r).groupNames ↔ label = some name ∨ name ∈ r.groupNames := by
  cases label with
  | none => simp [grouped]
  | some other => simp [grouped, groupNames, eq_comm]

theorem Reader.Holds.close (hs : s.Holds name) (h : s.close = some s') : s'.Holds name := by
  obtain ⟨g, opened, p, hopened, hp, rfl⟩ := Reader.close_eq_some h
  have hpiece : g.name = some name ∨ s.branches.Holds name → name ∈ p.regex.groupNames := by
    rw [hp, mem_groupNames_grouped, Branches.mem_groupNames_close]
    exact id
  rcases hs with hhere | ⟨g', hg', hn⟩
  · exact Reader.holds_push (hpiece (.inr hhere))
  · rw [hopened] at hg'
    rcases List.mem_cons.mp hg' with rfl | hg'
    · rcases hn with hname | houter
      · exact Reader.holds_push (hpiece (.inl hname))
      · exact Reader.Holds.push (s := ⟨g'.outer, opened, g'.modes, s.names⟩) (.inl houter) p
    · exact .inr ⟨g', hg', hn⟩

/-- No part loses a group. -/
theorem Reader.Holds.apply {part : Part} (hs : s.Holds name) (h : s.apply part = some s') :
    s'.Holds name := by
  cases part with
  | piece p =>
    obtain rfl := Option.some.inj h
    exact hs.push p
  | change modes =>
    obtain rfl := Option.some.inj h
    exact Reader.Holds.push (s := { s with modes := modes }) hs _
  | opening other modes =>
    cases other with
    | none =>
      obtain rfl := Option.some.inj h
      exact hs.open none modes
    | some other =>
      obtain ⟨-, rfl⟩ := Reader.apply_opening_eq_some h
      exact hs.open (some other) modes
  | closing => exact hs.close h
  | alternative =>
    obtain rfl := Option.some.inj h
    refine hs.imp_left fun hhere => ?_
    obtain ⟨p, hp, hn⟩ := hhere
    rcases List.mem_append.mp hp with hp | hp
    · exact ⟨_, List.mem_cons_self, (mem_groupNames_joinPieces fun _ _ => rfl).mpr ⟨p, hp, hn⟩⟩
    · exact ⟨p, List.mem_cons_of_mem _ hp, hn⟩
  | repetition least most greedy =>
    obtain ⟨p, pieces, hpieces, rfl⟩ := Reader.apply_repetition_eq_some h
    rcases hs with ⟨q, hq, hn⟩ | hopened
    · rw [hpieces, List.cons_append] at hq
      rcases List.mem_cons.mp hq with rfl | hq
      · exact Reader.holds_push hn
      · exact .inl ⟨q, List.mem_cons_of_mem _ hq, hn⟩
    · exact .inr hopened

theorem Reader.Holds.step {c : Char} {t rest : Text} (hs : s.Holds name)
    (h : s.step c t = some (s', rest)) :
    s'.Holds name := by
  obtain ⟨⟨part, rest'⟩, -, happly⟩ := Option.bind_eq_some_iff.mp h
  obtain ⟨s'', hs'', heq⟩ := Option.bind_eq_some_iff.mp happly
  obtain ⟨rfl, rfl⟩ := Prod.mk.inj (Option.some.inj heq)
  exact hs.apply hs''

theorem Reads.holds {t : Text} (h : Reads s t final) (hs : s.Holds name) : final.Holds name := by
  induction h using Reads.induct with
  | stop t h hskip => exact hs
  | step s t h c rest s' t' hskip hstep hrest ih => exact ih (hs.step hstep)

/-- With no group open, what is held stands in the expression. -/
theorem Reader.Holds.mem_groupNames (hs : s.Holds name) (hclosed : s.opened = []) :
    name ∈ s.branches.close.regex.groupNames := by
  refine Branches.mem_groupNames_close.mpr (hs.resolve_right ?_)
  rintro ⟨g, hg, -⟩
  rw [hclosed] at hg
  cases hg

/-- A named group that the reader takes up is a group of the expression, whatever follows. -/
theorem Reads.mem_groupNames {c t u : Text} (hname : '>' ∉ name)
    (hskip : s.modes.skip u = CompiledTemplate.namedGroup name c ++ t) (h : Reads s u final)
    (hclosed : final.opened = []) :
    name ∈ final.branches.close.regex.groupNames := by
  rw [namedGroup_append] at hskip
  obtain ⟨-, hopened⟩ := Reads.open_named hname hskip h
  exact (hopened.holds (s.holds_open name s.modes)).mem_groupNames hclosed

/-- Going through the pattern part after part, the reader comes to where only `rest` is left and
takes it up with a new part. -/
def ArrivesAt (ignoreCase : Bool) (pattern rest : Text) : Prop :=
  ∃ parts s u, Reader.advance
    { modes := { ignoreCase } } parts pattern = some (s, u) ∧ s.modes.skip u = rest

theorem arrivesAt_of_any {i : Bool} {pattern rest : Text} (parts : Nat)
    (h : ((Reader.advance { modes := { ignoreCase := i } } parts pattern).any fun p =>
      p.1.modes.skip p.2 == rest) = true) :
    ArrivesAt i pattern rest := by
  obtain ⟨⟨s, u⟩, hadvance, hskip⟩ := (Option.any_eq_true _ _).mp h
  exact ⟨parts, s, u, hadvance, eq_of_beq hskip⟩

theorem mem_groupNames_of_arrivesAt {i : Bool} {pattern c t : Text} {r : Regex} (hname : '>' ∉ name)
    (harrives : ArrivesAt i pattern (CompiledTemplate.namedGroup name c ++ t))
    (h : read? i pattern = some r) :
    name ∈ r.groupNames := by
  obtain ⟨parts, s, u, hadvance, hskip⟩ := harrives
  obtain ⟨final, hfinal, hclosed, rfl⟩ := reads_of_read? h
  exact (hfinal.advance hadvance).mem_groupNames hname hskip hclosed

end Signpost.Regex
