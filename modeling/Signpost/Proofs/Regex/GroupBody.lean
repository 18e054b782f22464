import Mathlib.Data.List.Forall2
import Signpost.Proofs.Regex.Row

/-!
The body of one named group of a pattern. When the pattern is read with another text in the group,
the same expression comes out with another body in the group: the text is one closed expression
there, whatever stands behind it. So what the group captures is a piece that its body matched. Main
statements: `Regex.withBody_of_read?` and `Regex.Way.body_of_capture`.
-/

namespace Signpost.Regex

/-- The expression with another body for the groups of a name. -/
def withBody (r : Regex) (name : Text) (body : Regex) : Regex :=
  match r with
  | empty => empty
  | set s => set s
  | look l => look l
  | cat r s => cat (r.withBody name body) (s.withBody name body)
  | alt r s => alt (r.withBody name body) (s.withBody name body)
  | repeated r least most greedy => repeated (r.withBody name body) least most greedy
  | group n r => group n (if n = name then body else r.withBody name body)

variable {name : Text} {body : Regex}

theorem withBody_of_not_mem {r : Regex} (h : name ∉ r.groupNames) : r.withBody name body = r := by
  induction r with
  | empty | set s | look l => rfl
  | cat r s ihr ihs | alt r s ihr ihs =>
    rw [withBody, ihr fun hr => h (List.mem_append_left _ hr), ihs fun hs =>
      h (List.mem_append_right _ hs)]
  | repeated r least most greedy ih => rw [withBody, ih h]
  | group n r ih =>
    have hn : n ≠ name := fun heq => h (heq ▸ List.mem_cons_self)
    rw [withBody, if_neg hn, ih fun hr => h (List.mem_cons_of_mem _ hr)]

/-- What the group of a name captures is a piece that its body matched. -/
theorem Way.body_of_capture {r : Regex} (hbody : r.withBody name body = r)
    (hfresh : name ∉ body.groupNames) {p : Place} {h : Hit} (hway : r.Way p h) {v : Text}
    (hv : (name, v) ∈ h.captures) :
    ∃ q k, body.Way q k ∧ q.Passes v k.place := by
  induction r generalizing p h with
  | empty =>
    obtain rfl : h = ⟨p, []⟩ := hway
    cases hv
  | set s =>
    obtain ⟨c, rest, -, -, rfl⟩ := hway
    cases hv
  | look l =>
    obtain ⟨-, rfl⟩ := hway
    cases hv
  | cat r s ihr ihs =>
    obtain ⟨hr, hs⟩ := cat.inj hbody
    obtain ⟨k, l, hk, hl, rfl⟩ := hway
    rcases List.mem_append.mp hv with hnext | hfirst
    · exact ihs hs hl hnext
    · exact ihr hr hk hfirst
  | alt r s ihr ihs =>
    obtain ⟨hr, hs⟩ := alt.inj hbody
    rcases hway with hway | hway
    · exact ihr hr hway hv
    · exact ihs hs hway hv
  | repeated r least most greedy ih =>
    have hr := (repeated.inj hbody).1
    obtain ⟨n, -, -, hturns⟩ := hway
    induction n generalizing p h with
    | zero =>
      obtain rfl : h = ⟨p, []⟩ := hturns
      cases hv
    | succ n ihn =>
      obtain ⟨k, l, hk, hl, rfl⟩ := hturns
      rcases List.mem_append.mp hv with hnext | hfirst
      · exact ihn hnext hl
      · exact ih hr hk hfirst
  | group n r ih =>
    obtain ⟨-, hr⟩ := group.inj hbody
    obtain ⟨k, hk, rfl⟩ := hway
    split_ifs at hr with hn
    · subst hr
      rcases List.mem_cons.mp hv with heq | hinner
      · obtain ⟨w, hw⟩ := body.way_forward p k hk
        obtain rfl : v = w := (Prod.mk.inj heq).2.trans hw.between_eq
        exact ⟨p, k, hk, hw⟩
      · exact absurd (hk.name_mem _ hinner) hfresh
    · rcases List.mem_cons.mp hv with heq | hinner
      · exact absurd (Prod.mk.inj heq).1.symm hn
      · exact ih hr hk hinner

theorem withBody_joinPieces {step : Regex → Regex → Regex}
    (hstep : ∀ r s,
      (step r s).withBody name body = step (r.withBody name body) (s.withBody name body))
    {ps qs : List Piece} (h : qs.map (·.regex) = ps.map fun p => p.regex.withBody name body) :
    (joinPieces step qs).regex = (joinPieces step ps).regex.withBody name body := by
  have hrev : qs.reverse.map (·.regex) = (ps.reverse.map (·.regex)).map (·.withBody name body) := by
    rw [List.map_reverse, h, ← List.map_reverse, List.map_map]
    rfl
  rw [joinPieces_regex, joinPieces_regex, hrev]
  cases ps.reverse.map (·.regex) with
  | nil => rfl
  | cons r rs =>
    show ((rs.map (·.withBody name body)).foldl step (r.withBody name body)) =
      (rs.foldl step r).withBody name body
    induction rs generalizing r with
    | nil => rfl
    | cons s rs ih => rw [List.map_cons, List.foldl_cons, List.foldl_cons, ← hstep, ih]

/-- The second alternatives are the first with another body for the groups of a name. -/
structure Branches.Mirrors (name : Text) (body : Regex) (b b' : Branches) : Prop where
  pieces : b'.pieces.map (·.regex) = b.pieces.map fun p => p.regex.withBody name body
  done : b'.done.map (·.regex) = b.done.map fun p => p.regex.withBody name body

theorem Branches.Mirrors.join {b b' : Branches} (h : b.Mirrors name body b') :
    (joinPieces .cat b'.pieces :: b'.done).map (·.regex) =
      (joinPieces .cat b.pieces :: b.done).map fun p => p.regex.withBody name body := by
  rw [List.map_cons, List.map_cons, withBody_joinPieces (fun _ _ => rfl) h.pieces, h.done]

theorem Branches.Mirrors.close {b b' : Branches} (h : b.Mirrors name body b') :
    b'.close.regex = b.close.regex.withBody name body :=
  withBody_joinPieces (fun _ _ => rfl) h.join

theorem Branches.Mirrors.push {b b' : Branches} (h : b.Mirrors name body b') {p p' : Piece}
    (hp : p'.regex = p.regex.withBody name body) :
    Branches.Mirrors name body { b with pieces := p :: b.pieces }
        { b' with pieces := p' :: b'.pieces } :=
  ⟨by rw [List.map_cons, List.map_cons, hp, h.pieces], h.done⟩

/-- The second reader holds what the first does with another body for the groups of a name, and the
name is taken. -/
structure Reader.Mirrors (name : Text) (body : Regex) (s s' : Reader) : Prop where
  branches : s.branches.Mirrors name body s'.branches
  opened : List.Forall₂ (fun g g' : OpenGroup =>
    g.outer.Mirrors name body g'.outer ∧ g'.name = g.name ∧ g'.modes = g.modes ∧
      g.name ≠ some name) s.opened s'.opened
  modes : s'.modes = s.modes
  taken : name ∈ s.names

variable {s s' t t' : Reader}

theorem Reader.Mirrors.push (hm : s.Mirrors name body s') {p p' : Piece}
    (hp : p'.regex = p.regex.withBody name body) : (s.push p).Mirrors name body (s'.push p') :=
  ⟨hm.branches.push hp, hm.opened, hm.modes, hm.taken⟩

/-- One part takes such readers to such readers. -/
theorem Reader.Mirrors.apply (hm : s.Mirrors name body s') {part : Part}
    (hpart : ∀ p, part = .piece p → p.regex.groupNames = []) (h : s.apply part = some t)
    (h' : s'.apply part = some t') : t.Mirrors name body t' := by
  cases part with
  | piece p =>
    obtain rfl := Option.some.inj h
    obtain rfl := Option.some.inj h'
    exact hm.push (withBody_of_not_mem (by simp [hpart p rfl])).symm
  | change modes =>
    obtain rfl := Option.some.inj h
    obtain rfl := Option.some.inj h'
    have hchanged : Reader.Mirrors name body { s with modes := modes } { s' with modes := modes } :=
      ⟨hm.branches, hm.opened, rfl, hm.taken⟩
    exact hchanged.push rfl
  | opening n modes =>
    have hfresh : n ≠ some name ∧ t = s.open n modes ∧ t' = s'.open n modes := by
      cases n with
      | none => exact ⟨by simp, (Option.some.inj h).symm, (Option.some.inj h').symm⟩
      | some n =>
        obtain ⟨hn, rfl⟩ := Reader.apply_opening_eq_some h
        obtain ⟨-, rfl⟩ := Reader.apply_opening_eq_some h'
        exact ⟨fun heq => hn (Option.some.inj heq ▸ hm.taken), rfl, rfl⟩
    obtain ⟨hn, rfl, rfl⟩ := hfresh
    have htaken : name ∈ (s.open n modes).names := by
      cases n with
      | none => exact hm.taken
      | some n => exact List.mem_cons_of_mem _ hm.taken
    exact ⟨⟨rfl, rfl⟩, .cons ⟨hm.branches, rfl, hm.modes, hn⟩ hm.opened, rfl, htaken⟩
  | closing =>
    obtain ⟨branches, opened, modes, names⟩ := s
    obtain ⟨branches', opened', modes', names'⟩ := s'
    obtain ⟨hbranches, hopened, -, htaken⟩ := hm
    cases hopened with
    | nil => cases h
    | @cons g g' opened opened' hg hopened =>
      obtain rfl := Option.some.inj h
      obtain rfl := Option.some.inj h'
      obtain ⟨houter, hgname, hgmodes, hother⟩ := hg
      have hclose : branches'.close.regex = branches.close.regex.withBody name body :=
        hbranches.close
      have houtside : Reader.Mirrors name body ⟨g.outer, opened, g.modes, names⟩
          ⟨g'.outer, opened', g'.modes, names'⟩ :=
        ⟨houter, hopened, hgmodes, htaken⟩
      refine houtside.push ?_
      dsimp only
      rw [hgname, hclose]
      cases hn : g.name with
      | none => rfl
      | some n =>
        have hn' : n ≠ name := fun heq => hother (hn.trans (congrArg some heq))
        rw [withBody, if_neg hn']
  | alternative =>
    obtain rfl := Option.some.inj h
    obtain rfl := Option.some.inj h'
    exact ⟨⟨rfl, hm.branches.join⟩, hm.opened, hm.modes, hm.taken⟩
  | repetition least most greedy =>
    obtain ⟨p, pieces, hpieces, rfl⟩ := Reader.apply_repetition_eq_some h
    obtain ⟨p', pieces', hpieces', rfl⟩ := Reader.apply_repetition_eq_some h'
    have hsame := hm.branches.pieces
    rw [hpieces, hpieces'] at hsame
    obtain ⟨hp, hbehind⟩ := List.cons.inj hsame
    have hbefore : Reader.Mirrors name body { s with branches := ⟨s.branches.done, pieces⟩ }
        { s' with branches := ⟨s'.branches.done, pieces'⟩ } :=
      ⟨⟨hbehind, hm.branches.done⟩, hm.opened, hm.modes, hm.taken⟩
    have hp' : p'.regex = p.regex.withBody name body := hp
    exact hbefore.push (by rw [hm.modes, hp', withBody])

theorem Reader.Mirrors.step (hm : s.Mirrors name body s') {c : Char} {u v v' : Text}
    (h : s.step c u = some (t, v))
    (h' : s'.step c u = some (t', v')) : t.Mirrors name body t' ∧ v = v' := by
  obtain ⟨⟨part, rest⟩, hpart, happly⟩ := Option.bind_eq_some_iff.mp h
  obtain ⟨⟨part', rest'⟩, hpart', happly'⟩ := Option.bind_eq_some_iff.mp h'
  rw [hm.modes, hpart] at hpart'
  obtain ⟨rfl, rfl⟩ := Prod.mk.inj (Option.some.inj hpart')
  obtain ⟨s₁, hs₁, heq⟩ := Option.bind_eq_some_iff.mp happly
  obtain ⟨s₁', hs₁', heq'⟩ := Option.bind_eq_some_iff.mp happly'
  obtain ⟨rfl, rfl⟩ := Prod.mk.inj (Option.some.inj heq)
  obtain ⟨rfl, rfl⟩ := Prod.mk.inj (Option.some.inj heq')
  refine ⟨hm.apply (fun p hp => ?_) hs₁ hs₁', rfl⟩
  subst hp
  exact readPart_groupNames hpart

/-- Such readers stay such while they go through a text. -/
theorem Reads.mirrors {u : Text} (h : Reads s u t) (hm : s.Mirrors name body s')
    (h' : Reads s' u t') :
    t.Mirrors name body t' := by
  revert s'
  induction h using Reads.induct with
  | stop u h hskip =>
    intro s' hm h'
    obtain rfl := h'.eq_of_skip (hm.modes ▸ hskip)
    exact hm
  | step s u h c rest s₁ u₁ hskip hstep hrest ih =>
    intro s' hm h'
    obtain ⟨s₁', u₁', hstep', hrest'⟩ := h'.step (hm.modes ▸ hskip)
    obtain ⟨hm₁, rfl⟩ := hm.step hstep hstep'
    exact ih hm₁ hrest'

/-- The reader after so many parts of a text, and what it has not read yet. -/
def Reader.advance : Reader → (parts : Nat) → Text → Option (Reader × Text)
  | s, 0, u => some (s, u)
  | s, parts + 1, u =>
    match s.modes.skip u with
    | [] => none
    | c :: rest => do
      let (s, rest) ← s.step c rest
      s.advance parts rest

theorem Reader.advance_succ {parts : Nat} {u v : Text} (h : s.advance (parts + 1) u = some (t, v)) :
    ∃ c rest s₁ u₁, s.modes.skip u = c :: rest ∧ s.step c rest = some (s₁, u₁) ∧
      s₁.advance parts u₁ = some (t, v) := by
  rw [advance] at h
  split at h
  · cases h
  · next c rest hskip =>
    obtain ⟨⟨s₁, u₁⟩, hstep, hrest⟩ := Option.bind_eq_some_iff.mp h
    exact ⟨c, rest, s₁, u₁, hskip, hstep, hrest⟩

theorem Reads.advance {final : Reader} {parts : Nat} {u v : Text} (h : Reads s u final)
    (hadvance : s.advance parts u = some (t, v)) : Reads t v final := by
  induction parts generalizing s u with
  | zero =>
    obtain ⟨rfl, rfl⟩ := Prod.mk.inj (Option.some.inj hadvance)
    exact h
  | succ parts ih =>
    obtain ⟨c, rest, s₁, u₁, hskip, hstep, hadvance⟩ := Reader.advance_succ hadvance
    obtain ⟨s₂, u₂, hstep', hrest⟩ := h.step hskip
    obtain ⟨rfl, rfl⟩ := Prod.mk.inj (Option.some.inj (hstep.symm.trans hstep'))
    exact ih hrest hadvance

theorem Reader.Covered.advance {parts : Nat} {u v : Text} (hs : s.Covered)
    (hadvance : s.advance parts u = some (t, v)) : t.Covered := by
  induction parts generalizing s u with
  | zero =>
    obtain ⟨rfl, rfl⟩ := Prod.mk.inj (Option.some.inj hadvance)
    exact hs
  | succ parts ih =>
    obtain ⟨c, rest, s₁, u₁, -, hstep, hadvance⟩ := Reader.advance_succ hadvance
    exact ih (hs.step hstep) hadvance

/-- The text is a row of complete parts and leaves no mode switched on: whatever follows, a pattern
that starts with it is read up to a named group behind it. -/
def LeadsToGroup (before : Text) : Prop :=
  ∃ parts s,
    (∀ u, Reader.advance {} parts (before ++ "(?P<".toList ++ u) = some (s, "(?P<".toList ++ u)) ∧
    s.modes = {}

/-- Two readers that go through a named group, with two texts in it, and through the same text
behind it. -/
theorem mirrors_of_group {c c' u : Text} {inner inner' final final' : Reader} (hs : s.Covered)
    (hm : s.modes = {}) (hname : '>' ∉ name) (hc : Nests false c inner)
    (hc' : Nests false c' inner') (h : Reads s (CompiledTemplate.namedGroup name c ++ u) final)
    (h' : Reads s (CompiledTemplate.namedGroup name c' ++ u) final') :
    final.Mirrors name inner'.branches.close.regex final' ∧
      name ∉ inner.branches.close.regex.groupNames := by
  obtain ⟨hfresh, hinner, p, hp, h₁⟩ := Reads.namedGroup hm hname hc h
  obtain ⟨-, -, p', hp', h₁'⟩ := Reads.namedGroup hm hname hc' h'
  have hsame : ∀ b : Branches,
      b.NamedIn s.names → b.Mirrors name inner'.branches.close.regex b := by
    intro b hb
    have hpiece : ∀ q ∈ b.pieces ++ b.done,
        q.regex = q.regex.withBody name inner'.branches.close.regex :=
      fun q hq => (withBody_of_not_mem fun hmem => hfresh (hb q hq name hmem)).symm
    exact ⟨List.map_congr_left fun q hq => hpiece q (List.mem_append_left _ hq),
      List.map_congr_left fun q hq => hpiece q (List.mem_append_right _ hq)⟩
  have hopened : List.Forall₂ (fun g g' : OpenGroup =>
      g.outer.Mirrors name inner'.branches.close.regex g'.outer ∧
      g'.name = g.name ∧ g'.modes = g.modes ∧ g.name ≠ some name) s.opened s.opened := by
    refine List.forall₂_same.mpr fun g hg =>
      ⟨hsame g.outer (hs.opened g hg).1, rfl, rfl, fun hn => ?_⟩
    exact hfresh ((hs.opened g hg).2 name hn)
  have hbehind : Reader.Mirrors name inner'.branches.close.regex
      { s with names := inner.names ++ name :: s.names }
      { s with names := inner'.names ++ name :: s.names } :=
    ⟨hsame s.branches hs.here, hopened, rfl, List.mem_append_right _ List.mem_cons_self⟩
  have hpiece : p'.regex = p.regex.withBody name inner'.branches.close.regex := by
    rw [hp, hp', withBody, if_pos rfl]
  exact ⟨h₁.mirrors (hbehind.push hpiece) h₁',
    fun hmem => hinner name (hc.covered.here.close name hmem) List.mem_cons_self⟩

/-- A pattern with one named group and the same pattern with another text in the group: the second
is the first with another body in the group. -/
theorem withBody_of_read? {before c c' behind : Text} {inner inner' : Reader} {r r' : Regex}
    (hbefore : LeadsToGroup before) (hname : '>' ∉ name) (hc : Nests false c inner)
    (hc' : Nests false c' inner')
    (h : read? false (before ++ CompiledTemplate.namedGroup name c ++ behind) = some r)
    (h' : read? false (before ++ CompiledTemplate.namedGroup name c' ++ behind) = some r') :
    r' = r.withBody name inner'.branches.close.regex ∧
      name ∉ inner.branches.close.regex.groupNames := by
  obtain ⟨parts, s, hadvances, hm⟩ := hbefore
  have hreads : ∀ {c r},
      read? false (before ++ CompiledTemplate.namedGroup name c ++ behind) = some r →
      s.Covered ∧ ∃ final, Reads s (CompiledTemplate.namedGroup name c ++ behind) final ∧
        final.branches.close.regex = r := by
    intro c r h
    obtain ⟨final, hfinal, -, hregex⟩ := reads_of_read? h
    have hadvance := hadvances (name ++ '>' :: (c ++ ')' :: behind))
    rw [List.append_assoc, ← namedGroup_append, ← List.append_assoc] at hadvance
    exact ⟨(Reader.covered_start {}).advance hadvance, final, hfinal.advance hadvance, hregex⟩
  obtain ⟨hs, final, hfinal, rfl⟩ := hreads h
  obtain ⟨-, final', hfinal', rfl⟩ := hreads h'
  obtain ⟨hmirrors, hfresh⟩ := mirrors_of_group hs hm hname hc hc' hfinal hfinal'
  exact ⟨hmirrors.branches.close, hfresh⟩

end Signpost.Regex
