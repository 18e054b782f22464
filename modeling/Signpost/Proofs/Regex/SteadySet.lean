import Signpost.Proofs.Regex.SteadyEscape

/-!
Sets between brackets in front of further text. A set ends with its bracket, so reading one never
looks behind it, and what is read before that is never the last of a text. Main statement:
`Regex.readBracket_append`.
-/

namespace Signpost.Regex

variable {m : Modes}

theorem readNegation_append {t : Text} (u : Text) (h : (readNegation m t).2 ≠ []) :
    readNegation m (t ++ u) = ((readNegation m t).1, (readNegation m t).2 ++ u) := by
  cases hskip : m.skip t with
  | nil => simp [readNegation, hskip] at h
  | cons c rest =>
    by_cases hc : c = '^'
    · subst hc
      simp only [readNegation, hskip] at h
      simp only [readNegation, hskip, Modes.skip_append_of_cons u hskip,
        Modes.skip_append_of_ne_nil u h]
    · simp [readNegation, hskip, Modes.skip_append_of_cons u hskip, hc]

theorem readNegation_length (m : Modes) (t : Text) : (readNegation m t).2.length ≤ t.length := by
  have hle := m.skip_length t
  cases hskip : m.skip t with
  | nil => simp [readNegation, hskip]
  | cons c rest =>
    rw [hskip, List.length_cons] at hle
    by_cases hc : c = '^'
    · subst hc
      have hle' := m.skip_length rest
      simp only [readNegation, hskip]
      omega
    · simpa [readNegation, hskip, hc] using hle

theorem readFirstItems_append {t : Text} (u : Text) (h : (readFirstItems m t).2 ≠ []) :
    readFirstItems m (t ++ u) = ((readFirstItems m t).1, (readFirstItems m t).2 ++ u) := by
  have hbehind : (m.readWhile (· == '-') t).2 ≠ [] := by
    intro hnil
    unfold readFirstItems at h
    split at h
    · next heq => simp [heq] at hnil
    · next heq => exact h (by rw [← hnil, heq])
  have happend := Modes.readWhile_append u hbehind
  unfold readFirstItems at h ⊢
  rw [happend]
  split at h
  · next rest heq =>
    simp only [heq, List.cons_append, Modes.skip_append_of_ne_nil u h]
  · next hyphens rest hother heq =>
    rw [heq] at hbehind ⊢
    split
    · next rest' heq' =>
      obtain ⟨rfl, hrest⟩ := Prod.mk.inj heq'
      obtain ⟨c, rest, rfl⟩ := List.exists_cons_of_ne_nil hbehind
      obtain ⟨rfl, -⟩ := List.cons_eq_cons.mp hrest
      exact absurd rfl (hother rest rfl)
    · next heq' =>
      obtain ⟨rfl, rfl⟩ := Prod.mk.inj heq'
      rfl

theorem readFirstItems_length (m : Modes) (t : Text) :
    (readFirstItems m t).2.length ≤ t.length := by
  have hle := m.readWhile_length (· == '-') t
  unfold readFirstItems
  split
  · next rest heq =>
    have hle' := m.skip_length rest
    rw [heq, List.length_cons] at hle
    dsimp only
    omega
  · next heq =>
    rw [heq] at hle
    exact hle

theorem readSetStart_append {t : Text} (u : Text) (h : (readSetStart m t).2.2 ≠ []) :
    readSetStart m (t ++ u) = ((readSetStart m t).1, (readSetStart m t).2.1,
      (readSetStart m t).2.2 ++ u) := by
  have hsign : (readNegation m t).2 ≠ [] := by
    intro hnil
    refine h ?_
    simp [readSetStart, hnil, readFirstItems, Modes.readWhile]
  unfold readSetStart at h ⊢
  rw [readNegation_append u hsign]
  exact congrArg (Prod.mk _) (readFirstItems_append u h)

theorem readSetStart_length (m : Modes) (t : Text) : (readSetStart m t).2.2.length ≤ t.length :=
  Nat.le_trans (readFirstItems_length m _) (readNegation_length m t)

theorem readSetAtom_append {t rest : Text} {a : Atom} (h : readSetAtom m t = some (a, rest))
    (hrest : rest ≠ []) (u : Text) :
    readSetAtom m (t ++ ')' :: u) = some (a, rest ++ ')' :: u) := by
  cases t with
  | nil => simp [readSetAtom] at h
  | cons c t =>
    by_cases hc : c = '\\'
    · subst hc
      exact (readEscape_steady t).append h hrest u
    · have hplain : ∀ t, readSetAtom m (c :: t) = some (.literal c false, t) := by
        intro t
        unfold readSetAtom
        split
        · next heq => simp at heq
        · next heq => exact absurd (List.cons_eq_cons.mp heq).1 hc
        · next heq => rw [(List.cons_eq_cons.mp heq).1, (List.cons_eq_cons.mp heq).2]
      rw [hplain] at h
      obtain ⟨rfl, rfl⟩ := Prod.mk.inj (Option.some.inj h)
      rw [List.cons_append, hplain]

theorem readSetAtom_length {t rest : Text} {a : Atom} (h : readSetAtom m t = some (a, rest)) :
    rest.length < t.length := by
  cases t with
  | nil => simp [readSetAtom] at h
  | cons c t =>
    unfold readSetAtom at h
    split at h
    · next heq => simp at heq
    · next heq =>
      obtain ⟨rfl, rfl⟩ := List.cons_eq_cons.mp heq
      exact Nat.lt_succ_of_le (readEscape_steady _ a rest h).1
    · next heq =>
      obtain ⟨rfl, rfl⟩ := List.cons_eq_cons.mp heq
      obtain ⟨-, rfl⟩ := Prod.mk.inj (Option.some.inj h)
      exact Nat.lt_succ_self _

theorem peekAfter_append {t : Text} (u : Text) (h : m.skip t ≠ []) :
    peekAfter m (t ++ u) = peekAfter m t := by
  obtain ⟨c, rest, hskip⟩ := List.exists_cons_of_ne_nil h
  have happend := Modes.skip_append_of_cons u hskip
  unfold peekAfter
  unfold Modes.skip at hskip happend
  split_ifs at hskip happend ⊢
  · rw [hskip, happend]
  · rw [hskip]
    rfl

theorem peekAfter_of_skip_nil {t : Text} (h : m.skip t = []) :
    peekAfter m t ≠ some ']' ∧ peekAfter m t ≠ some '-' := by
  unfold peekAfter
  unfold Modes.skip at h
  split_ifs at h ⊢
  · rw [h]
    cases t with
    | nil => simp
    | cons c rest =>
      have hblank : Text.isBlank ']' = false ∧ Text.isBlank '-' = false := by decide
      constructor
      · intro hc
        obtain rfl : c = ']' := Option.some.inj hc
        simp [skipComments, hblank.1] at h
      · intro hc
        obtain rfl : c = '-' := Option.some.inj hc
        simp [skipComments, hblank.2] at h
  · simp [h]

theorem readSetItem_append {t rest : Text} {s : CharSet} (h : readSetItem m t = some (s, rest))
    (hrest : rest ≠ []) (u : Text) :
    readSetItem m (t ++ ')' :: u) = some (s, rest ++ ')' :: u) := by
  obtain ⟨⟨first, behind⟩, hfirst, hnext⟩ := Option.bind_eq_some_iff.mp h
  have hskip : m.skip behind ≠ [] := by
    intro hnil
    simp [hnil] at hnext
  have hfirst' := readSetAtom_append hfirst (Modes.ne_nil_of_skip hskip) u
  dsimp only at hnext
  unfold readSetItem
  rw [hfirst']
  simp only [Option.bind_eq_bind, Option.bind_some]
  rw [Modes.skip_append_of_ne_nil _ hskip]
  split at hnext
  · simp at hnext
  · next afterHyphen hhyphen =>
    rw [hhyphen]
    have hafter : m.skip afterHyphen ≠ [] := by
      intro hnil
      have hpeek := peekAfter_of_skip_nil hnil
      simp [hpeek, hnil] at hnext
    obtain ⟨c, r, hcr⟩ := List.exists_cons_of_ne_nil hafter
    simp only [List.cons_append, peekAfter_append _ hafter,
      Modes.skip_append_of_ne_nil _ hafter, hcr]
      at hnext ⊢
    split_ifs at hnext ⊢ with hpeek
    · obtain ⟨s', hs', heq⟩ := Option.bind_eq_some_iff.mp hnext
      obtain ⟨rfl, rfl⟩ := Prod.mk.inj (Option.some.inj heq)
      simp [hs']
    · obtain ⟨⟨last, behind'⟩, hlast, hinterval⟩ := Option.bind_eq_some_iff.mp hnext
      dsimp only at hinterval
      split at hinterval
      · next a asByte b asByte' =>
        split_ifs at hinterval with hbounds
        obtain ⟨rfl, rfl⟩ := Prod.mk.inj (Option.some.inj hinterval)
        have hlast' := readSetAtom_append hlast hrest u
        rw [List.cons_append] at hlast'
        simp [hlast', hbounds]
      · simp at hinterval
  · next hother =>
    obtain ⟨c, r, hcr⟩ := List.exists_cons_of_ne_nil hskip
    have hc : c ≠ '-' := fun heq => hother r (by rw [hcr, heq])
    obtain ⟨s', hs', heq⟩ := Option.bind_eq_some_iff.mp hnext
    obtain ⟨rfl, rfl⟩ := Prod.mk.inj (Option.some.inj heq)
    simp [hcr, hc, hs']

theorem readSetItem_length {t rest : Text} {s : CharSet} (h : readSetItem m t = some (s, rest)) :
    rest.length < t.length := by
  obtain ⟨⟨first, behind⟩, hfirst, hnext⟩ := Option.bind_eq_some_iff.mp h
  have hle := readSetAtom_length hfirst
  have hle' := m.skip_length behind
  dsimp only at hnext
  split at hnext
  · simp at hnext
  · next afterHyphen hhyphen =>
    rw [hhyphen, List.length_cons] at hle'
    split_ifs at hnext
    · obtain ⟨s', hs', heq⟩ := Option.bind_eq_some_iff.mp hnext
      obtain ⟨rfl, rfl⟩ := Prod.mk.inj (Option.some.inj heq)
      simp only [List.length_cons]
      omega
    · have hle'' := m.skip_length afterHyphen
      split at hnext
      · simp at hnext
      · obtain ⟨⟨last, behind'⟩, hlast, hinterval⟩ := Option.bind_eq_some_iff.mp hnext
        have hlt := readSetAtom_length hlast
        dsimp only at hinterval
        split at hinterval
        · split_ifs at hinterval
          obtain ⟨rfl, rfl⟩ := Prod.mk.inj (Option.some.inj hinterval)
          omega
        · simp at hinterval
  · obtain ⟨s', hs', heq⟩ := Option.bind_eq_some_iff.mp hnext
    obtain ⟨rfl, rfl⟩ := Prod.mk.inj (Option.some.inj heq)
    omega

/-- No ASCII class has a parenthesis in its name. -/
theorem asciiClass?_name {name : Text} {s : CharSet}
    (h : asciiClass? (String.ofList name) = some s) :
    ')' ∉ name := by
  have hname : name = (String.ofList name).toList := String.toList_ofList.symm
  rw [hname]
  unfold asciiClass? at h
  split at h
  case h_15 => simp at h
  all_goals
    next heq =>
      rw [heq]
      decide

theorem readCaret_append (t u : Text) :
    readCaret (t ++ ')' :: u) = ((readCaret t).1, (readCaret t).2 ++ ')' :: u) := by
  cases t with
  | nil => rfl
  | cons c t =>
    by_cases hc : c = '^'
    · subst hc
      rfl
    · simp [readCaret, hc]

theorem readCaret_length (t : Text) : (readCaret t).2.length ≤ t.length := by
  unfold readCaret
  split
  · exact Nat.le_succ _
  · exact Nat.le_refl _

theorem readAsciiClass_steady (t : Text) : Steady (readAsciiClass m) t := by
  refine Steady.of_append fun x rest hread => ?_
  unfold readAsciiClass at hread
  split at hread
  · next t =>
    dsimp only at hread
    split at hread
    · next name behind hcut =>
      obtain ⟨s, hs, heq⟩ := Option.map_eq_some_iff.mp hread
      obtain ⟨rfl, rfl⟩ := Prod.mk.inj heq
      have hlt := Text.length_cutFirst hcut
      have hle := readCaret_length t
      simp only [List.length_cons] at hlt
      refine ⟨by simp only [List.length_cons]; omega, fun u => ?_⟩
      simp only [List.cons_append, readAsciiClass, readCaret_append,
        Text.cutFirst_append _ hcut, hs, Option.map_some]
    · simp at hread
  · simp at hread

/-- What is no named class does not become one when more text follows. -/
theorem readAsciiClass_append_none {t : Text} (h : readAsciiClass m t = none) (u : Text) :
    readAsciiClass m (t ++ ')' :: u) = none := by
  rw [Option.eq_none_iff_forall_not_mem]
  rintro ⟨x, rest⟩ hread
  cases t with
  | nil => simp [readAsciiClass] at hread
  | cons c t =>
    by_cases hc : c = ':'
    · subst hc
      simp only [List.cons_append, readAsciiClass, readCaret_append] at h hread
      cases hcut : Text.cutFirst ':' (readCaret t).2 with
      | none =>
        split at hread
        · next name behind hcut' =>
          obtain ⟨s, hs, -⟩ := Option.map_eq_some_iff.mp hread
          obtain ⟨more, rfl, hmore⟩ := Text.cutFirst_append_of_none hcut hcut'
          have hparen : ')' ∈ more := by
            obtain ⟨p, -, heq⟩ := Option.map_eq_some_iff.mp hmore
            obtain ⟨rfl, -⟩ := Prod.mk.inj heq
            exact List.mem_cons_self
          exact absurd (List.mem_append_right _ hparen) (asciiClass?_name hs)
        · simp at hread
      | some p =>
        obtain ⟨name, behind⟩ := p
        rw [hcut] at h
        rw [Text.cutFirst_append _ hcut] at hread
        cases behind with
        | nil => simp at hread
        | cons d behind =>
          by_cases hd : d = ']'
          · subst hd
            simp only [Option.map_eq_none_iff] at h
            simp [h] at hread
          · simp [hd] at hread
    · simp [readAsciiClass, hc] at hread

/-- No bracket and no operator stands in front of a text. -/
structure NoMark (t : Text) : Prop where
  opening : ∀ rest, t ≠ '[' :: rest
  closing : ∀ rest, t ≠ ']' :: rest
  operator : ∀ c rest, c ∈ ['&', '-', '~'] → t ≠ c :: c :: rest

theorem NoMark.append {t : Text} (h : NoMark t) (hlength : 2 ≤ t.length) (u : Text) :
    NoMark (t ++ u) := by
  obtain ⟨c, d, t, rfl⟩ : ∃ c d rest, t = c :: d :: rest := by
    rcases t with - | ⟨c, - | ⟨d, t⟩⟩
    · simp at hlength
    · simp at hlength
    · exact ⟨c, d, t, rfl⟩
  constructor
  · intro rest heq
    obtain ⟨rfl, -⟩ := List.cons_eq_cons.mp heq
    exact h.opening _ rfl
  · intro rest heq
    obtain ⟨rfl, -⟩ := List.cons_eq_cons.mp heq
    exact h.closing _ rfl
  · intro c' rest hc' heq
    obtain ⟨rfl, htail⟩ := List.cons_eq_cons.mp heq
    obtain ⟨rfl, -⟩ := List.cons_eq_cons.mp htail
    exact h.operator _ _ hc' rfl

theorem readSetPart_of_noMark {t : Text} (h : NoMark (m.skip t)) :
    readSetPart m t = (readSetItem m (m.skip t)).map fun p => (.item p.1, p.2) := by
  unfold readSetPart
  split
  case h_1 heq => simp [heq, readSetItem, readSetAtom]
  case h_2 heq => exact absurd heq (h.opening _)
  case h_3 heq => exact absurd heq (h.closing _)
  case h_4 heq | h_5 heq | h_6 heq => exact absurd heq (h.operator _ _ (by decide))
  case h_7 => rfl

/-- The part of a set at the front of a text is the same when more text follows, unless nothing but
it is left. -/
theorem readSetPart_append {t rest : Text} {part : SetPart}
    (h : readSetPart m t = some (part, rest)) (hrest : rest ≠ [] ∨ part = .closing) (u : Text) :
    readSetPart m (t ++ ')' :: u) = some (part, rest ++ ')' :: u) := by
  have hskip : m.skip t ≠ [] := by
    intro hnil
    simp [readSetPart, hnil] at h
  have hskip' := Modes.skip_append_of_ne_nil (')' :: u) hskip
  unfold readSetPart at h
  split at h
  case h_1 => simp at h
  case h_2 rest' heq =>
    unfold readSetPart
    rw [hskip', heq]
    simp only [List.cons_append]
    cases hclass : readAsciiClass m rest' with
    | none =>
      rcases hstart : readSetStart m rest' with ⟨negated, items, behind⟩
      rw [hclass, hstart] at h
      obtain ⟨rfl, rfl⟩ := Prod.mk.inj (Option.some.inj h)
      have hbehind : (readSetStart m rest').2.2 ≠ [] := by
        rw [hstart]
        exact hrest.resolve_right (by simp)
      rw [readAsciiClass_append_none hclass, readSetStart_append _ hbehind, hstart]
    | some p =>
      obtain ⟨s, behind⟩ := p
      rw [hclass] at h
      obtain ⟨s', hs', heq'⟩ := Option.map_eq_some_iff.mp h
      obtain ⟨rfl, rfl⟩ := Prod.mk.inj heq'
      rw [(readAsciiClass_steady rest').append hclass (hrest.resolve_right (by simp)) u, hs']
      rfl
  case h_3 heq | h_4 heq | h_5 heq | h_6 heq =>
    obtain ⟨rfl, rfl⟩ := Prod.mk.inj (Option.some.inj h)
    unfold readSetPart
    rw [hskip', heq]
    rfl
  case h_7 hopen hclose hinter hdiff hsymm =>
    obtain ⟨⟨s, behind⟩, hitem, heq⟩ := Option.map_eq_some_iff.mp h
    obtain ⟨rfl, rfl⟩ := Prod.mk.inj heq
    have hbehind := hrest.resolve_right (by simp)
    have hmark : NoMark (m.skip t) := by
      refine ⟨hopen, hclose, fun c rest hc => ?_⟩
      simp only [List.mem_cons, List.not_mem_nil, or_false] at hc
      rcases hc with rfl | rfl | rfl
      · exact hinter rest
      · exact hdiff rest
      · exact hsymm rest
    -- An item and what is left of it are two characters at least, so both show which part this is.
    have hlength : 2 ≤ (m.skip t).length := by
      have hlt := readSetItem_length hitem
      have hpos := List.length_pos_iff.mpr hbehind
      omega
    have hmark' : NoMark (m.skip (t ++ ')' :: u)) := by
      rw [hskip']
      exact hmark.append hlength _
    rw [readSetPart_of_noMark hmark', hskip', readSetItem_append hitem hbehind u]
    rfl

theorem readSetPart_length {t rest : Text} {part : SetPart}
    (h : readSetPart m t = some (part, rest)) :
    rest.length ≤ t.length := by
  have hskip := m.skip_length t
  refine Nat.le_trans ?_ hskip
  unfold readSetPart at h
  split at h
  case h_1 => simp at h
  case h_2 rest' heq =>
    cases hclass : readAsciiClass m rest' with
    | none =>
      rw [hclass] at h
      obtain ⟨-, rfl⟩ := Prod.mk.inj (Option.some.inj h)
      have hle := readSetStart_length m rest'
      rw [heq]
      exact Nat.le_succ_of_le hle
    | some p =>
      rw [hclass] at h
      obtain ⟨s, hs, heq'⟩ := Option.map_eq_some_iff.mp h
      obtain ⟨-, rfl⟩ := Prod.mk.inj heq'
      have hle := (readAsciiClass_steady rest' p.1 p.2 hclass).1
      rw [heq]
      exact Nat.le_succ_of_le hle
  case h_3 heq =>
    obtain ⟨-, rfl⟩ := Prod.mk.inj (Option.some.inj h)
    simp [heq]
  case h_4 heq | h_5 heq | h_6 heq =>
    obtain ⟨-, rfl⟩ := Prod.mk.inj (Option.some.inj h)
    simp [heq]
    omega
  case h_7 =>
    obtain ⟨p, hitem, heq⟩ := Option.map_eq_some_iff.mp h
    obtain ⟨-, rfl⟩ := Prod.mk.inj heq
    exact Nat.le_of_lt (readSetItem_length hitem)

theorem SetPart.eq_closing_of_finished {part : SetPart} {opened : List OpenSet} {items : SetItems}
    {s : CharSet} {depth : Nat} (h : part.next m opened items = some (.finished s depth)) :
    part = .closing := by
  cases part with
  | closing => rfl
  | opening negated inner => simp [SetPart.next] at h
  | operator op => simp [SetPart.next] at h
  | item s => simp [SetPart.next] at h

theorem readSet_append {fuel fuel' : Nat} {opened : List OpenSet} {items : SetItems} {t rest : Text}
    {s : CharSet} {depth : Nat} (hfuel : fuel ≤ fuel')
    (h : readSet m fuel opened items t = some (s, depth, rest)) :
    t ≠ [] ∧ rest.length ≤ t.length ∧
      ∀ u, readSet m fuel' opened items (t ++ ')' :: u) = some (s, depth, rest ++ ')' :: u) := by
  induction fuel generalizing fuel' opened items t with
  | zero => simp [readSet] at h
  | succ fuel ih =>
    obtain ⟨fuel', rfl⟩ : ∃ n, fuel' = n + 1 := Nat.exists_eq_succ_of_ne_zero (by omega)
    obtain ⟨⟨part, behind⟩, hpart, hstate⟩ := Option.bind_eq_some_iff.mp h
    obtain ⟨state, hnext, hrest⟩ := Option.bind_eq_some_iff.mp hstate
    have hle := readSetPart_length hpart
    have ht : t ≠ [] := by
      rintro rfl
      simp [readSetPart] at hpart
    refine ⟨ht, ?_⟩
    cases state with
    | within opened' items' =>
      obtain ⟨hne, hle', hset⟩ := ih (Nat.le_of_succ_le_succ hfuel) hrest
      refine ⟨Nat.le_trans hle' hle, fun u => ?_⟩
      simp only [readSet, readSetPart_append hpart (.inl hne) u]
      simpa [hnext] using hset u
    | finished s' depth' =>
      have hclosing := SetPart.eq_closing_of_finished hnext
      obtain ⟨rfl, rfl, rfl⟩ : s' = s ∧ depth' = depth ∧ behind = rest := by simpa using hrest
      refine ⟨hle, fun u => ?_⟩
      simp only [readSet, readSetPart_append hpart (.inr hclosing) u]
      simp [hnext]

theorem readBracket_append {t rest : Text} {s : CharSet} {depth : Nat}
    (h : readBracket m t = some (s, depth, rest)) :
    rest.length ≤ t.length ∧
      ∀ u, readBracket m (t ++ ')' :: u) = some (s, depth, rest ++ ')' :: u) := by
  obtain ⟨hne, hle, -⟩ := readSet_append (Nat.le_refl _) h
  refine ⟨Nat.le_trans hle (readSetStart_length m t), fun u => ?_⟩
  have hfuel : t.length + 1 ≤ (t ++ ')' :: u).length + 1 := by simp
  unfold readBracket
  rw [readSetStart_append _ hne]
  exact (readSet_append hfuel h).2.2 u

end Signpost.Regex
