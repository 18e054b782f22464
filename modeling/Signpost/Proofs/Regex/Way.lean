import Signpost.Regex.Basic

/-!
What it is for an expression to match, without an order of preference. `Regex.Way r p h` says that
`h` is one way to match `r` from the place `p`; a repetition takes any number of turns within its
bounds. The matcher lists ways and nothing else, and to every place that a way leads to it lists
one. So what matches, and what a group can have taken, is read off the ways, whatever the matcher
tries first and whatever it does not try twice.
-/

namespace Signpost

/-- The place `q` is reached from `p` by passing over the text `v`. -/
structure Place.Passes (p : Place) (v : Text) (q : Place) : Prop where
  rest : p.rest = v ++ q.rest
  index : q.index = p.index + v.length
  last : q.last = v.getLast?.or p.last

namespace Place

theorem Passes.refl (p : Place) : p.Passes [] p :=
  ⟨rfl, rfl, rfl⟩

theorem Passes.trans {p q r : Place} {v w : Text} (hv : p.Passes v q) (hw : q.Passes w r) :
    p.Passes (v ++ w) r := by
  constructor
  · rw [hv.rest, hw.rest, List.append_assoc]
  · rw [hw.index, hv.index, List.length_append, Nat.add_assoc]
  · rw [hw.last, hv.last, List.getLast?_append, Option.or_assoc]

theorem exists_passes_trans {p q r : Place} (hq : ∃ v, p.Passes v q) (hr : ∃ w, q.Passes w r) :
    ∃ u, p.Passes u r := by
  obtain ⟨v, hv⟩ := hq
  obtain ⟨w, hw⟩ := hr
  exact ⟨v ++ w, hv.trans hw⟩

/-- A place is determined by where it was reached from and how far it lies. -/
theorem Passes.unique {p q r : Place} {v w : Text} (hv : p.Passes v q) (hw : p.Passes w r)
    (hindex : q.index = r.index) : v = w ∧ q = r := by
  have hlength : v.length = w.length := by
    have h₁ := hv.index
    have h₂ := hw.index
    omega
  obtain ⟨hvw, hrest⟩ := List.append_inj (hv.rest.symm.trans hw.rest) hlength
  subst hvw
  have hlast : q.last = r.last := hv.last.trans hw.last.symm
  refine ⟨rfl, ?_⟩
  cases q
  cases r
  simp_all

theorem Passes.between_eq {p q : Place} {v : Text} (h : p.Passes v q) : Regex.between p q = v := by
  unfold Regex.between
  rw [h.rest, h.index, Nat.add_sub_cancel_left, List.take_left]

end Place

namespace Hit

theorem extend_assoc (h k l : Hit) : (h.extend k).extend l = h.extend (k.extend l) := by
  simp [extend, List.append_assoc]

@[simp] theorem start_extend (p : Place) (h : Hit) : (⟨p, []⟩ : Hit).extend h = h := by
  simp [extend]

@[simp] theorem extend_stay (h : Hit) : h.extend ⟨h.place, []⟩ = h := rfl

/-- One way after another, `n` times in a row. -/
def Turns (way : Place → Hit → Prop) : Nat → Place → Hit → Prop
  | 0, p, h => h = ⟨p, []⟩
  | n + 1, p, h => ∃ k l, way p k ∧ Turns way n k.place l ∧ h = k.extend l

theorem Turns.trans {way : Place → Hit → Prop} {m n : Nat} {p : Place} {k l : Hit}
    (hk : Turns way m p k) (hl : Turns way n k.place l) : Turns way (m + n) p (k.extend l) := by
  induction m generalizing p k with
  | zero =>
    obtain rfl : k = ⟨p, []⟩ := hk
    rw [Nat.zero_add, start_extend]
    exact hl
  | succ m ih =>
    obtain ⟨a, b, ha, hb, rfl⟩ := hk
    rw [Nat.add_right_comm]
    exact ⟨a, b.extend l, ha, ih hb hl, extend_assoc a b l⟩

theorem Turns.split {way : Place → Hit → Prop} {m n : Nat} {p : Place} {h : Hit}
    (hh : Turns way (m + n) p h) :
    ∃ k l, Turns way m p k ∧ Turns way n k.place l ∧ h = k.extend l := by
  induction m generalizing p h with
  | zero =>
    rw [Nat.zero_add] at hh
    exact ⟨⟨p, []⟩, h, rfl, hh, (start_extend p h).symm⟩
  | succ m ih =>
    rw [Nat.add_right_comm] at hh
    obtain ⟨a, b, ha, hb, rfl⟩ := hh
    obtain ⟨k, l, hk, hl, rfl⟩ := ih hb
    exact ⟨a.extend k, l, ⟨a, k, ha, hk, rfl⟩, hl, (extend_assoc a k l).symm⟩

end Hit

namespace Regex

/-- The hit is one way to match the expression from a place. -/
def Way : Regex → Place → Hit → Prop
  | empty, p, h => h = ⟨p, []⟩
  | set s, p, h =>
    ∃ c rest, p.rest = c :: rest ∧ s.mem c = true ∧ h = ⟨⟨p.index + 1, some c, rest⟩, []⟩
  | look l, p, h => l.holds p = true ∧ h = ⟨p, []⟩
  | cat r s, p, h => ∃ k l, r.Way p k ∧ s.Way k.place l ∧ h = k.extend l
  | alt r s, p, h => r.Way p h ∨ s.Way p h
  | repeated r least most _, p, h =>
    ∃ n, least ≤ n ∧ (∀ m, most = some m → n ≤ max least m) ∧ Hit.Turns r.Way n p h
  | group name r, p, h => ∃ k, r.Way p k ∧ h = ⟨k.place, (name, between p k.place) :: k.captures⟩

end Regex

namespace Hit

/-- Every way goes forward over some text. -/
def Forward (way : Place → Hit → Prop) : Prop :=
  ∀ p h, way p h → ∃ v, p.Passes v h.place

theorem Forward.chain {way next : Place → Hit → Prop} (hf : Forward way) (hnext : Forward next) :
    Forward (fun p h => ∃ k l, way p k ∧ next k.place l ∧ h = k.extend l) := by
  rintro p _ ⟨k, l, hk, hl, rfl⟩
  exact Place.exists_passes_trans (hf p k hk) (hnext k.place l hl)

theorem Forward.turns {way : Place → Hit → Prop} (hf : Forward way) (n : Nat) :
    Forward (Turns way n) := by
  induction n with
  | zero =>
    rintro p _ rfl
    exact ⟨[], .refl p⟩
  | succ n ih => exact hf.chain ih

theorem Forward.someTurns {way : Place → Hit → Prop} (hf : Forward way) (allowed : Nat → Prop) :
    Forward (fun p h => ∃ n, allowed n ∧ Turns way n p h) := by
  rintro p h ⟨n, -, hturns⟩
  exact hf.turns n p h hturns

end Hit

theorem Regex.way_forward (r : Regex) : Hit.Forward r.Way := by
  induction r with
  | empty =>
    rintro p _ rfl
    exact ⟨[], .refl p⟩
  | set s =>
    rintro p _ ⟨c, rest, hrest, -, rfl⟩
    exact ⟨[c], hrest, rfl, rfl⟩
  | look l =>
    rintro p _ ⟨-, rfl⟩
    exact ⟨[], .refl p⟩
  | cat r s ihr ihs => exact ihr.chain ihs
  | alt r s ihr ihs =>
    intro p h hway
    rcases hway with hr | hs
    · exact ihr p h hr
    · exact ihs p h hs
  | repeated r least most greedy ih =>
    rintro p h ⟨n, -, -, hturns⟩
    exact ih.turns n p h hturns
  | group name r ih =>
    rintro p _ ⟨k, hk, rfl⟩
    exact ih p k hk

end Signpost
