import Signpost.Proofs.Regex.Way

/-!
The matcher against the ways to match. It drops a hit when a better one lies at the same place, and
a loop does not run twice from one place; neither loses a place. Main statements:
`Regex.ends_lists`, that the hits of an expression are ways and reach every place that a way
reaches, and for expressions anchored at both ends `Regex.captures?_anchored` and
`Regex.isMatch_anchored_iff`.
-/

namespace Signpost

namespace Hit

/-- Every hit is reached from a place. -/
def From (p : Place) (hs : List Hit) : Prop :=
  ∀ h ∈ hs, ∃ v, p.Passes v h.place

/-- One of the hits lies at a place. -/
def Reaches (hs : List Hit) (q : Place) : Prop :=
  ∃ h ∈ hs, h.place = q

/-- A step of the matcher lists only ways, and reaches every place that a way leads to. -/
structure Lists (step : Place → List Hit) (way : Place → Hit → Prop) : Prop where
  sound : ∀ p h, h ∈ step p → way p h
  complete : ∀ p h, way p h → Reaches (step p) h.place

theorem from_singleton {p : Place} {h : Hit} (hh : ∃ v, p.Passes v h.place) : From p [h] := by
  intro k hk
  obtain rfl := List.mem_singleton.mp hk
  exact hh

theorem Reaches.mono {hs ks : List Hit} {q : Place} (h : Reaches hs q) (hsub : ∀ h ∈ hs, h ∈ ks) :
    Reaches ks q := by
  obtain ⟨k, hk, hq⟩ := h
  exact ⟨k, hsub k hk, hq⟩

theorem reaches_of_isAmong {p : Place} {hs : List Hit} {h : Hit} {v : Text} (hfrom : From p hs)
    (hv : p.Passes v h.place) (hamong : h.isAmong hs = true) : Reaches hs h.place := by
  obtain ⟨k, hk, hindex⟩ := List.any_eq_true.mp hamong
  obtain ⟨w, hw⟩ := hfrom k hk
  exact ⟨k, hk, (hw.unique hv (eq_of_beq hindex)).2⟩

theorem mem_merge {better worse : List Hit} {h : Hit} (hmem : h ∈ merge better worse) :
    h ∈ better ∨ h ∈ worse := by
  rcases List.mem_append.mp hmem with h₁ | h₂
  · exact .inl h₁
  · exact .inr (List.mem_filter.mp h₂).1

theorem merge_reaches_left {better : List Hit} (worse : List Hit) {q : Place}
    (h : Reaches better q) : Reaches (merge better worse) q :=
  h.mono fun _ hk => List.mem_append_left _ hk

theorem merge_reaches_right {p : Place} {better worse : List Hit} {q : Place}
    (hbetter : From p better) (hworse : From p worse) (h : Reaches worse q) :
    Reaches (merge better worse) q := by
  obtain ⟨k, hk, rfl⟩ := h
  by_cases hamong : k.isAmong better = true
  · obtain ⟨v, hv⟩ := hworse k hk
    exact merge_reaches_left worse (reaches_of_isAmong hbetter hv hamong)
  · exact ⟨k, List.mem_append_right _ (List.mem_filter.mpr ⟨hk, by simpa using hamong⟩), rfl⟩

theorem mem_chain {step : Place → List Hit} {hs : List Hit} {h : Hit} (hmem : h ∈ chain step hs) :
    ∃ k ∈ hs, ∃ l ∈ step k.place, h = k.extend l := by
  induction hs with
  | nil => simp [chain] at hmem
  | cons k ks ih =>
    rcases mem_merge hmem with here | later
    · obtain ⟨l, hl, rfl⟩ := List.mem_map.mp here
      exact ⟨k, List.mem_cons_self, l, hl, rfl⟩
    · obtain ⟨k', hk', l, hl, rfl⟩ := ih later
      exact ⟨k', List.mem_cons_of_mem _ hk', l, hl, rfl⟩

section Steps

variable {step : Place → List Hit} {way : Place → Hit → Prop} {p : Place} {hs : List Hit}

theorem Lists.from (hl : Lists step way) (hf : Forward way) (p : Place) : From p (step p) :=
  fun h hmem => hf p h (hl.sound p h hmem)

theorem Lists.congr {way' : Place → Hit → Prop} (hl : Lists step way)
    (hway : ∀ p h, way p h ↔ way' p h) : Lists step way' :=
  ⟨fun p h hmem => (hway p h).mp (hl.sound p h hmem),
    fun p h hh => hl.complete p h ((hway p h).mpr hh)⟩

theorem stay_lists (way : Place → Hit → Prop) : Lists (fun p => [⟨p, []⟩]) (Turns way 0) := by
  constructor
  · intro p h hmem
    exact List.mem_singleton.mp hmem
  · rintro p _ rfl
    exact ⟨_, List.mem_cons_self, rfl⟩

section Merge

variable {next : Place → List Hit} {nextWay : Place → Hit → Prop}

theorem merge_lists (hl : Lists step way) (hf : Forward way) (hnext : Lists next nextWay)
    (hnextf : Forward nextWay) :
    Lists (fun p => merge (step p) (next p)) (fun p h => way p h ∨ nextWay p h) := by
  constructor
  · intro p h hmem
    rcases mem_merge hmem with hbetter | hworse
    · exact .inl (hl.sound p h hbetter)
    · exact .inr (hnext.sound p h hworse)
  · rintro p h (hway | hway)
    · exact merge_reaches_left _ (hl.complete p h hway)
    · exact merge_reaches_right (hl.from hf p) (hnext.from hnextf p) (hnext.complete p h hway)

/-- Which of two steps is tried first does not change what they list between them. -/
theorem prefer_lists (greedy : Bool) (hl : Lists step way) (hf : Forward way)
    (hnext : Lists next nextWay) (hnextf : Forward nextWay) :
    Lists (fun p => if greedy then merge (step p) (next p) else merge (next p) (step p))
      (fun p h => way p h ∨ nextWay p h) := by
  cases greedy with
  | true => exact merge_lists hl hf hnext hnextf
  | false => exact (merge_lists hnext hnextf hl hf).congr fun _ _ => or_comm

end Merge

theorem From.chain (hl : Lists step way) (hf : Forward way) (hfrom : From p hs) :
    From p (Hit.chain step hs) := by
  intro h hmem
  obtain ⟨k, hk, l, hlmem, rfl⟩ := mem_chain hmem
  exact Place.exists_passes_trans (hfrom k hk) (hl.from hf k.place l hlmem)

theorem chain_reaches (hl : Lists step way) (hf : Forward way) (hfrom : From p hs) {k l : Hit}
    (hk : k ∈ hs) (hway : way k.place l) : Reaches (chain step hs) l.place := by
  induction hs with
  | nil => simp at hk
  | cons k' ks ih =>
    have hhead : From p ((step k'.place).map k'.extend) := by
      intro h hmem
      obtain ⟨l', hl', rfl⟩ := List.mem_map.mp hmem
      exact Place.exists_passes_trans (hfrom k' List.mem_cons_self) (hl.from hf k'.place l' hl')
    have htail : From p ks := fun h hmem => hfrom h (List.mem_cons_of_mem _ hmem)
    rcases List.mem_cons.mp hk with rfl | hrest
    · obtain ⟨l', hl', hplace⟩ := hl.complete k.place l hway
      exact merge_reaches_left _ ⟨k.extend l', List.mem_map_of_mem hl', hplace⟩
    · exact merge_reaches_right hhead (htail.chain hl hf) (ih htail hrest)

theorem chain_lists {next : Place → List Hit} {nextWay : Place → Hit → Prop} (hl : Lists step way)
    (hf : Forward way) (hnext : Lists next nextWay) (hnextf : Forward nextWay) :
    Lists (fun p => chain next (step p))
      (fun p h => ∃ k l, way p k ∧ nextWay k.place l ∧ h = k.extend l) := by
  constructor
  · intro p h hmem
    obtain ⟨k, hk, l, hlmem, rfl⟩ := mem_chain hmem
    exact ⟨k, l, hl.sound p k hk, hnext.sound k.place l hlmem, rfl⟩
  · rintro p _ ⟨k, l, hk, hlway, rfl⟩
    obtain ⟨k', hk', hplace⟩ := hl.complete p k hk
    have hlway' : nextWay k'.place l := hplace ▸ hlway
    show Reaches _ l.place
    exact chain_reaches hnext hnextf (hl.from hf p) hk' hlway'

theorem mem_times (hl : Lists step way) {n : Nat} {h : Hit} (hmem : h ∈ times step n hs) :
    ∃ k ∈ hs, ∃ l, Turns way n k.place l ∧ h = k.extend l := by
  induction n generalizing hs with
  | zero => exact ⟨h, hmem, ⟨h.place, []⟩, rfl, rfl⟩
  | succ n ih =>
    obtain ⟨m, hm, l, hlturns, rfl⟩ := ih hmem
    obtain ⟨k, hk, j, hj, rfl⟩ := mem_chain hm
    exact ⟨k, hk, j.extend l, ⟨j, l, hl.sound k.place j hj, hlturns, rfl⟩, extend_assoc k j l⟩

theorem times_reaches (hl : Lists step way) (hf : Forward way) (hfrom : From p hs) {n : Nat}
    {k l : Hit} (hk : k ∈ hs) (hturns : Turns way n k.place l) :
    Reaches (times step n hs) l.place := by
  induction n generalizing hs k l with
  | zero =>
    obtain rfl : l = ⟨k.place, []⟩ := hturns
    exact ⟨k, hk, rfl⟩
  | succ n ih =>
    obtain ⟨a, b, ha, hb, rfl⟩ := hturns
    obtain ⟨a', ha', hplace⟩ := chain_reaches hl hf hfrom hk ha
    rw [← hplace] at hb
    show Reaches _ b.place
    exact ih (hfrom.chain hl hf) ha' hb

theorem times_lists (hl : Lists step way) (hf : Forward way) (n : Nat) :
    Lists (fun p => times step n [⟨p, []⟩]) (Turns way n) := by
  constructor
  · intro p h hmem
    obtain ⟨k, hk, l, hturns, rfl⟩ := mem_times hl hmem
    obtain rfl := List.mem_singleton.mp hk
    rw [start_extend]
    exact hturns
  · intro p h hturns
    exact times_reaches hl hf (from_singleton ⟨[], .refl p⟩) List.mem_cons_self hturns

theorem upTo_lists (hl : Lists step way) (hf : Forward way) (greedy : Bool) (n : Nat) :
    Lists (upTo step greedy n) (fun p h => ∃ m ≤ n, Turns way m p h) := by
  induction n with
  | zero =>
    apply (stay_lists way).congr
    intro p h
    constructor
    · intro hstay
      exact ⟨0, Nat.le_refl 0, hstay⟩
    · rintro ⟨m, hm, hturns⟩
      obtain rfl : m = 0 := by omega
      exact hturns
  | succ n ih =>
    have hforward := hf.someTurns (· ≤ n)
    apply (prefer_lists greedy (chain_lists hl hf ih hforward) (hf.chain hforward)
      (stay_lists way) (hf.turns 0)).congr
    intro p h
    constructor
    · rintro (⟨k, l, hk, ⟨m, hm, hturns⟩, rfl⟩ | hstay)
      · exact ⟨m + 1, by omega, k, l, hk, hturns, rfl⟩
      · exact ⟨0, by omega, hstay⟩
    · rintro ⟨m, hm, hturns⟩
      cases m with
      | zero => exact .inr hturns
      | succ m =>
        obtain ⟨k, l, hk, hrest, rfl⟩ := hturns
        exact .inl ⟨k, l, hk, ⟨m, by omega, hrest⟩, rfl⟩

/-- From every hit beyond `p`, a further turn that goes forward ends at one of the hits again. -/
def Settled (step : Place → List Hit) (p : Place) (hs : List Hit) : Prop :=
  ∀ h ∈ hs, p.index < h.place.index →
    ∀ k ∈ step h.place, h.place.index < k.place.index → Reaches hs k.place

/-- What running a loop on from `h` makes of the hits found before: it keeps them, adds only what
further turns give, has been at `h`, and leaves no turn untried that it had not left before. -/
structure Grows (step : Place → List Hit) (way : Place → Hit → Prop) (p : Place) (found : List Hit)
    (h : Hit) (after : List Hit) : Prop where
  leads : found <+: after
  turns : ∀ k ∈ after, k ∈ found ∨ ∃ n l, Turns way n h.place l ∧ k = h.extend l
  visits : Reaches after h.place
  settles : Settled step p found → Settled step p after

theorem Grows.from (hf : Forward way) {found after : List Hit} {h : Hit}
    (hg : Grows step way p found h after) (hfound : From p found) (hh : ∃ v, p.Passes v h.place) :
    From p after := by
  intro k hk
  rcases hg.turns k hk with hold | ⟨n, l, hturns, rfl⟩
  · exact hfound k hold
  · exact Place.exists_passes_trans hh (hf.turns n h.place l hturns)

theorem foldl_grows (hf : Forward way) (run : List Hit → Hit → List Hit) {ks found : List Hit}
    (hrun : ∀ h ∈ ks, ∀ found, From p found → Grows step way p found h (run found h))
    (hks : From p ks) (hfound : From p found) :
    found <+: ks.foldl run found ∧
      (∀ k ∈ ks.foldl run found,
        k ∈ found ∨ ∃ h ∈ ks, ∃ n l, Turns way n h.place l ∧ k = h.extend l) ∧
      (∀ h ∈ ks, Reaches (ks.foldl run found) h.place) ∧
      (Settled step p found → Settled step p (ks.foldl run found)) := by
  induction ks generalizing found with
  | nil => exact ⟨List.prefix_refl _, fun k hk => .inl hk, by simp, id⟩
  | cons h ks ih =>
    have hg := hrun h List.mem_cons_self found hfound
    have hafter := hg.from hf hfound (hks h List.mem_cons_self)
    obtain ⟨hleads, hturns, hvisits, hsettles⟩ := ih
      (fun k hk => hrun k (List.mem_cons_of_mem _ hk))
      (fun k hk => hks k (List.mem_cons_of_mem _ hk)) hafter
    rw [List.foldl_cons]
    refine ⟨hg.leads.trans hleads, ?_, ?_, fun hs => hsettles (hg.settles hs)⟩
    · intro k hk
      rcases hturns k hk with hold | ⟨h', hh', n, l, hl, rfl⟩
      · rcases hg.turns k hold with holder | ⟨n, l, hl, rfl⟩
        · exact .inl holder
        · exact .inr ⟨h, List.mem_cons_self, n, l, hl, rfl⟩
      · exact .inr ⟨h', List.mem_cons_of_mem _ hh', n, l, hl, rfl⟩
    · intro k hk
      rcases List.mem_cons.mp hk with rfl | hrest
      · exact hg.visits.mono fun m hm => hleads.subset hm
      · exact hvisits k hrest

def onward (step : Place → List Hit) (h : Hit) : List Hit :=
  ((step h.place).filter fun k => h.place.index < k.place.index).map h.extend

/-- Where a loop puts `h` among the hits found before and after running on from it. -/
def settle (greedy : Bool) (found after : List Hit) (h : Hit) : List Hit :=
  if greedy then after ++ [h] else found ++ h :: after.drop found.length

theorem mem_settle {greedy : Bool} {found after : List Hit} {h k : Hit} (hleads : found <+: after) :
    k ∈ settle greedy found after h ↔ k ∈ after ∨ k = h := by
  obtain ⟨more, rfl⟩ := hleads
  unfold settle
  split
  · rw [List.mem_append, List.mem_singleton]
  · rw [List.drop_left, List.mem_append, List.mem_cons, List.mem_append]
    constructor
    · rintro (hold | rfl | hnew)
      · exact .inl (.inl hold)
      · exact .inr rfl
      · exact .inl (.inr hnew)
    · rintro ((hold | hnew) | rfl)
      · exact .inl hold
      · exact .inr (.inr hnew)
      · exact .inr (.inl rfl)

theorem prefix_settle {greedy : Bool} {found after : List Hit} {h : Hit}
    (hleads : found <+: after) :
    found <+: settle greedy found after h := by
  unfold settle
  split
  · exact hleads.trans (List.prefix_append _ _)
  · exact List.prefix_append _ _

theorem loop_zero (greedy : Bool) (found : List Hit) (h : Hit) :
    loop step greedy 0 found h =
      if h.isAmong found then found else settle greedy found found h := rfl

theorem loop_succ (greedy : Bool) (room : Nat) (found : List Hit) (h : Hit) :
    loop step greedy (room + 1) found h =
      if h.isAmong found then found
      else settle greedy found ((onward step h).foldl (loop step greedy room) found) h := rfl

theorem settle_grows (hl : Lists step way) (greedy : Bool) {found after : List Hit} {h : Hit}
    (hleads : found <+: after)
    (hturns : ∀ k ∈ after,
      k ∈ found ∨ ∃ l ∈ onward step h, ∃ n m, Turns way n l.place m ∧ k = l.extend m)
    (htried : ∀ l ∈ onward step h, Reaches after l.place)
    (hsettles : Settled step p found → Settled step p after) :
    Grows step way p found h (settle greedy found after h) := by
  have hmem : ∀ k, k ∈ settle greedy found after h ↔ k ∈ after ∨ k = h := fun k => mem_settle hleads
  have hafter : ∀ k ∈ after, k ∈ settle greedy found after h := fun k hk => (hmem k).mpr (.inl hk)
  constructor
  · exact prefix_settle hleads
  · intro k hk
    rcases (hmem k).mp hk with hold | rfl
    · rcases hturns k hold with holder | ⟨l, hlmem, n, m, hm, rfl⟩
      · exact .inl holder
      · obtain ⟨l', hl', rfl⟩ := List.mem_map.mp hlmem
        have hway := hl.sound h.place l' (List.mem_filter.mp hl').1
        exact .inr ⟨n + 1, l'.extend m, ⟨l', m, hway, hm, rfl⟩, extend_assoc h l' m⟩
    · exact .inr ⟨0, ⟨k.place, []⟩, rfl, (extend_stay k).symm⟩
  · exact ⟨h, (hmem h).mpr (.inr rfl), rfl⟩
  · intro hfound k hk hbeyond l hlmem hforward
    rcases (hmem k).mp hk with hold | rfl
    · exact (hsettles hfound k hold hbeyond l hlmem hforward).mono hafter
    · have honward : k.extend l ∈ onward step k :=
        List.mem_map_of_mem (List.mem_filter.mpr ⟨hlmem, decide_eq_true hforward⟩)
      exact (htried _ honward).mono hafter

/-- Running a loop on from `h` tries everything there is to try beyond `p`. A turn that goes forward
leaves fewer characters, so `room` is used up only where none are left. -/
theorem loop_grows (hl : Lists step way) (hf : Forward way) (greedy : Bool) {room : Nat}
    {found : List Hit} {h : Hit} (hfound : From p found) (hh : ∃ v, p.Passes v h.place)
    (hroom : h.place.rest.length ≤ room) :
    Grows step way p found h (loop step greedy room found h) := by
  induction room generalizing found h with
  | zero =>
    rw [loop_zero]
    split
    · next hamong =>
      obtain ⟨v, hv⟩ := hh
      exact ⟨List.prefix_refl _, fun k hk => .inl hk, reaches_of_isAmong hfound hv hamong, id⟩
    · have hnone : onward step h = [] := by
        have hrest : h.place.rest = [] := List.eq_nil_of_length_eq_zero (by omega)
        unfold onward
        rw [List.map_eq_nil_iff, List.filter_eq_nil_iff]
        intro k hk hforward
        obtain ⟨w, hw⟩ := hl.from hf h.place k hk
        have hw₁ := hw.rest
        have hw₂ := hw.index
        rw [hrest] at hw₁
        obtain ⟨rfl, -⟩ := List.append_eq_nil_iff.mp hw₁.symm
        have hlt := of_decide_eq_true hforward
        rw [List.length_nil] at hw₂
        omega
      apply settle_grows hl greedy (List.prefix_refl _) (fun k hk => .inl hk) _ id
      rw [hnone]
      simp
  | succ room ih =>
    rw [loop_succ]
    obtain ⟨v, hv⟩ := hh
    split
    · next hamong =>
      exact ⟨List.prefix_refl _, fun k hk => .inl hk, reaches_of_isAmong hfound hv hamong, id⟩
    · have hks : ∀ k ∈ onward step h, (∃ w, p.Passes w k.place) ∧ k.place.rest.length ≤ room := by
        intro k hk
        obtain ⟨k', hk', rfl⟩ := List.mem_map.mp hk
        obtain ⟨hmem, hforward⟩ := List.mem_filter.mp hk'
        obtain ⟨w, hw⟩ := hl.from hf h.place k' hmem
        refine ⟨⟨v ++ w, hv.trans hw⟩, ?_⟩
        have hindex := hw.index
        have hlength := congrArg List.length hw.rest
        rw [List.length_append] at hlength
        have hlt := of_decide_eq_true hforward
        show k'.place.rest.length ≤ room
        omega
      obtain ⟨hleads, hturns, hvisits, hsettles⟩ := foldl_grows hf (loop step greedy room)
        (fun k hk found hfrom => ih hfrom (hks k hk).1 (hks k hk).2)
        (fun k hk => (hks k hk).1) hfound
      exact settle_grows hl greedy hleads hturns hvisits hsettles

def firstTurn (step : Place → List Hit) (greedy : Bool) (p : Place) (found : List Hit) (h : Hit) :
    List Hit :=
  if h.place.index = p.index then merge found [h] else loop step greedy h.place.rest.length found h

theorem firstTurn_grows (hl : Lists step way) (hf : Forward way) (greedy : Bool) {found : List Hit}
    {h : Hit} (hfound : From p found) (hh : ∃ v, p.Passes v h.place) :
    Grows step way p found h (firstTurn step greedy p found h) := by
  unfold firstTurn
  split
  · next hindex =>
    constructor
    · exact List.prefix_append _ _
    · intro k hk
      rcases mem_merge hk with hold | hnew
      · exact .inl hold
      · obtain rfl := List.mem_singleton.mp hnew
        exact .inr ⟨0, ⟨k.place, []⟩, rfl, (extend_stay k).symm⟩
    · exact merge_reaches_right hfound (from_singleton hh) ⟨h, List.mem_cons_self, rfl⟩
    · intro hsettled k hk hbeyond l hlmem hforward
      rcases mem_merge hk with hold | hnew
      · exact merge_reaches_left _ (hsettled k hold hbeyond l hlmem hforward)
      · obtain rfl := List.mem_singleton.mp hnew
        omega
  · exact loop_grows hl hf greedy hfound hh (Nat.le_refl _)

/-- A loop that turns once or more reaches what any number of turns reaches: a turn that takes
nothing changes no place, and a turn that goes forward has been tried wherever the loop has been. -/
theorem onceOrMore_lists (hl : Lists step way) (hf : Forward way) (greedy : Bool) :
    Lists (onceOrMore step greedy) (fun p h => ∃ n, Turns way (n + 1) p h) := by
  have hnil : ∀ p, From p [] := fun p h hmem => absurd hmem List.not_mem_nil
  have hrun := fun p => foldl_grows hf (firstTurn step greedy p)
    (fun h hmem found hfrom => firstTurn_grows hl hf greedy hfrom (hl.from hf p h hmem))
    (hl.from hf p) (hnil p)
  constructor
  · intro p h hmem
    obtain ⟨-, hturns, -, -⟩ := hrun p
    rcases hturns h hmem with hnone | ⟨k, hk, n, l, hlturns, rfl⟩
    · exact absurd hnone List.not_mem_nil
    · exact ⟨n, k, l, hl.sound p k hk, hlturns, rfl⟩
  · rintro p h ⟨n, hturns⟩
    obtain ⟨-, -, hvisits, hsettles⟩ := hrun p
    have hsettled : Settled step p (onceOrMore step greedy p) :=
      hsettles fun k hk => absurd hk List.not_mem_nil
    induction n generalizing h with
    | zero =>
      obtain ⟨k, l, hk, hl₀, rfl⟩ := hturns
      obtain rfl : l = ⟨k.place, []⟩ := hl₀
      obtain ⟨k', hk', hplace⟩ := hl.complete p k hk
      obtain ⟨m, hm, hmplace⟩ := hvisits k' hk'
      exact ⟨m, hm, hmplace.trans hplace⟩
    | succ n ih =>
      obtain ⟨k, l, hk, hl₁, rfl⟩ := hturns.split
      obtain ⟨l, l₀, hlway, hl₀, rfl⟩ := hl₁
      obtain rfl : l₀ = ⟨l.place, []⟩ := hl₀
      obtain ⟨v, hv⟩ := hf.turns (n + 1) p k hk
      obtain ⟨w, hw⟩ := hf k.place l hlway
      obtain ⟨k', hk', hplace⟩ := ih k hk
      show Reaches _ l.place
      by_cases hforward : k.place.index < l.place.index
      · obtain ⟨l', hl', hlplace⟩ := hl.complete k.place l hlway
        rw [← hlplace]
        by_cases hbeyond : p.index < k.place.index
        · rw [← hplace] at hl' hbeyond hforward
          exact hsettled k' hk' hbeyond l' hl' (by rw [hlplace]; exact hforward)
        · have hindex := hv.index
          have hsame : k.place = p := (hv.unique (.refl p) (by omega)).2
          rw [hsame] at hl'
          exact hvisits l' hl'
      · have hindex := hw.index
        have hsame : l.place = k.place := (hw.unique (.refl k.place) (by omega)).2
        rw [hsame]
        exact ⟨k', hk', hplace⟩

theorem bounded_lists (hl : Lists step way) (hf : Forward way) (least most : Nat) (greedy : Bool) :
    Lists (repetition step least (some most) greedy)
      (fun p h => ∃ n, least ≤ n ∧ n ≤ max least most ∧ Turns way n p h) := by
  apply (chain_lists (times_lists hl hf least) (hf.turns least)
    (upTo_lists hl hf greedy (most - least)) (hf.someTurns (· ≤ most - least))).congr
  intro p h
  constructor
  · rintro ⟨k, l, hk, ⟨m, hm, hlturns⟩, rfl⟩
    exact ⟨least + m, by omega, by omega, hk.trans hlturns⟩
  · rintro ⟨n, hleast, hmost, hturns⟩
    obtain ⟨m, rfl⟩ := Nat.exists_eq_add_of_le hleast
    obtain ⟨k, l, hk, hlturns, rfl⟩ := hturns.split
    exact ⟨k, l, hk, ⟨m, by omega, hlturns⟩, rfl⟩

theorem unbounded_lists (hl : Lists step way) (hf : Forward way) (least : Nat) (greedy : Bool) :
    Lists (repetition step least none greedy) (fun p h => ∃ n, least ≤ n ∧ Turns way n p h) := by
  have honce := onceOrMore_lists hl hf greedy
  have hmore : Forward (fun p h => ∃ n, Turns way (n + 1) p h) := by
    rintro p h ⟨n, hturns⟩
    exact hf.turns (n + 1) p h hturns
  cases least with
  | zero =>
    apply (prefer_lists greedy honce hmore (stay_lists way) (hf.turns 0)).congr
    intro p h
    constructor
    · rintro (⟨n, hturns⟩ | hstay)
      · exact ⟨n + 1, by omega, hturns⟩
      · exact ⟨0, Nat.le_refl 0, hstay⟩
    · rintro ⟨n, -, hturns⟩
      cases n with
      | zero => exact .inr hturns
      | succ n => exact .inl ⟨n, hturns⟩
  | succ least =>
    apply (chain_lists (times_lists hl hf least) (hf.turns least) honce hmore).congr
    intro p h
    constructor
    · rintro ⟨k, l, hk, ⟨n, hlturns⟩, rfl⟩
      exact ⟨least + (n + 1), by omega, hk.trans hlturns⟩
    · rintro ⟨n, hleast, hturns⟩
      obtain ⟨m, rfl⟩ := Nat.exists_eq_add_of_le hleast
      rw [Nat.add_right_comm, Nat.add_assoc] at hturns
      obtain ⟨k, l, hk, hlturns, rfl⟩ := hturns.split
      exact ⟨k, l, hk, ⟨m, hlturns⟩, rfl⟩

theorem repetition_lists (hl : Lists step way) (hf : Forward way) (least : Nat) (most : Option Nat)
    (greedy : Bool) :
    Lists (repetition step least most greedy)
      (fun p h => ∃ n, least ≤ n ∧ (∀ m, most = some m → n ≤ max least m) ∧ Turns way n p h) := by
  cases most with
  | some most => simpa using bounded_lists hl hf least most greedy
  | none => simpa using unbounded_lists hl hf least greedy

end Steps

end Hit

namespace Regex

/-- The hits of an expression are ways to match it, and they reach every place that a way leads
to. -/
theorem ends_lists (r : Regex) : Hit.Lists r.ends r.Way := by
  induction r with
  | empty => exact Hit.stay_lists empty.Way
  | set s =>
    constructor
    · intro p h hmem
      simp only [ends] at hmem
      split at hmem
      · next c rest hrest =>
        split at hmem
        · next hs => exact ⟨c, rest, hrest, hs, List.mem_singleton.mp hmem⟩
        · exact absurd hmem List.not_mem_nil
      · exact absurd hmem List.not_mem_nil
    · rintro p _ ⟨c, rest, hrest, hs, rfl⟩
      refine ⟨_, ?_, rfl⟩
      simp only [ends, hrest, hs, if_true]
      exact List.mem_cons_self
  | look l =>
    constructor
    · intro p h hmem
      simp only [ends] at hmem
      split at hmem
      · next hlook => exact ⟨hlook, List.mem_singleton.mp hmem⟩
      · exact absurd hmem List.not_mem_nil
    · rintro p _ ⟨hlook, rfl⟩
      refine ⟨_, ?_, rfl⟩
      simp only [ends, hlook, if_true]
      exact List.mem_cons_self
  | cat r s ihr ihs => exact Hit.chain_lists ihr r.way_forward ihs s.way_forward
  | alt r s ihr ihs => exact Hit.merge_lists ihr r.way_forward ihs s.way_forward
  | repeated r least most greedy ih => exact Hit.repetition_lists ih r.way_forward least most greedy
  | group name r ih =>
    constructor
    · intro p h hmem
      obtain ⟨k, hk, rfl⟩ := List.mem_map.mp hmem
      exact ⟨k, ih.sound p k hk, rfl⟩
    · rintro p _ ⟨k, hk, rfl⟩
      obtain ⟨k', hk', hplace⟩ := ih.complete p k hk
      exact ⟨_, List.mem_map_of_mem hk', hplace⟩

theorem exists_way_of_firstHit {r : Regex} {i : Nat} {last : Option Char} {t : Text} {h : Hit}
    (hfirst : r.firstHit i last t = some h) : ∃ p, r.Way p h := by
  induction t generalizing i last with
  | nil =>
    rw [firstHit] at hfirst
    split at hfirst
    · next k hk =>
      obtain rfl := Option.some.inj hfirst
      exact ⟨_, r.ends_lists.sound _ k (List.mem_of_mem_head? hk)⟩
    · cases hfirst
  | cons c rest ih =>
    rw [firstHit] at hfirst
    split at hfirst
    · next k hk =>
      obtain rfl := Option.some.inj hfirst
      exact ⟨_, r.ends_lists.sound _ k (List.mem_of_mem_head? hk)⟩
    · exact ih hfirst

/-- What groups take in a match is what they take on some way to match. -/
theorem exists_way_of_captures? {r : Regex} {t : Text} {taken : Captures}
    (h : r.captures? t = some taken) :
    ∃ p k, r.Way p k ∧ k.captures = taken := by
  obtain ⟨k, hk, rfl⟩ := Option.map_eq_some_iff.mp h
  obtain ⟨p, hway⟩ := exists_way_of_firstHit hk
  exact ⟨p, k, hway, rfl⟩

/-- The expression, matched from the start of a text to its end. -/
def anchored (r : Regex) : Regex :=
  cat (cat (look .textStart) r) (look .textEnd)

theorem way_anchored {r : Regex} {p : Place} {h : Hit} :
    r.anchored.Way p h ↔ p.last = none ∧ r.Way p h ∧ h.place.rest = [] := by
  constructor
  · rintro ⟨k, l, ⟨a, b, ⟨hstart, rfl⟩, hb, rfl⟩, ⟨hend, rfl⟩, rfl⟩
    refine ⟨eq_of_beq hstart, by simpa [Hit.extend] using hb, ?_⟩
    simpa [Look.holds, Hit.extend] using hend
  · rintro ⟨hstart, hway, hend⟩
    refine ⟨h, ⟨h.place, []⟩, ⟨⟨p, []⟩, h, ⟨?_, rfl⟩, hway, (Hit.start_extend p h).symm⟩,
      ⟨?_, rfl⟩, rfl⟩
    · simp [Look.holds, hstart]
    · simp [Look.holds, hend]

/-- An anchored expression is matched from the start of the text or not at all. -/
theorem firstHit_anchored (r : Regex) {i : Nat} {last : Option Char} {t : Text}
    (hlast : last ≠ none) : r.anchored.firstHit i last t = none := by
  have hnone : ∀ i last t, last ≠ none → (r.anchored.ends ⟨i, last, t⟩).head? = none := by
    intro i last t hlast
    rw [List.head?_eq_none_iff, List.eq_nil_iff_forall_not_mem]
    intro h hmem
    exact hlast (way_anchored.mp (r.anchored.ends_lists.sound _ h hmem)).1
  induction t generalizing i last with
  | nil => rw [firstHit, hnone i last [] hlast]
  | cons c rest ih =>
    rw [firstHit, hnone i last (c :: rest) hlast]
    exact ih (by simp)

/-- What groups take in the match of an anchored expression is what they take on some way to match
the whole text. -/
theorem captures?_anchored {r : Regex} {t : Text} {taken : Captures}
    (h : r.anchored.captures? t = some taken) :
    ∃ k, r.Way (.start t) k ∧ k.place.rest = [] ∧ k.captures = taken := by
  obtain ⟨k, hk, rfl⟩ := Option.map_eq_some_iff.mp h
  refine ⟨k, ?_⟩
  have hhead : (r.anchored.ends (.start t)).head? = some k := by
    rw [firstHit.eq_def] at hk
    split at hk
    · next k' hk' => exact hk'.trans hk
    · next hnone =>
      cases t with
      | nil => simp at hk
      | cons c rest =>
        have hlater : r.anchored.firstHit 1 (some c) rest = some k := hk
        have hsome : some c ≠ none := by simp
        rw [firstHit_anchored r hsome] at hlater
        simp at hlater
  have hmem := List.mem_of_mem_head? hhead
  obtain ⟨-, hway, hend⟩ := way_anchored.mp (r.anchored.ends_lists.sound _ k hmem)
  exact ⟨hway, hend, rfl⟩

theorem isMatch_anchored_iff {r : Regex} {t : Text} :
    r.anchored.isMatch t = true ↔ ∃ k, r.Way (.start t) k ∧ k.place.rest = [] := by
  constructor
  · intro h
    obtain ⟨taken, htaken⟩ := Option.isSome_iff_exists.mp h
    obtain ⟨k, hway, hend, -⟩ := captures?_anchored htaken
    exact ⟨k, hway, hend⟩
  · rintro ⟨k, hway, hend⟩
    obtain ⟨k', hk', -⟩ := r.anchored.ends_lists.complete (.start t) k
      (way_anchored.mpr ⟨rfl, hway, hend⟩)
    unfold isMatch captures?
    rw [Option.isSome_map, firstHit.eq_def]
    obtain ⟨first, hfirst⟩ :=
      Option.isSome_iff_exists.mp (List.isSome_head?.mpr (List.ne_nil_of_mem hk'))
    change (r.anchored.ends ⟨0, none, t⟩).head? = some first at hfirst
    rw [hfirst]
    rfl

end Regex

end Signpost
