import Signpost.Proofs.Regex.Matcher

/-!
Expressions that do not look around. What such an expression matches depends on the text it passes
over and on nothing else, so a piece that it takes within a longer text is a text that it matches on
its own, and the other way round. Of anchors, and of all conditions but those that compare two
neighbours as parts of words, the first half is still true. Main statements: `Regex.isMatch_of_way`,
`Regex.way_of_isMatch` and `Regex.isMatch_of_way_of_wordFree`.
-/

namespace Signpost

namespace Place

theorem Passes.eq_of_nil {p q : Place} (h : p.Passes [] q) : q = p :=
  (h.unique (.refl p) (by simpa using h.index)).2

theorem exists_passes {p : Place} {v w : Text} (h : p.rest = v ++ w) :
    ∃ q, p.Passes v q ∧ q.rest = w :=
  ⟨⟨p.index + v.length, v.getLast?.or p.last, w⟩, ⟨h, rfl, rfl⟩, rfl⟩

theorem Passes.split {p r : Place} {v w : Text} (h : p.Passes (v ++ w) r) :
    ∃ q, p.Passes v q ∧ q.Passes w r := by
  have hrest : p.rest = v ++ (w ++ r.rest) := by rw [h.rest, List.append_assoc]
  obtain ⟨q, hq, hqrest⟩ := exists_passes hrest
  refine ⟨q, hq, hqrest, ?_, ?_⟩
  · rw [h.index, hq.index, List.length_append, Nat.add_assoc]
  · rw [h.last, hq.last, List.getLast?_append, Option.or_assoc]

def finish (t : Text) : Place :=
  ⟨t.length, t.getLast?, []⟩

theorem passes_finish (t : Text) : (start t).Passes t (finish t) :=
  ⟨(List.append_nil t).symm, (Nat.zero_add _).symm, (Option.or_none).symm⟩

/-- The text passed over from the start of a text to where none is left is the whole text. -/
theorem Passes.eq_of_end {t v : Text} {q : Place} (h : (start t).Passes v q) (hend : q.rest = []) :
    v = t := by
  have hrest := h.rest
  rw [hend, List.append_nil] at hrest
  exact hrest.symm

end Place

namespace Look

/-- The condition compares the characters on both sides of a place as parts of words. -/
def comparesWords : Look → Bool
  | wordBoundary _ | notWordBoundary _ | wordStart _ | wordEnd _ => true
  | _ => false

/-- Any other condition still holds when the text is cut off on either side. -/
theorem holds_alone {l : Look} (hl : l.comparesWords = false) {p q : Place}
    (hlast : q.last = none ∨ q.last = p.last)
    (hnext : q.rest.head? = none ∨ q.rest.head? = p.rest.head?)
    (h : l.holds p = true) : l.holds q = true := by
  cases l with
  | wordBoundary | notWordBoundary | wordStart | wordEnd => cases hl
  | textStart | lineStart | anyLineStart | wordStartHalf | textEnd | lineEnd | anyLineEnd
  | wordEndHalf =>
    rcases hlast with hlast | hlast <;> rcases hnext with hnext | hnext <;> grind [holds, isWord]

end Look

namespace Hit

/-- What is a way from one place is a way from any other that has the same text in front of it, and
the groups take the same. -/
def Transfers (way : Place → Hit → Prop) : Prop :=
  ∀ ⦃p q q' : Place⦄ ⦃h : Hit⦄ ⦃v : Text⦄, way p h → p.Passes v h.place → q.Passes v q' →
    way q ⟨q', h.captures⟩

/-- The same where what stands on the two sides of the text is alike. -/
def TransfersLike (like : Option Char → Option Char → Prop) (way : Place → Hit → Prop) : Prop :=
  ∀ ⦃p q q' : Place⦄ ⦃h : Hit⦄ ⦃v : Text⦄, way p h → p.Passes v h.place → q.Passes v q' →
    like p.last q.last → like h.place.rest.head? q'.rest.head? → way q ⟨q', h.captures⟩

section Alike

variable {like : Option Char → Option Char → Prop} {way next : Place → Hit → Prop}

theorem transfersLike_stay (like : Option Char → Option Char → Prop) (way : Place → Hit → Prop) :
    TransfersLike like (Turns way 0) := by
  rintro p q q' h v hway hv hq - -
  obtain rfl : h = ⟨p, []⟩ := hway
  obtain ⟨rfl, -⟩ := hv.unique (.refl p) rfl
  obtain rfl := hq.eq_of_nil
  rfl

variable (hrefl : ∀ c, like c c)

include hrefl

theorem like_last {p k q m : Place} {v : Text} (hk : p.Passes v k) (hm : q.Passes v m)
    (h : like p.last q.last) :
    like k.last m.last := by
  rw [hk.last, hm.last]
  cases v.getLast? with
  | none => exact h
  | some c => exact hrefl _

theorem like_next {p k q m : Place} {v : Text} (hk : p.Passes v k) (hm : q.Passes v m)
    (h : like k.rest.head? m.rest.head?) : like p.rest.head? q.rest.head? := by
  rw [hk.rest, hm.rest]
  cases v with
  | nil => exact h
  | cons c v => exact hrefl _

theorem TransfersLike.chain (ht : TransfersLike like way) (hf : Forward way)
    (hnext : TransfersLike like next) (hnextf : Forward next) :
    TransfersLike like (fun p h => ∃ k l, way p k ∧ next k.place l ∧ h = k.extend l) := by
  rintro p q q' _ v ⟨k, l, hk, hl, rfl⟩ hv hq hlast hrest
  obtain ⟨v₁, hv₁⟩ := hf p k hk
  obtain ⟨v₂, hv₂⟩ := hnextf k.place l hl
  obtain ⟨rfl, -⟩ := hv.unique (hv₁.trans hv₂) rfl
  obtain ⟨m, hm₁, hm₂⟩ := hq.split
  exact ⟨⟨m, k.captures⟩, ⟨q', l.captures⟩, ht hk hv₁ hm₁ hlast (like_next hrefl hv₂ hm₂ hrest),
    hnext hl hv₂ hm₂ (like_last hrefl hv₁ hm₁ hlast) hrest, rfl⟩

theorem TransfersLike.turns (ht : TransfersLike like way) (hf : Forward way) (n : Nat) :
    TransfersLike like (Turns way n) := by
  induction n with
  | zero => exact transfersLike_stay like way
  | succ n ih => exact ht.chain hrefl hf ih (hf.turns n)

end Alike

end Hit

namespace Regex

/-- The conditions of the expression on the places it goes through are all of a kind. -/
def looksAll (kind : Look → Bool) : Regex → Bool
  | empty => true
  | set _ => true
  | look l => kind l
  | cat r s => r.looksAll kind && s.looksAll kind
  | alt r s => r.looksAll kind && s.looksAll kind
  | repeated r _ _ _ => r.looksAll kind
  | group _ r => r.looksAll kind

/-- Where the conditions of an expression hold they hold between alike characters too: then so do
its ways. -/
theorem transfersLike_of_looksAll {like : Option Char → Option Char → Prop} (hrefl : ∀ c, like c c)
    {kind : Look → Bool}
    (hkind : ∀ l p q, kind l = true → like p.last q.last → like p.rest.head? q.rest.head? →
      l.holds p = true →
      l.holds q = true)
    {r : Regex} (hr : r.looksAll kind = true) : Hit.TransfersLike like r.Way := by
  induction r with
  | empty => exact Hit.transfersLike_stay like empty.Way
  | set s =>
    rintro p q q' _ v ⟨c, rest, hrest, hs, rfl⟩ hv hq - -
    have hone : p.Passes [c] ⟨p.index + 1, some c, rest⟩ := ⟨hrest, rfl, rfl⟩
    obtain ⟨rfl, -⟩ := hv.unique hone rfl
    refine ⟨c, q'.rest, hq.rest, hs, ?_⟩
    have hindex := hq.index
    have hlast := hq.last
    cases q'
    simp_all
  | look l =>
    rintro p q q' _ v ⟨hholds, rfl⟩ hv hq hlast hrest
    obtain ⟨rfl, -⟩ := hv.unique (.refl p) rfl
    obtain rfl := hq.eq_of_nil
    exact ⟨hkind l p q' hr hlast hrest hholds, rfl⟩
  | cat r s ihr ihs =>
    obtain ⟨hr, hs⟩ := Bool.and_eq_true_iff.mp hr
    exact (ihr hr).chain hrefl r.way_forward (ihs hs) s.way_forward
  | alt r s ihr ihs =>
    obtain ⟨hr, hs⟩ := Bool.and_eq_true_iff.mp hr
    rintro p q q' h v (hway | hway) hv hq hlast hrest
    · exact .inl (ihr hr hway hv hq hlast hrest)
    · exact .inr (ihs hs hway hv hq hlast hrest)
  | repeated r least most greedy ih =>
    rintro p q q' h v ⟨n, hleast, hmost, hturns⟩ hv hq hlast hrest
    exact ⟨n, hleast, hmost, (ih hr).turns hrefl r.way_forward n hturns hv hq hlast hrest⟩
  | group name r ih =>
    rintro p q q' _ v ⟨k, hk, rfl⟩ hv hq hlast hrest
    refine ⟨⟨q', k.captures⟩, ih hr hk hv hq hlast hrest, ?_⟩
    show (⟨q', _⟩ : Hit) = ⟨q', _⟩
    rw [hq.between_eq, Place.Passes.between_eq hv]

/-- The expression looks at nothing but the text it passes over: it has no anchor and no
boundary. -/
def lookFree : Regex → Bool
  | empty => true
  | set _ => true
  | look _ => false
  | cat r s => r.lookFree && s.lookFree
  | alt r s => r.lookFree && s.lookFree
  | repeated r _ _ _ => r.lookFree
  | group _ r => r.lookFree

theorem lookFree_eq_looksAll (r : Regex) : r.lookFree = r.looksAll fun _ => false := by
  induction r with
  | empty | set s | look l => rfl
  | cat r s ihr ihs | alt r s ihr ihs => rw [lookFree, looksAll, ihr, ihs]
  | repeated r least most greedy ih | group name r ih => rw [lookFree, looksAll, ih]

theorem transfers_of_lookFree {r : Regex} (hfree : r.lookFree = true) : Hit.Transfers r.Way := by
  have htransfers : Hit.TransfersLike (fun _ _ => True) r.Way :=
    transfersLike_of_looksAll (fun _ => trivial) (fun _ _ _ hkind =>
      absurd hkind Bool.false_ne_true)
      (lookFree_eq_looksAll r ▸ hfree)
  exact fun p q q' h v hway hv hq => htransfers hway hv hq trivial trivial

/-- A piece that an expression takes somewhere is a text that it matches as a whole. -/
theorem isMatch_of_way {r : Regex} (hfree : r.lookFree = true) {p : Place} {h : Hit} {v : Text}
    (hway : r.Way p h) (hv : p.Passes v h.place) : r.anchored.isMatch v = true :=
  isMatch_anchored_iff.mpr ⟨_, transfers_of_lookFree hfree hway hv (Place.passes_finish v), rfl⟩

/-- A text that an expression matches as a whole is a piece that it can take wherever the text
stands. -/
theorem way_of_isMatch {r : Regex} (hfree : r.lookFree = true) {p q : Place} {v : Text}
    (hmatch : r.anchored.isMatch v = true) (hv : p.Passes v q) : ∃ h, r.Way p h ∧ h.place = q := by
  obtain ⟨k, hway, hend⟩ := isMatch_anchored_iff.mp hmatch
  obtain ⟨w, hw⟩ := r.way_forward _ k hway
  obtain rfl := hw.eq_of_end hend
  exact ⟨_, transfers_of_lookFree hfree hway hw hv, rfl⟩

/-- The expression compares no two neighbours as parts of words. Its other conditions hold at the
ends of a text at least where they hold within one. -/
def wordFree (r : Regex) : Bool :=
  r.looksAll fun l => !l.comparesWords

/-- A piece that an expression takes somewhere is a text that it matches as a whole, even when it
has anchors. -/
theorem isMatch_of_way_of_wordFree {r : Regex} (hfree : r.wordFree = true) {p : Place}
    {h : Hit} {v : Text} (hway : r.Way p h)
    (hv : p.Passes v h.place) : r.anchored.isMatch v = true := by
  have htransfers : Hit.TransfersLike (fun c d => d = none ∨ d = c) r.Way :=
    transfersLike_of_looksAll (fun _ => .inr rfl)
      (fun _ _ _ hkind hlast hnext => Look.holds_alone (by simpa using hkind) hlast hnext) hfree
  exact isMatch_anchored_iff.mpr
    ⟨_, htransfers hway hv (Place.passes_finish v) (.inl rfl) (.inl rfl), rfl⟩

end Regex

end Signpost
