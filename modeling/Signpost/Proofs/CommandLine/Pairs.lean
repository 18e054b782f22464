import Signpost.CommandLine.Pairs
import Signpost.Proofs.Text.Cut
import Signpost.Proofs.Text.Map

/-!
Texts with a key and a value, gathered by key. Under each key stand the values of the texts with
that key, in their order: one alone as it is, more as a list. Gathering one more text keeps this, so
no value is lost or moved, however the keys alternate. Main statement: `Args.ofPairs_gathers`.
-/

namespace Signpost.Args

/-- What stands in front of the first equals sign. -/
def keyOf (pair : Text) : Text :=
  pair.takeWhile (· ≠ '=')

/-- What stands behind the first equals sign. -/
def valueOf (pair : Text) : Text :=
  (pair.dropWhile (· ≠ '=')).tail

/-- The values of the texts with a key, in their order. -/
def valuesUnder (k : Text) (pairs : List Text) : List Text :=
  (pairs.filter fun pair => keyOf pair = k).map valueOf

/-- What holds the values of one key; a key without values has no entry. -/
def grouped : List Text → Option ArgValue
  | [] => none
  | [v] => some (.single v)
  | vs => some (.list vs)

/-- The number of values under all keys. -/
def size (args : Args) : Nat :=
  (args.entries.flatMap fun e => e.2.values).length

/-- The arguments hold the values of the texts: those of each key under it, and no others. -/
structure Gathers (pairs : List Text) (args : Args) : Prop where
  get? : ∀ k, args.get? k = grouped (valuesUnder k pairs)
  size : args.size = pairs.length

theorem cutFirst_pair {pair : Text} (h : '=' ∈ pair) :
    Text.cutFirst '=' pair = some (keyOf pair, valueOf pair) := by
  obtain ⟨k, v, rfl, hk⟩ := List.eq_append_cons_of_mem h
  obtain ⟨hkey, hvalue⟩ := Text.span_ne_separator hk v
  rw [Text.cutFirst_eq hk, keyOf, hkey, valueOf, hvalue, List.tail_cons]

theorem valuesUnder_append (k : Text) (pairs : List Text) (pair : Text) :
    valuesUnder k (pairs ++ [pair]) = valuesUnder k pairs ++ if keyOf pair = k then [valueOf pair]
      else [] := by
  by_cases hk : keyOf pair = k <;> simp [valuesUnder, hk]

/-- One more value under a key goes behind the values that it has; the other keys keep theirs. -/
theorem get?_collect {args : Args} {k : Text} {vs : List Text} (h : args.get? k = grouped vs)
    (v l : Text) :
    (args.collect k v).get? l = if l = k then grouped (vs ++ [v]) else args.get? l := by
  rw [collect, TextMap.get?_insert, h]
  congr 1
  -- A list gets a new value in three ways, by the number of values that are there.
  match vs with
  | [] => rfl
  | [first] => rfl
  | first :: second :: more => rfl

@[simp]
theorem size_collect (args : Args) (k v : Text) : (args.collect k v).size = args.size + 1 := by
  obtain ⟨before, after, hentries, hinsert⟩ := args.exists_entries_at k
  unfold size
  rw [collect, hinsert, hentries]
  cases args.get? k with
  | none => simp [ArgValue.values]; omega
  | some w => cases w <;> simp [ArgValue.values] <;> omega

theorem Gathers.start : Gathers [] ∅ where
  get? := fun _ => rfl
  size := rfl

/-- Gathering one more text keeps what has been gathered. -/
theorem Gathers.collect {pairs : List Text} {args : Args} (h : Gathers pairs args) (pair : Text) :
    Gathers (pairs ++ [pair]) (args.collect (keyOf pair) (valueOf pair)) where
  get? := by
    intro k
    rw [get?_collect (h.get? (keyOf pair)), valuesUnder_append, h.get? k]
    by_cases hk : k = keyOf pair
    · rw [if_pos hk, if_pos hk.symm, hk]
    · rw [if_neg hk, if_neg (Ne.symm hk), List.append_nil]
  size := by
    rw [size_collect, h.size, List.length_append, List.length_singleton]

/-- Going on from what has been gathered: the first text without an equals sign is the error, and
without such a text all texts are gathered. -/
theorem Gathers.collectPairs {done : List Text} {args : Args} (h : Gathers done args)
    (pairs : List Text) :
    match pairs.find? fun pair => '=' ∉ pair with
    | some pair => args.collectPairs pairs = .error pair
    | none => ∃ all, args.collectPairs pairs = .ok all ∧ Gathers (done ++ pairs) all := by
  induction pairs generalizing done args with
  | nil => exact ⟨args, rfl, by rwa [List.append_nil]⟩
  | cons pair rest ih =>
    by_cases hmem : '=' ∈ pair
    · have hrest := ih (h.collect pair)
      rw [List.append_assoc, List.singleton_append] at hrest
      rw [List.find?_cons_of_neg (by simpa using hmem)]
      simpa only [Args.collectPairs, cutFirst_pair hmem] using hrest
    · rw [List.find?_cons_of_pos (by simpa using hmem)]
      simp only [Args.collectPairs, Text.cutFirst_eq_none_iff.mpr hmem]

/-- Texts make arguments unless one of them has no equals sign, and the first such text is then the
error. Under each key stand the values of its texts in their order, a key without texts is not
there, and there are as many values as texts. -/
theorem ofPairs_gathers (pairs : List Text) :
    (∀ pair, ofPairs pairs = .error pair ↔ pairs.find? (fun pair => '=' ∉ pair) = some pair) ∧
      ((∀ pair ∈ pairs, '=' ∈ pair) → ∃ args, ofPairs pairs = .ok args ∧ Gathers pairs args) := by
  have hall := Gathers.start.collectPairs pairs
  rw [List.nil_append] at hall
  constructor
  · intro pair
    cases hfind : pairs.find? fun pair => '=' ∉ pair with
    | none =>
      rw [hfind] at hall
      obtain ⟨args, hargs, -⟩ := hall
      simp [ofPairs, hargs]
    | some first =>
      rw [hfind] at hall
      simp [ofPairs, hall]
  · intro hmem
    have hfind : (pairs.find? fun pair => '=' ∉ pair) = none := by
      rw [List.find?_eq_none]
      intro pair hpair
      simpa using hmem pair hpair
    rw [hfind] at hall
    exact hall

/-- Keys that alternate, one of them empty, values that are empty or have an equals sign, and a key
that comes three times. -/
theorem ofPairs_gathers_tags :
    ∃ args, ofPairs ["tag=a".toList, "id=7".toList, "tag=b=c".toList, "=x".toList,
      "tag=".toList] = .ok args ∧
      args.get? "tag".toList = some (.list ["a".toList, "b=c".toList, []]) ∧
      args.get? "id".toList = some (.single "7".toList) ∧ args.get? [] = some (.single "x".toList) ∧
      args.get? "b".toList = none ∧ args.size = 5 := by
  obtain ⟨args, hargs, hgathers⟩ := (ofPairs_gathers
    ["tag=a".toList, "id=7".toList, "tag=b=c".toList, "=x".toList, "tag=".toList]).2 (by decide)
  exact ⟨args, hargs, hgathers.get? _, hgathers.get? _, hgathers.get? _, hgathers.get? _,
    hgathers.size⟩

end Signpost.Args
