import Signpost.Proofs.Regex.GroupBody
import Signpost.Proofs.Template.Decomposition

/-!
What the constraint of a placeholder comes to within the pattern of a path, whose literal text means
something in patterns too. Where the text in front of a placeholder is a row of complete parts that
leaves no mode switched on, a constraint that is a pattern on its own is one closed expression of
the path pattern. Unless it compares neighbours as parts of words, the argument accepts whatever is
captured for it. Main statement: `CompiledTemplate.captured_accepted`.
-/

namespace Signpost

namespace CompiledTemplate

open Regex

theorem flatMap_pathPiece_split (before after : List Token) (name : Text)
    (constraint : Option Text) :
    Pattern.whole ((before ++ .placeholder name constraint :: after).flatMap pathPiece) =
      "^(?:".toList ++ before.flatMap pathPiece ++
        namedGroup name (constraint.getD pathConstraint) ++
        (after.flatMap pathPiece ++ ")$".toList) := by
  simp only [Pattern.whole, List.flatMap_append, List.flatMap_cons, pathPiece, List.append_assoc]

variable {template action : Text} {c : CompiledTemplate} {before after : List Token} {name : Text}
  {constraint : Option Text} {r : Regex}

/-- The path pattern with another constraint for a placeholder is the path pattern with another body
in its group. -/
theorem withBody_of_readPath {other : Text} {whole whole' r' : Regex} {p q : Pattern}
    (hbefore : LeadsToGroup ("^(?:".toList ++ before.flatMap pathPiece)) (hname : '>' ∉ name)
    (hr : Regex.read? false (constraint.getD pathConstraint) = some r)
    (hwhole : Regex.read? false (Pattern.whole (constraint.getD pathConstraint)) = some whole)
    (hr' : Regex.read? false other = some r')
    (hwhole' : Regex.read? false (Pattern.whole other) = some whole')
    (hp : Pattern.read false (Pattern.whole
      ((before ++ .placeholder name constraint :: after).flatMap pathPiece)) = .ok p)
    (hq : Pattern.read false (Pattern.whole
      ((before ++ .placeholder name (some other) :: after).flatMap pathPiece)) =
      .ok q) :
    q.regex = p.regex.withBody name r' ∧ name ∉ r.groupNames := by
  obtain ⟨inner, hinner, rfl, -⟩ := nests_of_whole hr hwhole
  obtain ⟨inner', hinner', rfl, -⟩ := nests_of_whole hr' hwhole'
  rw [flatMap_pathPiece_split] at hp hq
  exact withBody_of_read? hbefore hname hinner hinner' (Pattern.read_eq_ok hp).1
    (Pattern.read_eq_ok hq).1

/-- In front of a placeholder whose constraint is a pattern on its own, the text of the path pattern
is a row of complete parts that leaves no mode switched on. Then the constraint is one closed
expression of the path pattern: any other such constraint in its place changes the body of its group
and nothing else. And if the constraint compares no neighbours as parts of words, whatever its group
captures in a match is a value that the argument accepts. -/
theorem captured_accepted (h : compile template action = .ok c)
    (htokens : tokenize c.path = before ++ .placeholder name constraint :: after)
    (hbefore : LeadsToGroup ("^(?:".toList ++ before.flatMap pathPiece))
    (hr : Regex.read? false (constraint.getD pathConstraint) = some r) :
    (r.wordFree = true → ∀ a ∈ c.arguments, a.name = name →
      ∀ path taken, c.pathPattern.captures? path = some taken →
      ∀ v, taken.get? name = some v → a.accepts v = true) ∧
    ∀ other b r', Argument.read name other = .ok b → Regex.read? false other = some r' →
      ∀ q,
        Pattern.read false (Pattern.whole
          ((before ++ .placeholder name (some other) :: after).flatMap pathPiece)) =
        .ok q → q.regex = c.pathPattern.regex.withBody name r' := by
  have hread := compile_readFrom h
  have hpattern := hread.pathPattern
  have hmem : Token.placeholder name constraint ∈ tokenize c.path := by
    rw [htokens]
    exact List.mem_append_right _ List.mem_cons_self
  have hname : '>' ∉ name := (isName_of_mem_tokenize hmem).angle_not_mem
  obtain ⟨a, ha, haname, hwhole⟩ :=
    hread.exists_pathArgument (hread.placeholders_eq ▸ mem_placeholders hmem)
  rw [htokens] at hpattern
  refine ⟨fun hfree b hb hbname path taken htaken v hv => ?_, fun other b r' hb hr' q hq => ?_⟩
  · obtain rfl := List.inj_on_of_nodup_map hread.nodup_names ha hb (haname.trans hbname.symm)
    -- with its own constraint put in once more, the pattern stays what it is
    have hsame : Pattern.read false (Pattern.whole
        ((before ++ .placeholder name (some (constraint.getD pathConstraint)) :: after).flatMap
          pathPiece)) =
          .ok c.pathPattern := by
      rw [flatMap_pathPiece_split] at hpattern ⊢
      exact hpattern
    obtain ⟨hbody, hfresh⟩ := withBody_of_readPath hbefore hname hr hwhole hr hwhole hpattern hsame
    obtain ⟨p, k, hway, rfl⟩ := exists_way_of_captures? htaken
    obtain ⟨q, l, hl, hpasses⟩ := hway.body_of_capture hbody.symm hfresh (mem_of_get? hv)
    obtain ⟨-, -, -, hanchored⟩ := nests_of_whole hr hwhole
    rw [Argument.accepts, Pattern.isMatch, hanchored]
    exact isMatch_of_way_of_wordFree hfree hl hpasses
  · exact (withBody_of_readPath hbefore hname hr hwhole hr' (Argument.read_eq_ok hb).2.2.1
      hpattern hq).1

/-- A constraint with an anchor, behind literal text that is a choice and a group that may be left
out. -/
theorem captured_accepted_behind_choice :
    ∃ c a,
      compile "/v(1|2)(/beta)?/{<[a-z]+$>id}".toList "show".toList = .ok c ∧ c.arguments = [a] ∧
      c.pathPattern.captures? "/v2/beta/abc".toList = some [("id".toList, "abc".toList)] ∧
      a.accepts "abc".toList = true ∧
      ∃ q, Pattern.read false (Pattern.whole "/v(1|2)(/beta)?/(?P<id>x*)".toList) = .ok q ∧
        q.regex = c.pathPattern.regex.withBody "id".toList
          (.repeated (.set (.single 'x')) 0 none true) := by
  have hcompiles :
      (compile "/v(1|2)(/beta)?/{<[a-z]+$>id}".toList "show".toList).toOption.any (fun c =>
      c.arguments.map (·.name) == ["id".toList] && decide (
        tokenize c.path = [.literal "/v(1|2)(/beta)?/".toList] ++
          [.placeholder "id".toList (some "[a-z]+$".toList)] ∧
        c.pathPattern.captures? "/v2/beta/abc".toList =
          some [("id".toList, "abc".toList)])) = true := by
    decide +kernel
  obtain ⟨c, hc, hchecked⟩ := Except.exists_of_any hcompiles
  obtain ⟨hnames, hchecked⟩ := Bool.and_eq_true_iff.mp hchecked
  obtain ⟨htokens, htaken⟩ := of_decide_eq_true hchecked
  obtain ⟨a, harguments, hname⟩ := List.map_eq_singleton_iff.mp (eq_of_beq hnames)
  have hbefore :
      LeadsToGroup ("^(?:".toList ++ [Token.literal "/v(1|2)(/beta)?/".toList].flatMap pathPiece) :=
    ⟨18, _, fun _ => rfl, rfl⟩
  have hown : ((Regex.read? false "[a-z]+$".toList).any Regex.wordFree) = true := by decide +kernel
  obtain ⟨r, hr, hfree⟩ := (Option.any_eq_true _ _).mp hown
  have hother : (Argument.read "id".toList "x*".toList).toOption.any
      (·.accepts "xx".toList) = true := by decide +kernel
  have hread : (Pattern.read false (Pattern.whole "/v(1|2)(/beta)?/(?P<id>x*)".toList)).toOption.any
      (·.isMatch "/v1/xx".toList) = true := by decide +kernel
  obtain ⟨b, hb, -⟩ := Except.exists_of_any hother
  obtain ⟨q, hq, -⟩ := Except.exists_of_any hread
  obtain ⟨haccepted, hbody⟩ := captured_accepted hc htokens hbefore hr
  refine ⟨c, a, hc, harguments, htaken, ?_, q, hq, hbody "x*".toList b _ hb ?_ q hq⟩
  · exact haccepted hfree a (harguments ▸ List.mem_singleton.mpr rfl) hname _ _ htaken _ rfl
  · decide +kernel

/-- The path pattern captures a value in the path that the argument for it does not accept. -/
def LetsThrough (template path : Text) : Prop :=
  ∃ c a taken v, compile template "show".toList = .ok c ∧ a ∈ c.arguments ∧ a.isHost = false ∧
    c.pathPattern.captures? path = some taken ∧ taken.get? a.name = some v ∧ a.accepts v = false

theorem letsThrough_of_any {path : Text}
    (h : (compile template "show".toList).toOption.any (fun c =>
    c.arguments.any fun a => !a.isHost &&
      (c.pathPattern.captures? path).any fun taken => (taken.get? a.name).any fun v =>
        !a.accepts v) = true) :
    LetsThrough template path := by
  obtain ⟨c, hc, hchecked⟩ := Except.exists_of_any h
  obtain ⟨a, ha, hchecked⟩ := List.any_eq_true.mp hchecked
  obtain ⟨hhost, hchecked⟩ := Bool.and_eq_true_iff.mp hchecked
  obtain ⟨taken, htaken, hchecked⟩ := (Option.any_eq_true _ _).mp hchecked
  obtain ⟨v, hv, haccepts⟩ := (Option.any_eq_true _ _).mp hchecked
  exact ⟨c, a, taken, v, hc, ha, by simpa using hhost, htaken, hv, by simpa using haccepts⟩

/-- Literal text in front of a placeholder that ignores case from there on, and a constraint that
holds between letters only. -/
theorem captured_not_accepted :
    LetsThrough "/(?i){<[a-z]+>x}".toList "/A".toList ∧
      LetsThrough "/x\x7b<\\Bfoo>x\x7d".toList "/xfoo".toList :=
  ⟨letsThrough_of_any (by decide +kernel), letsThrough_of_any (by decide +kernel)⟩

end CompiledTemplate

end Signpost
