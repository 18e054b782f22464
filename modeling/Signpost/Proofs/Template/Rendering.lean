import Signpost.Proofs.Template.PlainPath

/-!
What a template renders when the value of one argument changes. No two arguments have one name, so
the value stands in one place, in the host or in the path, and the text around that place does not
depend on it. Main statements: `CompiledTemplate.ReadFrom.names_eq` and
`CompiledTemplate.exists_renderPath_insert`.
-/

namespace Signpost

@[simp]
theorem placeholders_append (xs ys : List Token) :
    placeholders (xs ++ ys) = placeholders xs ++ placeholders ys := by
  induction xs with
  | nil => rfl
  | cons token xs ih =>
    cases token with
    | literal t => exact ih
    | placeholder name constraint => exact congrArg (List.cons _) ih

namespace CompiledTemplate

variable {template action : Text} {c : CompiledTemplate} {values : TextMap Text} {name : Text}

theorem map_name_of_reads {ps : List (Text × Text)} {more : List Argument}
    (h : List.Forall₂ (fun p a => Argument.read p.1 p.2 = .ok a) ps more) :
    more.map (·.name) = ps.map (·.1) := by
  induction h with
  | nil => rfl
  | cons hread _ ih => rw [List.map_cons, List.map_cons, ih, (Argument.read_eq_ok hread).1]

/-- The arguments are named by the placeholder of the host, if it has one, and then by those of the
path. -/
theorem ReadFrom.names_eq (h : c.ReadFrom template action) :
    c.arguments.map (·.name) =
      c.host.placeholder.toList ++ (placeholders c.pathTokens).map (·.1) := by
  obtain ⟨known, more, hknown, hmore, harguments⟩ := h.arguments_eq
  rw [harguments, List.map_map, ← map_name_of_reads hmore, ← hostArguments_names hknown,
    ← List.map_append]
  rfl

theorem ReadFrom.name_mem_iff (h : c.ReadFrom template action) :
    name ∈ c.arguments.map (·.name) ↔
      c.host.placeholder = some name ∨ name ∈ (placeholders c.pathTokens).map (·.1) := by
  rw [h.names_eq, List.mem_append, Option.mem_toList]

theorem renderHost_insert (c : CompiledTemplate) (values : TextMap Text) (name value : Text) :
    c.renderHost (values.insert name value) =
      if c.host.placeholder = some name then c.host.before ++ Url.encodeValue value ++ c.host.after
      else c.renderHost values := by
  unfold renderHost HostTemplate.render
  cases c.host.placeholder with
  | none => rfl
  | some other =>
    by_cases hname : other = name
    · simp [hname]
    · simp [hname]

theorem renderPath_insert_of_not_mem (h : name ∉ (placeholders c.pathTokens).map (·.1))
    (value : Text) :
    c.renderPath (values.insert name value) = c.renderPath values := by
  refine renderPath_congr fun p hp => ?_
  have hne : p.1 ≠ name := by
    rintro rfl
    exact h (List.mem_map_of_mem hp)
  simp [hne]

/-- The value of an argument of the path stands in one place of it. -/
theorem exists_renderPath_insert (hnodup : ((placeholders c.pathTokens).map (·.1)).Nodup)
    (h : name ∈ (placeholders c.pathTokens).map (·.1)) (values : TextMap Text) :
    ∃ before after, ∀ value,
      c.renderPath (values.insert name value) = before ++ Url.encodeValue value ++ after := by
  obtain ⟨p, hp, rfl⟩ := List.mem_map.mp h
  obtain ⟨constraint, hmem, -⟩ := exists_mem_of_mem_placeholders hp
  obtain ⟨front, back, hsplit⟩ := List.append_of_mem hmem
  have hnames : placeholders c.pathTokens =
      placeholders front ++ (p.1, constraint.getD pathConstraint) :: placeholders back := by
    rw [hsplit, placeholders_append]
    rfl
  rw [hnames, List.map_append, List.map_cons] at hnodup
  have hothers := (List.nodup_cons.mp (List.nodup_middle.mp hnodup)).1
  rw [List.mem_append, not_or] at hothers
  obtain ⟨hfront, hback⟩ := hothers
  refine ⟨{ c with pathTokens := front }.renderPath values,
    { c with pathTokens := back }.renderPath values,
    fun value => ?_⟩
  have hpieces : c.renderPath (values.insert p.1 value) =
      { c with pathTokens := front }.renderPath (values.insert p.1 value) ++
        (Url.encodeValue value ++
        { c with pathTokens := back }.renderPath (values.insert p.1 value)) := by
    unfold renderPath
    rw [hsplit, List.flatMap_append, List.flatMap_cons]
    simp
  rw [hpieces, renderPath_insert_of_not_mem hfront, renderPath_insert_of_not_mem hback,
    List.append_assoc]

end CompiledTemplate

end Signpost
