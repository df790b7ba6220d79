import ConditionalForms.Proofs.Author.Sound
import ConditionalForms.Proofs.Rule.Name

/-!
# Names that authors can refer to

Every form that is authored starts empty and comes about edit by edit.  The names that its fields are
given are slugs, so they have neither dots nor blanks, and a rule can point at the answer of a field
by its name.  No name is reserved, though: a field may be called like a root, and then its name has
to stand behind the root of the answers.

**Definitions.**
* `Form.IsAuthored`: a form that comes of the empty one by edits.

**Results.**
* `Form.IsAuthored.isSound`, `Form.IsAuthored.run`: authored forms are sound and stay authored.
* `Form.IsAuthored.points_at_answer`: which paths point at the answer of a field.
-/

namespace ConditionalForms

/-- The forms that come of the empty one by edits, whatever identifiers these take. -/
inductive Form.IsAuthored : Form → Prop where
  | empty : IsAuthored .empty
  | edit {form new : Form} {id : String} {e : Edit} (before : form.IsAuthored)
      (made : form.edit id e = .ok new) : IsAuthored new

theorem Name.IsSlug.isBareName {name : String} (h : Name.IsSlug name) : Path.IsBareName name := by
  refine ⟨h.1, h.trim_eq, fun hdot => ?_⟩
  have hslug := h.2 '.' hdot
  contradiction

theorem Root.ofName?_eq_none_iff {name : String} :
    Root.ofName? name = none ↔ name ∉ ["guardian", "participant", "answers"] := by
  unfold Root.ofName?
  grind

namespace Form.IsAuthored

variable {form : Form} {f : Field}

/-- Authored forms are sound, as every edit leaves a form sound. -/
theorem isSound (h : form.IsAuthored) : form.IsSound := by
  induction h with
  | empty => exact IsSound.empty
  | edit _ made ih => exact ih.edit made

theorem perform {d : Draft} (h : d.form.IsAuthored) (e : Edit) :
    (d.perform e).1.form.IsAuthored := by
  unfold Draft.perform
  cases hnew : d.form.edit (Draft.idText e.idStem (d.issuedAfter e)) e with
  | ok form => exact h.edit hnew
  | error fault => exact h

/-- Whatever edits are tried in turn, and whichever of them fail, the form stays authored. -/
theorem run {d : Draft} (h : d.form.IsAuthored) (edits : List Edit) :
    (d.run edits).form.IsAuthored := by
  induction edits generalizing d with
  | nil => exact h
  | cons e edits ih => exact ih (h.perform e)

theorem isBareName (h : form.IsAuthored) (hf : f ∈ form.fields) : Path.IsBareName f.name := by
  obtain ⟨s, hs, hfs⟩ := List.mem_flatMap.mp hf
  exact ((h.isSound.steps s hs).fields f hfs).named.isBareName

/-- The name of a field points at its answer behind the root of the answers, and also by itself
unless it is the name of a root.  In that case it leads to what the context holds at the root. -/
theorem points_at_answer (h : form.IsAuthored) (hf : f ∈ form.fields) :
    Path.PointsAt ("answers." ++ f.name) f.name ∧
      (Path.PointsAt f.name f.name ↔ f.name ∉ ["guardian", "participant", "answers"]) ∧
      ∀ root : Root, Root.ofName? f.name = some root →
        (∀ ctx : Context, Path.resolve f.name ctx = .ok (ctx.atRoot root)) ∧
          Path.referencedField? f.name = none := by
  have hname := h.isBareName hf
  refine ⟨hname.pointsAt_behind_answers, ?_, fun root hroot => hname.resolve_of_root hroot⟩
  rw [hname.pointsAt_self_iff]
  exact Root.ofName?_eq_none_iff

end Form.IsAuthored

namespace Form

/-- A page that asks for the guardian and the name of the school. -/
def twoQuestions : List Edit :=
  [.addStep ⟨"Who", "", false, .null, none, none⟩,
    .addField 0 "Guardian" "text" [],
    .addField 0 "School Name" "text" []]

theorem fieldNames_twoQuestions :
    (Draft.run ⟨.empty, 0⟩ twoQuestions).form.fieldNames = ["guardian", "school-name"] := by
  decide +kernel

theorem points_at_answer_twoQuestions :
    (Draft.run ⟨.empty, 0⟩ twoQuestions).form.IsAuthored ∧
      ∃ f ∈ (Draft.run ⟨.empty, 0⟩ twoQuestions).form.fields, f.name = "school-name" ∧
        Path.PointsAt ("answers." ++ f.name) f.name ∧ Path.PointsAt f.name f.name := by
  have hauthored : (Draft.run ⟨.empty, 0⟩ twoQuestions).form.IsAuthored :=
    IsAuthored.run .empty twoQuestions
  have hmem : "school-name" ∈ (Draft.run ⟨.empty, 0⟩ twoQuestions).form.fieldNames := by
    rw [fieldNames_twoQuestions]
    exact List.mem_cons_of_mem _ List.mem_cons_self
  obtain ⟨f, hf, hname⟩ := List.mem_map.mp hmem
  obtain ⟨hbehind, hself, _⟩ := IsAuthored.points_at_answer hauthored hf
  exact ⟨hauthored, f, hf, hname, hbehind, hself.mpr (by rw [hname]; decide)⟩

/-- Not every name that a field is given points at its answer by itself: the label of a field may
have the name of a root as its slug. -/
theorem not_forall_name_points_at_answer :
    ¬ ∀ (form : Form) (f : Field), form.IsAuthored → f ∈ form.fields →
      Path.PointsAt f.name f.name ∧ Path.PointsAt ("answers." ++ f.name) f.name := by
  intro hall
  have hmem : "guardian" ∈ (Draft.run ⟨.empty, 0⟩ twoQuestions).form.fieldNames := by
    rw [fieldNames_twoQuestions]
    exact List.mem_cons_self
  obtain ⟨f, hf, hname⟩ := List.mem_map.mp hmem
  obtain ⟨hself, _⟩ := hall _ f (IsAuthored.run .empty twoQuestions) hf
  have hreference : Path.referencedField? "guardian" = some "guardian" := by
    rw [← hname]
    exact hself.reference_eq
  have hnone : Path.referencedField? "guardian" = none := by decide +kernel
  rw [hnone] at hreference
  contradiction

end Form

end ConditionalForms
