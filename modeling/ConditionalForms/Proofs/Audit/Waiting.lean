import ConditionalForms.Proofs.Audit.WellFounded

/-!
# Fields that wait for each other

A field waits for another one if one of its rules points at the answer of the other.  Where fields
wait for each other in a circle, none of them can come first.  The report names such a circle
exactly if there is one.

**Definitions.**
* `Form.WaitsFor`: a field with the first name waits for another field, which has the second name.
* `Form.IsCircle`: names of at least two fields each of which waits for the next one, in a circle.

**Results.**
* `Form.isCircle_of_isCycle`: a cycle of the edges between fields is a circle.
* `Form.cycle_iff_exists_waiting`: the report names a circle exactly if a field waits for itself
  over others.
-/

namespace ConditionalForms
namespace Form

open Relation (TransGen)

variable {form : Form} {names : List String}

/-- A field with the first name has a rule that points at another name, which a field has. -/
def WaitsFor (form : Form) (a b : String) : Prop := form.DependsOn a b ∧ b ≠ a

/-- Names of fields each of which waits for the next one.  The last name is the first one again, and
there is no other repetition. -/
structure IsCircle (form : Form) (names : List String) : Prop where
  long : 3 ≤ names.length
  closed : names.head? = names.getLast?
  distinct : names.dropLast.Nodup
  chain : List.IsChain form.WaitsFor names

/-- The edges between fields say which field waits for which. -/
theorem leads_eq_waitsFor (form : Form) : form.dependencies.Leads = form.WaitsFor := by
  funext a b
  refine propext ?_
  rw [Edges.Leads, leads_dependencies_iff]
  constructor
  · rintro ⟨f, hf, hname, hb, hne, hmem⟩
    exact ⟨⟨f, hf, hname, hb, hmem⟩, hne⟩
  · rintro ⟨⟨f, hf, hname, hb, hmem⟩, hne⟩
    exact ⟨f, hf, hname, hb, hne, hmem⟩

/-- A cycle of the edges between fields is a circle: it has more than one name, since no field waits
for itself alone. -/
theorem isCircle_of_isCycle (h : form.dependencies.IsCycle names) : form.IsCircle names := by
  obtain ⟨hdistinct, hchain⟩ := h
  rename_i v vs
  rw [leads_eq_waitsFor] at hchain
  refine ⟨?_, ?_, ?_, hchain⟩
  · cases vs with
    | nil =>
        obtain ⟨-, hne⟩ := List.isChain_pair.mp hchain
        exact absurd rfl hne
    | cons w vs => simp
  · rw [List.getLast?_concat]
    rfl
  · rwa [List.dropLast_concat]

/-- The report names a cycle exactly if some field waits for itself over others, and what it names
is a circle of such fields. -/
theorem cycle_iff_exists_waiting (form : Form) :
    (form.report.cycle.isSome = true ↔ ∃ a, TransGen form.WaitsFor a a) ∧
      ∀ names, form.report.cycle = some names → form.IsCircle names := by
  have hreport : form.report.cycle = form.dependencies.findCycle? := rfl
  rw [hreport]
  constructor
  · have hnone : form.dependencies.findCycle? = none ↔ ∀ a, ¬ TransGen form.WaitsFor a a := by
      rw [Edges.findCycle?_eq_none_iff, leads_eq_waitsFor]
    rw [Option.isSome_iff_ne_none, ne_eq, hnone, not_forall_not]
  · intro names hnames
    exact isCircle_of_isCycle (Edges.isCycle_of_findCycle? hnames)

/-- A form on one page that asks for the lunch when the day is known, for the day when the club is
known, and for the club when the day is known. -/
def clubForm : Form :=
  { name := "Club", description := "", program := "7", columns := 1
    steps :=
      [{ id := "club", key := "club", title := "Club", description := "", perParticipant := false
         columns := 1, logic := none
         fields :=
          [{ Field.plain "f-lunch" "lunch" "Lunch" with
              logic := some ⟨.all, [⟨"answers.day", .notEmpty, .null⟩]⟩ },
           { Field.plain "f-day" "day" "Day" with
              logic := some ⟨.any, [⟨"club", .notEmpty, .null⟩, ⟨"club", .equals, .text "chess"⟩]⟩ },
           { Field.plain "f-club" "club" "Club" with
              logic := some ⟨.all, [⟨"day", .notEmpty, .null⟩]⟩ }] }] }

theorem isCircle_clubForm :
    clubForm.report.cycle = some ["day", "club", "day"] ∧
      clubForm.IsCircle ["day", "club", "day"] ∧ ∃ a, TransGen clubForm.WaitsFor a a := by
  have hcycle : clubForm.report.cycle = some ["day", "club", "day"] := rfl
  obtain ⟨hiff, hcircle⟩ := cycle_iff_exists_waiting clubForm
  refine ⟨hcycle, hcircle _ hcycle, hiff.mp ?_⟩
  rw [hcycle]
  rfl

end Form

end ConditionalForms
