import ConditionalForms.Proofs.Fill.Findings
import ConditionalForms.Proofs.Value.Fault

/-!
# Missing answers and empty ones

Two parts of a form ask whether an answer is there: the check of required answers, and the two
operators for emptiness.  The check counts the items of a list, while the operators look at the text
of the whole answer, where the items are joined by commas.

They come to the same for every answer but one: a list of a single item with a blank text.  It has an
item, and its text is blank.

**Definitions.**
* `Value.IsLoneBlank`: a list of one item with a blank text.

**Results.**
* `Field.isMissing_iff`: a missing answer is a blank one that is no such list.
* `Step.contextIn_eq_of_audience`: all steps about a participant look at the same answers.
* `Form.required_iff_isEmpty`: where the check of required answers agrees with the operators.
-/

namespace ConditionalForms

namespace Value

/-- A list of one item with a blank text. -/
def IsLoneBlank (v : Value) : Prop := ∃ item, v = .list [item] ∧ item.isBlank = .ok true

variable {v : Value} {text : String}

theorem isBlank_eq (h : v.answerText = .ok text) : v.isBlank = .ok (Text.isAllBlank text) := by
  rw [isBlank, h]
  rfl

/-- The text of a list of one item is that of the item. -/
theorem answerText_singleton (item : Value) : (list [item]).answerText = item.answerText := by
  simp only [answerText, answerTexts]
  cases item.answerText <;> rfl

theorem isBlank_singleton (item : Value) : (list [item]).isBlank = item.isBlank := by
  rw [isBlank, isBlank, answerText_singleton]

theorem IsLoneBlank.isBlank (h : v.IsLoneBlank) : v.isBlank = .ok true := by
  obtain ⟨item, rfl, hitem⟩ := h
  rw [isBlank_singleton, hitem]

/-- A comma stands between two items. -/
theorem isBlank_of_two {x y : Value} {rest : List Value}
    (h : (list (x :: y :: rest)).answerText = .ok text) :
    (list (x :: y :: rest)).isBlank = .ok false := by
  rw [isBlank_eq h]
  simp only [answerText, answerTexts, bind_eq_ok, pure_eq_ok] at h
  obtain ⟨_, ⟨s, -, _, ⟨t, -, others, -, rfl⟩, rfl⟩, rfl⟩ := h
  have hcomma : Text.isBlank ',' = false := by decide
  simp [String.intercalate_cons_cons, Text.isAllBlank, hcomma]

end Value

/-- A missing answer is a blank one, but not a list of one item with a blank text. -/
theorem Field.isMissing_iff {v : Value} {text : String} (h : v.answerText = .ok text) :
    isMissing v = .ok true ↔ v.isBlank = .ok true ∧ ¬ v.IsLoneBlank := by
  cases v with
  | list items =>
      rw [isMissing]
      rcases items with _ | ⟨item, _ | ⟨second, rest⟩⟩
      · refine iff_of_true rfl ⟨by decide +kernel, ?_⟩
        rintro ⟨_, ⟨⟩, _⟩
      · refine iff_of_false nofun ?_
        rintro ⟨hblank, hlone⟩
        exact hlone ⟨item, rfl, Value.isBlank_singleton item ▸ hblank⟩
      · refine iff_of_false nofun ?_
        rintro ⟨hblank, _⟩
        rw [Value.isBlank_of_two h] at hblank
        exact nomatch hblank
  | _ =>
      refine ⟨fun hmissing => ⟨hmissing, ?_⟩, And.left⟩
      rintro ⟨_, ⟨⟩, _⟩

namespace Step

variable {s t : Step} {sub : Submission} {participant : Option Nat}

/-- Steps that are about the same participant look at the same answers. -/
theorem contextIn_eq_of_audience (hs : participant ∈ s.audience sub) (ht : participant ∈ t.audience sub) :
    s.contextIn sub participant = t.contextIn sub participant := by
  have repeats {u : Step} {i : Nat} (hu : some i ∈ u.audience sub) : u.perParticipant = true := by
    by_contra hnot
    simp [audience, hnot] at hu
  cases participant with
  | none => rfl
  | some i => rw [contextIn, contextIn, if_pos (repeats hs), if_pos (repeats ht)]

theorem mem_failures_iff {name : String} {code : IssueCode} {i : Option Nat} :
    (name, code, i) ∈ s.failures sub participant ↔ i = participant ∧
      ∃ f ∈ s.fields, s.ShowsField (s.contextIn sub participant) f ∧ f.name = name ∧
        f.Fails ((s.contextIn sub participant).answers.get name) code := by
  have hall : code ∈ IssueCode.all := by cases code <;> decide
  simp only [failures, List.mem_flatMap, List.mem_map, mem_those, Prod.mk.injEq]
  constructor
  · rintro ⟨f, ⟨hf, hshows⟩, _, ⟨-, hfails⟩, rfl, rfl, rfl⟩
    exact ⟨rfl, f, hf, hshows, rfl, hfails⟩
  · rintro ⟨rfl, f, hf, hshows, rfl, hfails⟩
    exact ⟨f, ⟨hf, hshows⟩, code, ⟨hall, hfails⟩, rfl, rfl, rfl⟩

end Step

/-- A rule for an answer that is not empty asks the opposite of the other operator. -/
theorem Rule.holds_notEmpty {r : Rule} {ctx : Context} {v : Value} {blank : Bool}
    (hoperator : r.operator = .notEmpty) (hpath : Path.resolve r.path ctx = .ok v)
    (hblank : v.isBlank = .ok blank) : r.holds ctx = .ok !blank := by
  rw [holds, hpath, ok_bind, hoperator, Operator.apply, hblank]
  rfl

namespace Form

variable {form : Form} {sub : Submission} {found : List Issue} {s : Step} {f : Field}
  {participant : Option Nat} {text : String}

theorem mem_keys_iff (h : form.issues sub = .ok found) {name : String} {code : IssueCode} :
    (name, code, participant) ∈ found.map Issue.key ↔
      ∃ s ∈ form.steps, participant ∈ s.audience sub ∧ ∃ f ∈ s.fields,
        s.ShowsField (s.contextIn sub participant) f ∧ f.name = name ∧
          f.Fails ((s.contextIn sub participant).answers.get name) code := by
  simp only [Form.issues, bind_eq_ok, pure_eq_ok] at h
  obtain ⟨lists, hlists, rfl⟩ := h
  rw [map_flatten_of_mapM hlists fun s _ own hown => Step.keys_of_issues hown]
  simp only [List.mem_flatMap, Step.mem_failures_iff]
  constructor
  · rintro ⟨s, hs, _, hi, rfl, hfield⟩
    exact ⟨s, hs, hi, hfield⟩
  · rintro ⟨s, hs, hi, hfield⟩
    exact ⟨s, hs, participant, hi, rfl, hfield⟩

/-- A required field that is shown is reported as missing exactly if its answer is empty for the
operators, or, what is the same, if a rule for an answer that is not empty fails on it.  A list of
one item with a blank text is the one exception: it is empty, and not reported. -/
theorem required_iff_isEmpty (h : form.issues sub = .ok found) (hs : s ∈ form.steps)
    (hi : participant ∈ s.audience sub) (hf : f ∈ s.fields)
    (hshows : s.ShowsField (s.contextIn sub participant) f) (hrequired : f.required = true)
    {v : Value} (hv : (s.contextIn sub participant).answers.get f.name = v)
    (htext : v.answerText = .ok text) (right : Value) :
    (¬ v.IsLoneBlank → ((f.name, .required, participant) ∈ found.map Issue.key ↔
      Operator.isEmpty.apply v right = .ok true)) ∧
    (v.IsLoneBlank → (f.name, .required, participant) ∉ found.map Issue.key ∧
      Operator.isEmpty.apply v right = .ok true) ∧
    ∀ r : Rule, r.operator = .notEmpty →
      Path.resolve r.path (s.contextIn sub participant) = .ok v →
      (r.holds (s.contextIn sub participant) = .ok false ↔
        Operator.isEmpty.apply v right = .ok true) := by
  have hmissing : (f.name, .required, participant) ∈ found.map Issue.key ↔
      Field.isMissing v = .ok true := by
    rw [mem_keys_iff h]
    constructor
    · -- whatever step reports the name, it looks at the same answer
      rintro ⟨t, -, ht, _, -, -, -, hfails, -⟩
      rwa [← Step.contextIn_eq_of_audience hi ht, hv] at hfails
    · intro hmissing
      refine ⟨s, hs, hi, f, hf, hshows, rfl, ?_, hrequired⟩
      rwa [hv]
  rw [hmissing, Field.isMissing_iff htext]
  refine ⟨fun hlone => ?_, fun hlone => ⟨?_, hlone.isBlank⟩, fun r hoperator hpath => ?_⟩
  · exact and_iff_left hlone
  · exact fun hboth => hboth.2 hlone
  · rw [Rule.holds_notEmpty hoperator hpath (Value.isBlank_eq htext)]
    rw [Operator.apply, Value.isBlank_eq htext]
    simp

/-- A question that must be answered. -/
def noteField : Field := { Field.plain "f1" "note" "Note" with required := true, span := 1 }

/-- A step with the question. -/
def noteStep : Step := ⟨"s1", "s1", "Details", "", [noteField], false, 1, none⟩

/-- A form with the question. -/
def noteForm : Form := ⟨"Trip", "", "7", 1, [noteStep]⟩

/-- An answer to the question. -/
def noted (v : Value) : Submission := ⟨[], [], [("note", v)], []⟩

theorem showsField_noted (v : Value) :
    noteStep.ShowsField (noteStep.contextIn (noted v) none) noteField := ⟨rfl, rfl⟩

/-- A blank note is reported. -/
theorem required_noted :
    (∃ found, noteForm.issues (noted (.text " ")) = .ok found ∧
      ("note", .required, none) ∈ found.map Issue.key) ∧
    noteField.required = true ∧
    noteStep.ShowsField (noteStep.contextIn (noted (.text " ")) none) noteField ∧
    Operator.isEmpty.apply (.text " ") .null = .ok true := by
  have hissues : noteForm.issues (noted (.text " ")) =
      .ok [⟨"note", .required, "Note is required", none⟩] := by decide +kernel
  have hlone : ¬ (Value.text " ").IsLoneBlank := by
    rintro ⟨_, ⟨⟩, _⟩
  have hempty : Operator.isEmpty.apply (.text " ") .null = .ok true := by decide +kernel
  obtain ⟨hiff, -, -⟩ := required_iff_isEmpty (s := noteStep) (f := noteField) hissues
    List.mem_cons_self List.mem_cons_self List.mem_cons_self (showsField_noted _) rfl rfl rfl .null
  exact ⟨⟨_, hissues, (hiff hlone).mpr hempty⟩, rfl, showsField_noted _, hempty⟩

/-- The check of required answers and the operator do not agree on every answer. -/
theorem not_forall_required_iff_isEmpty :
    ¬ ∀ (form : Form) (sub : Submission) (found : List Issue) (s : Step) (i : Option Nat)
      (f : Field) (v : Value) (text : String), form.issues sub = .ok found → s ∈ form.steps →
      i ∈ s.audience sub → f ∈ s.fields → s.ShowsField (s.contextIn sub i) f →
      f.required = true → (s.contextIn sub i).answers.get f.name = v → v.answerText = .ok text →
      ((f.name, .required, i) ∈ found.map Issue.key ↔
        Operator.isEmpty.apply v .null = .ok true) := by
  intro h
  have hissues : noteForm.issues (noted (.list [.text ""])) = .ok [] := by decide +kernel
  have hiff := h noteForm (noted (.list [.text ""])) [] noteStep none noteField _ "" hissues
    List.mem_cons_self List.mem_cons_self List.mem_cons_self (showsField_noted _) rfl rfl rfl
  have hempty : Operator.isEmpty.apply (.list [.text ""]) .null = .ok true := by decide +kernel
  exact absurd (hiff.mpr hempty) List.not_mem_nil

end Form

end ConditionalForms
