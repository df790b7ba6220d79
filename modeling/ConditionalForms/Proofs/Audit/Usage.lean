import ConditionalForms.Proofs.Audit.Report
import ConditionalForms.Proofs.Rule.Reference

/-!
# What rules are counted under

The report counts every rule under the name that its path points at, which is one segment of the
trimmed path.  Evaluation looks at the answers under the whole path first, as it is written, before
it goes along the segments.  So the two agree on a path that is the name of a field only if the name
is one segment without blanks at its ends.

**Definitions.**
* `Path.IsBareName`: a path of one segment that is trimmed and not empty.
* `Form.rules`: the rules of all steps and fields.
* `Form.referenceCount`: how many rules point at a name.

**Results.**
* `Path.referencedField?_eq_self_iff`: a path that starts at the answers points at itself exactly if
  it is a bare name.
* `Form.mem_usage_iff`: the report holds a count for every name that some rule points at.
* `Form.usage_of_named_rule`: what the report says about a rule whose path is the name of a field.
-/

namespace ConditionalForms

theorem Text.mem_of_mem_dropEndWhile {p : Char → Bool} {c : Char} :
    ∀ {cs : List Char}, c ∈ dropEndWhile p cs → c ∈ cs
  | [], h => h
  | d :: cs, h => by
      rw [dropEndWhile] at h
      split at h
      · split at h
        · exact absurd h List.not_mem_nil
        · exact List.mem_cons.mpr (Or.inl (List.mem_singleton.mp h))
      · rcases List.mem_cons.mp h with rfl | h
        · exact List.mem_cons_self
        · exact List.mem_cons_of_mem _ (mem_of_mem_dropEndWhile h)

theorem Text.mem_of_mem_trim {s : String} {c : Char} (h : c ∈ (trim s).toList) :
    c ∈ s.toList := by
  rw [trim, trimList, String.toList_ofList] at h
  exact (List.dropWhile_sublist _).mem (mem_of_mem_dropEndWhile h)

namespace Path

variable {path name : String}

/-- A path of one segment that is trimmed and not empty. -/
structure IsBareName (path : String) : Prop where
  ne : path ≠ ""
  trim : Text.trim path = path
  noDot : '.' ∉ path.toList

theorem notMem_of_mem_splitList {separator : Char} {part : List Char} :
    ∀ {cs : List Char}, part ∈ splitList separator cs → separator ∉ part
  | [], h => by
      rw [List.mem_singleton.mp h]
      exact List.not_mem_nil
  | c :: cs, h => by
      have ih : ∀ part ∈ splitList separator cs, separator ∉ part :=
        fun _ hpart => notMem_of_mem_splitList hpart
      rw [splitList] at h
      split at h
      · rcases List.mem_cons.mp h with rfl | h
        · exact List.not_mem_nil
        · exact ih _ h
      · rename_i hc
        split at h
        · rename_i first rest hsplit
          rw [hsplit] at ih
          rcases List.mem_cons.mp h with rfl | h
          · rw [List.mem_cons, not_or]
            exact ⟨fun e => hc e.symm, ih first List.mem_cons_self⟩
          · exact ih _ (List.mem_cons_of_mem _ h)
        · rw [List.mem_singleton.mp h, List.mem_singleton]
          exact fun e => hc e.symm

theorem dot_notMem_of_mem_segments (h : name ∈ segments path) : '.' ∉ name.toList := by
  obtain ⟨part, hpart, rfl⟩ := List.mem_map.mp h
  rw [String.toList_ofList]
  exact notMem_of_mem_splitList hpart

/-- A path points at the first segment of the trimmed path, or at the second one behind the root of
the answers. -/
theorem referencedField?_cases (h : referencedField? path = some name) :
    name ≠ "" ∧ ∃ first rest, segments (Text.trim path) = first :: rest ∧
      (Root.ofName? first = none ∧ name = first ∨
        Root.ofName? first = some .answers ∧ rest.head? = some name) := by
  obtain ⟨first, rest, hsegments⟩ := exists_segments_eq (Text.trim path)
  rw [referencedField?, hsegments] at h
  cases hroot : Root.ofName? first with
  | none =>
      simp only [hroot, Option.ite_none_left_eq_some, Option.some.injEq] at h
      obtain ⟨hne, rfl⟩ := h
      exact ⟨hne, first, rest, hsegments, Or.inl ⟨hroot, rfl⟩⟩
  | some root => cases root with
    | guardian => simp [hroot] at h
    | participant => simp [hroot] at h
    | answers => cases rest with
      | nil => simp [hroot] at h
      | cons second tail =>
          simp only [hroot, List.head?_cons, Option.getD_some, Option.ite_none_left_eq_some,
            Option.some.injEq] at h
          obtain ⟨hne, rfl⟩ := h
          exact ⟨hne, first, second :: tail, hsegments, Or.inr ⟨hroot, rfl⟩⟩

theorem dot_notMem_of_referencedField? (h : referencedField? path = some name) :
    '.' ∉ name.toList := by
  obtain ⟨-, first, rest, hsegments, hcases⟩ := referencedField?_cases h
  have hmem : name ∈ segments (Text.trim path) := by
    rw [hsegments]
    rcases hcases with ⟨-, rfl⟩ | ⟨-, hhead⟩
    · exact List.mem_cons_self
    · exact List.mem_cons_of_mem _ (List.mem_of_head? hhead)
  exact dot_notMem_of_mem_segments hmem

/-- A path that starts at the answers points at itself exactly if it is a bare name. -/
theorem referencedField?_eq_self_iff (hroot : root? path = none) :
    referencedField? path = some path ↔ IsBareName path := by
  constructor
  · intro h
    have hdot := dot_notMem_of_referencedField? h
    have hone : segments (Text.trim path) = [Text.trim path] :=
      segments_of_notMem fun hmem => hdot (Text.mem_of_mem_trim hmem)
    obtain ⟨hne, first, rest, hsegments, hcases⟩ := referencedField?_cases h
    rw [hone] at hsegments
    obtain ⟨rfl, rfl⟩ := List.cons.inj hsegments
    rcases hcases with ⟨-, htrim⟩ | ⟨-, hhead⟩
    · exact ⟨hne, htrim.symm, hdot⟩
    · contradiction
  · intro h
    have hone : segments path = [path] := segments_of_notMem h.noDot
    rw [root?, hone, List.head?_cons, Option.bind_some] at hroot
    simp [referencedField?, h.trim, hone, hroot, h.ne]

/-- Evaluation finds the answer that the whole path names. -/
theorem resolve_of_get? {ctx : Context} {v : Value} (hroot : root? path = none) (hne : path ≠ "")
    (hv : ctx.answers.get? path = some v) : resolve path ctx = .ok v := by
  obtain ⟨first, rest, hsegments⟩ := exists_segments_eq path
  rw [root?, hsegments, List.head?_cons, Option.bind_some] at hroot
  rw [resolve, if_neg hne, hsegments]
  simp only [hroot, hv]

end Path

theorem mem_countNames_iff {names : List String} {name : String} {n : Nat} :
    (name, n) ∈ countNames names ↔ n = names.count name ∧ 0 < n := by
  simp only [countNames, List.mem_map, List.mem_eraseDups, Prod.mk.injEq]
  constructor
  · rintro ⟨_, hmem, rfl, rfl⟩
    exact ⟨rfl, List.count_pos_iff.mpr hmem⟩
  · rintro ⟨rfl, hpos⟩
    exact ⟨name, List.count_pos_iff.mp hpos, rfl, rfl⟩

namespace Form

variable {form : Form} {r : Rule} {name : String} {n : Nat}

/-- The rules of the steps and of the fields. -/
def rules (form : Form) : List Rule := form.ruleLists.flatten

/-- How many rules point at the answer of a name. -/
def referenceCount (form : Form) (name : String) : Nat :=
  form.rules.countP fun r => Path.referencedField? r.path = some name

theorem map_placedSteps (form : Form) : form.placedSteps.map Prod.snd = form.steps := by
  simp [placedSteps, Function.comp_def, List.zipIdx_map_fst]

theorem map_stepReferences (form : Form) :
    form.stepReferences.map (·.2.2) = form.steps.flatMap fun s => referencesOf s.logic := by
  rw [← map_placedSteps form, List.flatMap_map, stepReferences, List.map_flatMap]
  simp [Function.comp_def]

theorem map_fieldReferences (form : Form) :
    form.fieldReferences.map (·.2.2) = form.fields.flatMap fun f => referencesOf f.logic := by
  have hfields : form.placedFields.map (·.2.2) = form.fields := by
    rw [fields, ← map_placedSteps form, List.flatMap_map, placedFields, List.map_flatMap]
    simp [Function.comp_def]
  rw [← hfields, List.flatMap_map, fieldReferences, List.map_flatMap]
  simp [Function.comp_def]

/-- The report counts the names that the rules point at, in their order. -/
theorem usage_eq (form : Form) :
    form.report.usage =
      countNames (form.rules.filterMap fun r => Path.referencedField? r.path) := by
  have husage : form.report.usage =
      countNames (form.stepReferences.map (·.2.2) ++ form.fieldReferences.map (·.2.2)) := rfl
  rw [husage, map_stepReferences, map_fieldReferences]
  simp [rules, ruleLists, referencesOf, List.filterMap_flatten, List.flatMap_def, Function.comp_def]

/-- The report holds a count for every name that some rule points at, and for no other. -/
theorem mem_usage_iff :
    (name, n) ∈ form.report.usage ↔ n = form.referenceCount name ∧ 0 < n := by
  have hcount : (form.rules.filterMap fun r => Path.referencedField? r.path).count name =
      form.referenceCount name := by
    rw [List.count, List.countP_filterMap, referenceCount]
    refine List.countP_congr fun r _ => ?_
    cases Path.referencedField? r.path <;> simp
  rw [usage_eq, mem_countNames_iff, hcount]

theorem referenceCount_pos (hr : r ∈ form.rules)
    (hname : Path.referencedField? r.path = some name) : 0 < form.referenceCount name :=
  List.countP_pos_iff.mpr ⟨r, hr, by simpa using hname⟩

theorem refersTo_of_mem_rules (hr : r ∈ form.rules)
    (hname : Path.referencedField? r.path = some name) : form.RefersTo name := by
  have hmem : name ∈ form.rules.filterMap fun r => Path.referencedField? r.path :=
    List.mem_filterMap.mpr ⟨r, hr, hname⟩
  simpa [rules, ruleLists, referencesOf, RefersTo] using hmem

/-- A rule whose path starts at the answers and is the name of a field reads the answer of that
field.  It is counted under the name, which does not dangle, if the name is a bare one.  Otherwise
it is not: what is counted in its place is another name, which dangles unless a field has it too,
and nothing at all is counted under a name with a dot. -/
theorem usage_of_named_rule (hr : r ∈ form.rules) (hroot : Path.root? r.path = none)
    (hname : r.path ∈ form.fieldNames) :
    (r.path ≠ "" → ∀ (ctx : Context) v, ctx.answers.get? r.path = some v →
      Path.resolve r.path ctx = .ok v) ∧
    (Path.IsBareName r.path → Path.referencedField? r.path = some r.path ∧
      (r.path, form.referenceCount r.path) ∈ form.report.usage ∧
      r.path ∉ form.report.dangling) ∧
    (¬ Path.IsBareName r.path → ∀ name, Path.referencedField? r.path = some name →
      name ≠ r.path ∧ (name, form.referenceCount name) ∈ form.report.usage ∧
      (name ∈ form.report.dangling ↔ name ∉ form.fieldNames)) ∧
    ('.' ∈ r.path.toList → ∀ n, (r.path, n) ∉ form.report.usage) := by
  have hcounted : ∀ name, Path.referencedField? r.path = some name →
      (name, form.referenceCount name) ∈ form.report.usage := by
    intro name h
    exact mem_usage_iff.mpr ⟨rfl, referenceCount_pos hr h⟩
  have hself := Path.referencedField?_eq_self_iff hroot
  refine ⟨?_, ?_, ?_, ?_⟩
  · intro hne ctx v hv
    exact Path.resolve_of_get? hroot hne hv
  · intro hbare
    have hpath := hself.mpr hbare
    refine ⟨hpath, hcounted _ hpath, ?_⟩
    intro hdangling
    exact (mem_dangling_iff.mp hdangling).2 hname
  · intro hbare name h
    refine ⟨?_, hcounted name h, ?_⟩
    · rintro rfl
      exact hbare (hself.mp h)
    · rw [mem_dangling_iff, and_iff_right (refersTo_of_mem_rules hr h)]
  · intro hdot n hmem
    obtain ⟨hn, hpos⟩ := mem_usage_iff.mp hmem
    rw [hn] at hpos
    obtain ⟨q, -, hq⟩ := List.countP_pos_iff.mp hpos
    exact Path.dot_notMem_of_referencedField? (by simpa using hq) hdot

/-- The rule of the second field of `elmParkForm`. -/
def isElmPark : Rule := ⟨"school.name", .equals, .text "Elm Park"⟩

/-- A form that asks those at one school whether they come by bus.  The name of its first field has
a dot. -/
def elmParkForm : Form :=
  { name := "Bus", description := "", program := "7", columns := 1
    steps :=
      [{ id := "school", key := "school", title := "School", description := ""
         perParticipant := false, columns := 1, logic := none
         fields :=
          [Field.plain "f-school" "school.name" "School",
           { Field.plain "f-bus" "bus" "By bus" with logic := some ⟨.all, [isElmPark]⟩ }] }] }

theorem dangling_elmParkForm : elmParkForm.report.dangling = ["school"] := by decide +kernel

theorem root?_isElmPark : Path.root? isElmPark.path = none := rfl

theorem referencedField?_isElmPark : Path.referencedField? isElmPark.path = some "school" := rfl

theorem mem_rules_elmParkForm : isElmPark ∈ elmParkForm.rules := by
  simp [rules, ruleLists, elmParkForm, rulesOf, fields]

/-- The rule about the school is counted under a name that no field has. -/
theorem usage_elmParkForm :
    isElmPark ∈ elmParkForm.rules ∧ Path.root? isElmPark.path = none ∧
      isElmPark.path ∈ elmParkForm.fieldNames ∧
      ("school", elmParkForm.referenceCount "school") ∈ elmParkForm.report.usage ∧
      "school" ∈ elmParkForm.report.dangling ∧
      ∀ n, (isElmPark.path, n) ∉ elmParkForm.report.usage := by
  have hname : isElmPark.path ∈ elmParkForm.fieldNames := List.mem_cons_self
  have hdot : '.' ∈ isElmPark.path.toList := by decide
  obtain ⟨-, -, hother, hnever⟩ :=
    usage_of_named_rule mem_rules_elmParkForm root?_isElmPark hname
  obtain ⟨-, hcounted, hdangling⟩ :=
    hother (fun hbare => hbare.noDot hdot) "school" referencedField?_isElmPark
  exact ⟨mem_rules_elmParkForm, root?_isElmPark, hname, hcounted, hdangling.mpr (by decide),
    hnever hdot⟩

/-- A rule may name a field of the form and still be reported as a reference to a missing one. -/
theorem not_forall_named_rule_counted :
    ¬ ∀ (form : Form) (r : Rule), r ∈ form.rules → Path.root? r.path = none →
      r.path ∈ form.fieldNames →
      (∀ name, Path.referencedField? r.path = some name → name ∉ form.report.dangling) ∧
        ∃ n, (r.path, n) ∈ form.report.usage := by
  intro h
  obtain ⟨hknown, -⟩ :=
    h elmParkForm isElmPark mem_rules_elmParkForm root?_isElmPark List.mem_cons_self
  refine hknown "school" referencedField?_isElmPark ?_
  rw [dangling_elmParkForm]
  exact List.mem_singleton_self "school"

end Form
end ConditionalForms
