import ConditionalForms.Proofs.Sequence
import ConditionalForms.Rule.Clean

/-!
# Clean rules

Cleaning is a projection: what it gives is clean, and what is clean stays as it is.  A clean
restriction is read back from its document.

**Definitions.**
* `Rule.IsWellFormed`: a rule that cleaning keeps, up to an operand that its operator ignores.
* `Rule.IsClean`: a rule that cleaning leaves as it is.
* `RuleGroup.IsCleanLogic`: no restriction, or one of clean rules of which there is at least one.
* `RuleGroup.cleanValue`: such a restriction as a member of a document.

**Results.**
* `RuleGroup.isCleanLogic_of_cleanLogic`, `RuleGroup.cleanLogic_of_isCleanLogic`: cleaning is a
  projection onto the clean restrictions.
* `RuleGroup.ofValue?_cleanValue`: a clean restriction is read back from its document.
-/

namespace ConditionalForms

section Collect

variable {α β : Type}

theorem collect_eq_filterMap {f : α → Except Fault (Option β)} {g : α → Option β} {xs : List α}
    (h : ∀ x ∈ xs, f x = .ok (g x)) : collect f xs = .ok (xs.filterMap g) := by
  induction xs with
  | nil => rfl
  | cons x xs ih =>
      rw [List.forall_mem_cons] at h
      rw [collect, h.1, ok_bind, ih h.2, ok_bind]
      cases hx : g x with
      | none => simp [hx]
      | some y => simp [hx]

theorem collect_eq_map {f : α → Except Fault (Option β)} {g : α → β} {xs : List α}
    (h : ∀ x ∈ xs, f x = .ok (some (g x))) : collect f xs = .ok (xs.map g) := by
  rw [collect_eq_filterMap h, List.filterMap_eq_map']

theorem exists_of_mem_collect {f : α → Except Fault (Option β)} {y : β} :
    ∀ {xs : List α} {ys : List β}, collect f xs = .ok ys → y ∈ ys →
      ∃ x ∈ xs, f x = .ok (some y)
  | [], ys, h, hy => by
      simp only [collect, Except.ok.injEq] at h
      simp [← h] at hy
  | x :: xs, ys, h, hy => by
      simp only [collect, bind_eq_ok, pure_eq_ok] at h
      obtain ⟨first, hfirst, rest, hrest, rfl⟩ := h
      rcases List.mem_append.mp hy with hy | hy
      · exact ⟨x, List.mem_cons_self, by rw [hfirst, Option.mem_toList.mp hy]⟩
      · obtain ⟨z, hz, hfz⟩ := exists_of_mem_collect hrest hy
        exact ⟨z, List.mem_cons_of_mem _ hz, hfz⟩

theorem collect_map {γ : Type} {f : β → Except Fault (Option γ)} {g : α → β} :
    ∀ xs : List α, collect f (xs.map g) = collect (fun x => f (g x)) xs
  | [] => rfl
  | x :: xs => by rw [List.map_cons, collect, collect, collect_map xs]

end Collect

namespace Rule

/-- A trimmed path, an allowed operator, and a nonempty text if the operator needs an operand. -/
structure IsWellFormed (allowed : Operator → Bool) (r : Rule) : Prop where
  path_ne : r.path ≠ ""
  trim_path : Text.trim r.path = r.path
  allowed : allowed r.operator = true
  operand : r.operator.needsOperand = true → ∃ s, s ≠ "" ∧ r.operand = .text s

/-- A rule that holds nothing that its operator does not look at. -/
structure IsClean (allowed : Operator → Bool) (r : Rule) : Prop extends
    IsWellFormed allowed r where
  noOperand : r.operator.needsOperand = false → r.operand = .null

/-- The rule without an operand that its operator does not look at. -/
def bare (r : Rule) : Rule :=
  { r with operand := if r.operator.needsOperand then r.operand else .null }

variable {allowed : Operator → Bool} {r : Rule}

theorem bare_eq_self (h : r.IsClean allowed) : r.bare = r := by
  cases hop : r.operator.needsOperand with
  | true => simp [bare, hop]
  | false => simp [bare, hop, ← h.noOperand hop]

theorem clean?_of_rejected (h : ¬(Text.trim r.path ≠ "" ∧ allowed r.operator = true)) :
    r.clean? allowed = .ok none := by
  have hdrop : Text.trim r.path = "" ∨ (!allowed r.operator) = true := by
    simpa [Decidable.or_iff_not_imp_left] using h
  unfold clean?
  simp only [if_pos hdrop]
  rfl

/-- With a path and an allowed operator, what becomes of a rule is up to its operand. -/
theorem clean?_of_accepted (hpath : Text.trim r.path ≠ "") (hallowed : allowed r.operator = true) :
    r.clean? allowed =
      if r.operator.needsOperand then do
        let s ← r.operand.answerText
        return if s = "" then none else some ⟨Text.trim r.path, r.operator, .text s⟩
      else .ok (some ⟨Text.trim r.path, r.operator, .null⟩) := by
  have hkeep : ¬(Text.trim r.path = "" ∨ (!allowed r.operator) = true) := by
    simp [hpath, hallowed]
  unfold clean?
  simp only [if_neg hkeep]
  cases r.operator.needsOperand with
  | true => cases r.operand.answerText with
    | ok s => by_cases hs : s = "" <;> simp [hs, pure, Except.pure]
    | error e => rfl
  | false => rfl

theorem clean?_of_isWellFormed (h : r.IsWellFormed allowed) :
    r.clean? allowed = .ok (some r.bare) := by
  have hpath : Text.trim r.path ≠ "" := by
    rw [h.trim_path]
    exact h.path_ne
  rw [clean?_of_accepted hpath h.allowed, h.trim_path]
  cases hop : r.operator.needsOperand with
  | true =>
      obtain ⟨s, hs, hoperand⟩ := h.operand hop
      simp [hoperand, Value.answerText, hs, bare, hop, pure, Except.pure]
  | false => simp [bare, hop]

theorem clean?_of_isClean (h : r.IsClean allowed) : r.clean? allowed = .ok (some r) := by
  rw [clean?_of_isWellFormed h.toIsWellFormed, bare_eq_self h]

theorem isClean_of_clean? {cleaned : Rule} (h : r.clean? allowed = .ok (some cleaned)) :
    cleaned.IsClean allowed := by
  by_cases haccepted : Text.trim r.path ≠ "" ∧ allowed r.operator = true
  swap
  · simp [clean?_of_rejected haccepted] at h
  obtain ⟨hpath, hallowed⟩ := haccepted
  rw [clean?_of_accepted hpath hallowed] at h
  cases hop : r.operator.needsOperand with
  | true =>
      simp only [hop, if_true, bind_eq_ok, pure_eq_ok, Option.ite_none_left_eq_some,
        Option.some.injEq] at h
      obtain ⟨s, -, hs, rfl⟩ := h
      exact ⟨⟨hpath, Text.trim_idem _, hallowed, fun _ => ⟨s, hs, rfl⟩⟩, by simp [hop]⟩
  | false =>
      simp only [hop, Bool.false_eq_true, if_false, Except.ok.injEq, Option.some.injEq] at h
      subst h
      exact ⟨⟨hpath, Text.trim_idem _, hallowed, by simp [hop]⟩, fun _ => rfl⟩

theorem IsClean.isNull_operand (h : r.IsClean allowed) :
    r.operand.isNull = !r.operator.needsOperand := by
  cases hop : r.operator.needsOperand with
  | true =>
      obtain ⟨s, -, hs⟩ := h.operand hop
      simp [hs, Value.isNull]
  | false => simp [h.noOperand hop, Value.isNull]

/-- A clean rule is read back from its document. -/
theorem ofValue?_ruleToValue (h : r.IsClean allowed) :
    Rule.ofValue? (RuleGroup.ruleToValue r) = .ok (some r) := by
  unfold RuleGroup.ruleToValue
  rw [h.isNull_operand]
  obtain ⟨path, operator, operand⟩ := r
  have hpath : Text.trim path = path := h.trim_path
  have hne : path ≠ "" := h.path_ne
  cases hop : operator.needsOperand with
  | true =>
      obtain ⟨s, -, rfl⟩ : ∃ s, s ≠ "" ∧ operand = .text s := h.operand hop
      simp [Rule.ofValue?, Record.get, Record.get?_cons, hpath, hne,
        Operator.ofSymbol?_symbol, hop, Value.operandText, Value.answerText]
  | false =>
      obtain rfl : operand = .null := h.noOperand hop
      simp [Rule.ofValue?, Record.get, Record.get?_cons, hpath, hne,
        Operator.ofSymbol?_symbol, hop]

end Rule

namespace RuleGroup

/-- No restriction, or one of clean rules of which there is at least one. -/
def IsCleanLogic (allowed : Operator → Bool) (logic : Option RuleGroup) : Prop :=
  ∀ g ∈ logic, g.rules ≠ [] ∧ ∀ r ∈ g.rules, r.IsClean allowed

/-- A restriction as a member of a document, when it is clean. -/
def cleanValue : Option RuleGroup → Value
  | none => .null
  | some g => .object [("mode", .text g.mode.symbol), ("rules", .list (g.rules.map ruleToValue))]

variable {allowed : Operator → Bool} {logic cleaned : Option RuleGroup}

theorem isCleanLogic_of_cleanLogic (h : cleanLogic allowed logic = .ok cleaned) :
    IsCleanLogic allowed cleaned := by
  cases logic with
  | none =>
      simp only [cleanLogic, Except.ok.injEq] at h
      simp [← h, IsCleanLogic]
  | some g =>
      simp only [cleanLogic, clean?, bind_eq_ok, pure_eq_ok] at h
      obtain ⟨rules, hrules, rfl⟩ := h
      intro g' hg'
      unfold ofRules? at hg'
      split at hg'
      · simp at hg'
      · rename_i hne
        simp only [Option.mem_def, Option.some.injEq] at hg'
        subst hg'
        refine ⟨by simpa using hne, ?_⟩
        intro r hr
        obtain ⟨_, _, hclean⟩ := exists_of_mem_collect hrules hr
        exact Rule.isClean_of_clean? hclean

theorem cleanLogic_of_isCleanLogic (h : IsCleanLogic allowed logic) :
    cleanLogic allowed logic = .ok logic := by
  cases logic with
  | none => rfl
  | some g =>
      obtain ⟨hne, hrules⟩ := h g rfl
      have hcollect : collect (Rule.clean? allowed) g.rules = .ok (g.rules.map id) :=
        collect_eq_map fun r hr => Rule.clean?_of_isClean (hrules r hr)
      simp [cleanLogic, clean?, hcollect, ofRules?, hne]

theorem IsCleanLogic.onFields (h : IsCleanLogic allowed logic) :
    IsCleanLogic Operator.allowedOnFields logic := by
  intro g hg
  obtain ⟨hne, hrules⟩ := h g hg
  exact ⟨hne, fun r hr => { hrules r hr with allowed := rfl }⟩

theorem toValue_of_isCleanLogic (h : IsCleanLogic allowed logic) :
    toValue logic = .ok (cleanValue logic) := by
  rw [toValue, cleanLogic_of_isCleanLogic h.onFields]
  cases logic <;> rfl

/-- A clean restriction is read back from its document. -/
theorem ofValue?_cleanValue (h : IsCleanLogic allowed logic) :
    ofValue? (cleanValue logic) = .ok logic := by
  cases logic with
  | none => rfl
  | some g =>
      obtain ⟨hne, hrules⟩ := h g rfl
      have hcollect : collect Rule.ofValue? (g.rules.map ruleToValue) = .ok g.rules := by
        rw [collect_map]
        simpa using collect_eq_map (g := id) fun r hr => Rule.ofValue?_ruleToValue (hrules r hr)
      obtain ⟨mode, rules⟩ := g
      cases mode with
      | all =>
          simp [ofValue?, cleanValue, Mode.symbol, Record.get, Record.get?_cons, hcollect,
            ofRules?, hne]
      | any =>
          simp [ofValue?, cleanValue, Mode.symbol, Record.get, Record.get?_cons, hcollect,
            ofRules?, hne]

end RuleGroup

end ConditionalForms
