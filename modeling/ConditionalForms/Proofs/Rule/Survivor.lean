import ConditionalForms.Proofs.Form.Projection

/-!
# Rules that survive cleaning

A restriction is cleaned more than once: when a document is read, when a form is brought into normal
form and when it is saved, and not always for the same operators.  A rule survives or it does not,
and nothing else about the group counts; the clean form of a survivor does not depend on the allowed
operators.  So cleaning for some operators and then for others is cleaning for those that both allow,
and the survivors stand in the order in which they were given.

**Definitions.**
* `RuleSource`: what a restriction is made from, a group of rules or a value of a document.
* `Rule.survives`, `Rule.cleanForm`: which rules cleaning keeps, and what it makes of them.
* `Rule.survivors`: the clean forms of the rules that survive, in order.

**Results.**
* `RuleSource.clean_eq`: cleaning gives the survivors.
* `RuleSource.clean_clean`: cleaning twice is cleaning for the operators allowed both times.
* `RuleSource.clean_laws`: these together with what is saved of a restriction and read back.
-/

namespace ConditionalForms

open Operator (allowedOnFields allowedOnSteps)

namespace Rule

/-- The operand has an answer text if the operator needs an operand. -/
def HasText (r : Rule) : Prop :=
  r.operator.needsOperand = true → ∃ s, r.operand.answerText = .ok s

/-- The path is not blank. -/
def hasPath (r : Rule) : Bool := Text.trim r.path ≠ ""

/-- The rule survives cleaning: its path is not blank, its operator is allowed, and the operand is
not empty if one is needed. -/
def survives (allowed : Operator → Bool) (r : Rule) : Bool :=
  r.hasPath && allowed r.operator &&
    (!r.operator.needsOperand || r.operand.answerText.toOption ≠ some "")

/-- The form in which the rule survives: with a trimmed path and the text of its operand. -/
def cleanForm (r : Rule) : Rule :=
  ⟨Text.trim r.path, r.operator,
    if r.operator.needsOperand then .text (r.operand.answerText.toOption.getD "") else .null⟩

/-- The clean forms of the rules that survive, in order. -/
def survivors (allowed : Operator → Bool) (rules : List Rule) : List Rule :=
  (rules.filter (·.survives allowed)).map cleanForm

/-- An entry of a document as the rule that stands there, with its path and operand as they are.  It
is none without a text for its path and the symbol of an operator. -/
def written? : Value → Option Rule
  | .object members => match Record.get members "op", Record.get members "field" with
    | .text symbol, .text path =>
        (Operator.ofSymbol? symbol).map fun op => ⟨path, op, Record.get members "value"⟩
    | _, _ => none
  | _ => none

variable {allowed : Operator → Bool} {r : Rule} {rules : List Rule}

theorem clean?_eq (h : r.HasText) :
    r.clean? allowed = .ok ((Option.guard (·.survives allowed) r).map cleanForm) := by
  by_cases haccepted : Text.trim r.path ≠ "" ∧ allowed r.operator = true
  swap
  · have hgone : r.survives allowed = false := by
      rw [← Bool.not_eq_true, survives, Bool.and_eq_true, Bool.and_eq_true, hasPath,
        decide_eq_true_eq]
      exact fun hkept => haccepted hkept.1
    simp [clean?_of_rejected haccepted, Option.guard, hgone]
  obtain ⟨hpath, hallowed⟩ := haccepted
  rw [clean?_of_accepted hpath hallowed]
  cases hop : r.operator.needsOperand with
  | true =>
      obtain ⟨s, hs⟩ := h hop
      by_cases hempty : s = ""
      · simp [Option.guard, survives, hop, hs, hempty, Except.toOption, pure, Except.pure]
      · simp [Option.guard, survives, hasPath, cleanForm, hpath, hallowed, hop, hs, hempty,
          Except.toOption, pure, Except.pure]
  | false => simp [Option.guard, survives, hasPath, cleanForm, hpath, hallowed, hop]

theorem hasText_cleanForm (r : Rule) : r.cleanForm.HasText := by
  intro hop
  have hneeds : r.operator.needsOperand = true := hop
  exact ⟨_, by simp only [cleanForm, hneeds, if_true]; rfl⟩

theorem cleanForm_cleanForm (r : Rule) : r.cleanForm.cleanForm = r.cleanForm := by
  cases hop : r.operator.needsOperand with
  | true => simp [cleanForm, Text.trim_idem, hop, Value.answerText, Except.toOption]
  | false => simp [cleanForm, Text.trim_idem, hop]

/-- The clean form of a rule survives exactly if the rule does. -/
theorem survives_cleanForm (h : r.HasText) : r.cleanForm.survives allowed = r.survives allowed := by
  cases hop : r.operator.needsOperand with
  | true =>
      obtain ⟨s, hs⟩ := h hop
      simp [survives, hasPath, cleanForm, Text.trim_idem, hop, hs, Value.answerText,
        Except.toOption]
  | false => simp [survives, hasPath, cleanForm, Text.trim_idem, hop]

theorem hasText_of_mem_map : ∀ r ∈ rules.map cleanForm, r.HasText := by
  intro r hr
  obtain ⟨given, _, rfl⟩ := List.mem_map.mp hr
  exact hasText_cleanForm given

theorem collect_clean? (h : ∀ r ∈ rules, r.HasText) :
    collect (Rule.clean? allowed) rules = .ok (survivors allowed rules) := by
  rw [collect_eq_filterMap fun r hr => clean?_eq (h r hr), ← List.map_filterMap,
    List.filterMap_eq_filter, survivors]

/-- Cleaning what is left of some rules by a test: the survivors are those of all the rules under
the operators for which the test and the second cleaning come to the same. -/
theorem survivors_map_cleanForm {test : Rule → Bool} {wanted : Operator → Bool}
    (h : ∀ r ∈ rules, r.HasText)
    (htest : ∀ r ∈ rules, (r.survives allowed && test r) = r.survives wanted) :
    survivors allowed ((rules.filter test).map cleanForm) = survivors wanted rules := by
  have hfilter : (rules.filter test).filter ((·.survives allowed) ∘ cleanForm) =
      rules.filter (·.survives wanted) := by
    rw [List.filter_filter]
    refine List.filter_congr fun r hr => ?_
    rw [← htest r hr, Function.comp_apply, survives_cleanForm (h r hr)]
  rw [survivors, List.filter_map, hfilter, List.map_map, survivors]
  exact List.map_congr_left fun r _ => cleanForm_cleanForm r

theorem survivors_survivors (first second : Operator → Bool) (h : ∀ r ∈ rules, r.HasText) :
    survivors second (survivors first rules) =
      survivors (fun op => first op && second op) rules := by
  refine survivors_map_cleanForm h fun r _ => ?_
  simp only [survives]
  cases r.hasPath <;> cases first r.operator <;> cases second r.operator <;> simp

theorem written?_eq_some {members : Record} (h : written? (.object members) = some r) :
    ∃ symbol, Record.get members "op" = .text symbol ∧ Operator.ofSymbol? symbol = some r.operator ∧
      Record.get members "field" = .text r.path ∧ Record.get members "value" = r.operand := by
  simp only [written?] at h
  split at h
  · rename_i symbol path hsymbol hfield
    obtain ⟨op, hop, rfl⟩ := Option.map_eq_some_iff.mp h
    exact ⟨symbol, hsymbol, hop, hfield, rfl⟩
  · contradiction

/-- An entry in which no rule is written is skipped. -/
theorem ofValue?_of_written?_eq_none {v : Value} (h : written? v = none) :
    ofValue? v = .ok none := by
  cases v with
  | object members => cases hsymbol : Record.get members "op" with
    | text symbol => cases hop : Operator.ofSymbol? symbol with
      | none => simp [ofValue?, hsymbol, hop, pure, Except.pure]
      | some op => cases hfield : Record.get members "field" with
        | text path => simp [written?, hsymbol, hfield, hop] at h
        | _ => simp [ofValue?, hsymbol, hfield, hop, pure, Except.pure]
    | _ => simp [ofValue?, hsymbol, pure, Except.pure]
  | _ => rfl

/-- A rule that is written is read in its clean form if its path is not blank. -/
theorem ofValue?_of_written? {v : Value} (h : written? v = some r) (htext : r.HasText) :
    ofValue? v = .ok (if r.hasPath then some r.cleanForm else none) := by
  cases v with
  | object members =>
      obtain ⟨symbol, hsymbol, hop, hfield, hvalue⟩ := written?_eq_some h
      by_cases hblank : Text.trim r.path = ""
      · simp [ofValue?, hsymbol, hop, hfield, hblank, hasPath, pure, Except.pure]
      · cases hneeds : r.operator.needsOperand with
        | true =>
            obtain ⟨s, hs⟩ := htext hneeds
            simp [ofValue?, hsymbol, hop, hfield, hvalue, hblank, hneeds, hasPath, cleanForm, hs,
              Value.operandText, Except.toOption, pure, Except.pure]
        | false =>
            simp [ofValue?, hsymbol, hop, hfield, hblank, hneeds, hasPath, cleanForm, pure,
              Except.pure]
  | _ => simp [written?] at h

/-- A list of rules in a document is read as the clean forms of those that have a path. -/
theorem collect_ofValue? {entries : List Value}
    (h : ∀ r ∈ entries.filterMap written?, r.HasText) :
    collect ofValue? entries =
      .ok (((entries.filterMap written?).filter hasPath).map cleanForm) := by
  have hread : ∀ v ∈ entries, ofValue? v =
      .ok (((written? v).filter hasPath).map cleanForm) := by
    intro v hv
    cases hwritten : written? v with
    | none => rw [ofValue?_of_written?_eq_none hwritten, Option.filter_none, Option.map_none]
    | some r =>
        have htext : r.HasText := h r (List.mem_filterMap.mpr ⟨v, hv, hwritten⟩)
        rw [ofValue?_of_written? hwritten htext, Option.filter_some]
        cases r.hasPath <;> rfl
  rw [collect_eq_filterMap hread, List.filter_filterMap, List.map_filterMap]

end Rule

/-- What a restriction is made from: a group of rules or none, or a value of a document. -/
inductive RuleSource where
  | group (logic : Option RuleGroup)
  | document (v : Value)

namespace RuleSource

/-- The restriction that is made, before it is cleaned. -/
def read : RuleSource → Except Fault (Option RuleGroup)
  | .group logic => .ok logic
  | .document v => RuleGroup.ofValue? v

/-- The clean form of the restriction. -/
def clean (allowed : Operator → Bool) (source : RuleSource) : Except Fault (Option RuleGroup) := do
  RuleGroup.cleanLogic allowed (← source.read)

/-- The mode of the rules; it is one of the two whatever is written for it. -/
def mode : RuleSource → Mode
  | .group (some g) => g.mode
  | .document (.object members) => match Record.get members "mode" with
    | .text s => if s = "any" then .any else .all
    | _ => .all
  | _ => .all

/-- The rules in the order in which they are given. -/
def rules : RuleSource → List Rule
  | .group (some g) => g.rules
  | .document (.object members) => match Record.get members "rules" with
    | .list entries => entries.filterMap Rule.written?
    | _ => []
  | _ => []

/-- The operands have answer texts where operands are needed. -/
def HasTexts (source : RuleSource) : Prop := ∀ r ∈ source.rules, r.HasText

end RuleSource

namespace RuleGroup

variable {mode : Mode} {rules : List Rule} {allowed : Operator → Bool}

theorem cleanLogic_ofRules? (h : ∀ r ∈ rules, r.HasText) :
    cleanLogic allowed (ofRules? mode rules) = .ok (ofRules? mode (Rule.survivors allowed rules)) := by
  cases rules with
  | nil => rfl
  | cons r rest =>
      have hgroup : ofRules? mode (r :: rest) = some ⟨mode, r :: rest⟩ := rfl
      rw [hgroup, cleanLogic, clean?, Rule.collect_clean? h]
      rfl

/-- What is saved of a restriction is read back as its clean form. -/
theorem ofValue?_toValue (logic : Option RuleGroup) :
    (do ofValue? (← toValue logic)) = cleanLogic allowedOnFields logic := by
  cases hclean : cleanLogic allowedOnFields logic with
  | error e =>
      rw [toValue, hclean]
      rfl
  | ok cleaned =>
      have hisClean := isCleanLogic_of_cleanLogic hclean
      have hvalue : toValue logic = .ok (cleanValue cleaned) := by
        rw [toValue, hclean]
        cases cleaned <;> rfl
      rw [hvalue, ok_bind, ofValue?_cleanValue hisClean]

end RuleGroup

namespace RuleSource

variable {source : RuleSource} {allowed : Operator → Bool}

/-- A document is read as the clean forms of its rules, but for those without a path. -/
theorem read_document {v : Value} (h : (document v).HasTexts) :
    (document v).read = .ok (RuleGroup.ofRules? (document v).mode
      (((document v).rules.filter Rule.hasPath).map Rule.cleanForm)) := by
  cases v with
  | object members => cases hrules : Record.get members "rules" with
    | list entries =>
        have hgiven : (document (.object members)).rules = entries.filterMap Rule.written? := by
          simp only [rules, hrules]
        rw [HasTexts, hgiven] at h
        rw [hgiven, read, RuleGroup.ofValue?]
        simp only [hrules, Rule.collect_ofValue? h, ok_bind]
        rfl
    | _ =>
        rw [read, RuleGroup.ofValue?]
        simp only [rules, hrules]
        rfl
  | _ => rfl

/-- Cleaning gives the survivors, in the order in which they were given. -/
theorem clean_eq (h : source.HasTexts) (allowed : Operator → Bool) :
    source.clean allowed =
      .ok (RuleGroup.ofRules? source.mode (Rule.survivors allowed source.rules)) := by
  cases source with
  | group logic => cases logic with
    | none => rfl
    | some g =>
        have hrules : ∀ r ∈ g.rules, r.HasText := h
        rw [clean, read, ok_bind, RuleGroup.cleanLogic, RuleGroup.clean?,
          Rule.collect_clean? hrules]
        rfl
  | document v =>
      rw [clean, read_document h, ok_bind, RuleGroup.cleanLogic_ofRules? Rule.hasText_of_mem_map,
        Rule.survivors_map_cleanForm h fun r _ => ?_]
      rw [Rule.survives]
      cases r.hasPath <;> simp

/-- Cleaning for some operators and then for others is cleaning for those that both allow. -/
theorem clean_clean (h : source.HasTexts) (first second : Operator → Bool) :
    (do RuleGroup.cleanLogic second (← source.clean first)) =
      source.clean fun op => first op && second op := by
  have hsurvivors : ∀ r ∈ Rule.survivors first source.rules, r.HasText := Rule.hasText_of_mem_map
  rw [clean_eq h, ok_bind, RuleGroup.cleanLogic_ofRules? hsurvivors,
    Rule.survivors_survivors first second h, clean_eq h]

/-- Cleaning is a projection that composes by intersection: whether rules come from an author or a
document, it gives the clean forms of those that survive, in their order, and cleaning twice is
cleaning once for the operators allowed both times.  What is saved of a restriction is read back as
its clean form.  The restriction of a step in normal form is saved as it is, though steps and fields
do not allow the same operators. -/
theorem clean_laws :
    (∀ source : RuleSource, source.HasTexts →
      (∀ allowed, source.clean allowed =
        .ok (RuleGroup.ofRules? source.mode (Rule.survivors allowed source.rules))) ∧
      ∀ first second, (do RuleGroup.cleanLogic second (← source.clean first)) =
        source.clean fun op => first op && second op) ∧
    (∀ logic : Option RuleGroup, (do RuleGroup.ofValue? (← RuleGroup.toValue logic)) =
      (group logic).clean allowedOnFields) ∧
    ∀ form normal : Form, form.normalize = .ok normal → ∀ s ∈ normal.steps,
      (group s.logic).clean allowedOnFields = .ok s.logic := by
  refine ⟨fun source h => ⟨clean_eq h, clean_clean h⟩, RuleGroup.ofValue?_toValue, ?_⟩
  intro form normal hnormal s hs
  have hclean := ((Form.isNormal_of_normalize hnormal).steps s hs).logic
  exact RuleGroup.cleanLogic_of_isCleanLogic hclean.onFields

/-- A restriction as it may stand in a document: a numeric rule, a rule without a path, a rule with
an operand that its operator does not need, and an entry that is no rule. -/
def visitRules : Value :=
  .object [("mode", .text "any"), ("rules", .list
    [.object [("field", .text " age "), ("op", .text ">"), ("value", .int 12)],
      .object [("field", .text ""), ("op", .text "equals"), ("value", .text "x")],
      .object [("field", .text "school"), ("op", .text "is_empty"), ("value", .text "y")],
      .text "junk"])]

theorem rules_visitRules : (document visitRules).rules =
    [⟨" age ", .greater, .int 12⟩, ⟨"", .equals, .text "x"⟩, ⟨"school", .isEmpty, .text "y"⟩] :=
  rfl

theorem survivors_visitRules :
    Rule.survivors (fun op => allowedOnFields op && allowedOnSteps op) (document visitRules).rules =
      [⟨"school", .isEmpty, .null⟩] := by
  have hblank : Text.trim "" = "" := by decide +kernel
  have hschool : Text.trim "school" = "school" := by decide +kernel
  simp [rules_visitRules, Rule.survivors, Rule.survives, Rule.hasPath, Rule.cleanForm, hblank,
    hschool, allowedOnFields, allowedOnSteps, Operator.isNumeric, Operator.needsOperand]

theorem clean_laws_visitRules :
    (document visitRules).HasTexts ∧
      (do RuleGroup.cleanLogic allowedOnSteps (← (document visitRules).clean allowedOnFields)) =
        .ok (some ⟨.any, [⟨"school", .isEmpty, .null⟩]⟩) ∧
      Form.untidy.normalize = .ok Form.tidy ∧
      ∀ s ∈ Form.tidy.steps, (group s.logic).clean allowedOnFields = .ok s.logic := by
  have htexts : (document visitRules).HasTexts := by
    rw [HasTexts, rules_visitRules]
    intro r hr _
    simp only [List.mem_cons, List.not_mem_nil, or_false] at hr
    rcases hr with rfl | rfl | rfl
    · exact ⟨"12", by decide +kernel⟩
    · exact ⟨"x", rfl⟩
    · exact ⟨"y", rfl⟩
  obtain ⟨hclean, _, hstep⟩ := clean_laws
  obtain ⟨hsurvivors, htwice⟩ := hclean (document visitRules) htexts
  refine ⟨htexts, ?_, Form.normalize_untidy, hstep _ _ Form.normalize_untidy⟩
  rw [htwice, hsurvivors, survivors_visitRules]
  rfl

end RuleSource

end ConditionalForms
