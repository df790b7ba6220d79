import ConditionalForms.Proofs.Rule.Clean
import ConditionalForms.Rule.Evaluate

/-!
# Clean rules say the same

Cleaning a restriction of well formed rules drops nothing but operands that their operators do not
look at, and groups without rules, which restrict nothing.

**Definitions.**
* `RuleGroup.IsWellFormedLogic`: no restriction, or one of well formed rules.

**Results.**
* `Rule.holds_bare`: an operand that is not looked at does not matter.
* `RuleGroup.allows_of_cleanLogic`: a clean restriction is satisfied where the restriction was.
-/

namespace ConditionalForms

theorem Operator.apply_of_noOperand {op : Operator} (h : op.needsOperand = false)
    (left right other : Value) : op.apply left right = op.apply left other := by
  cases op with
  | isEmpty => rfl
  | notEmpty => rfl
  | _ => simp [needsOperand] at h

namespace Rule

theorem holds_bare (r : Rule) (ctx : Context) : r.bare.holds ctx = r.holds ctx := by
  cases hop : r.operator.needsOperand with
  | true => simp [bare, hop]
  | false =>
      have happly (left : Value) : r.operator.apply left .null = r.operator.apply left r.operand :=
        Operator.apply_of_noOperand hop _ _ _
      simp only [holds, bare, hop, Bool.false_eq_true, if_false, happly]

end Rule

namespace RuleGroup

/-- No restriction, or one of well formed rules. -/
def IsWellFormedLogic (allowed : Operator → Bool) (logic : Option RuleGroup) : Prop :=
  ∀ g ∈ logic, ∀ r ∈ g.rules, r.IsWellFormed allowed

variable {allowed : Operator → Bool} {logic cleaned : Option RuleGroup}

theorem holds_bare (g : RuleGroup) (ctx : Context) :
    RuleGroup.holds ⟨g.mode, g.rules.map Rule.bare⟩ ctx = g.holds ctx := by
  have hrule : (fun r => Rule.holds r ctx) ∘ Rule.bare = fun r => r.holds ctx :=
    funext fun r => Rule.holds_bare r ctx
  have hresults : (g.rules.map Rule.bare).mapM (·.holds ctx) = g.rules.mapM (·.holds ctx) := by
    rw [List.mapM_map, hrule]
  simp only [holds, List.isEmpty_map, hresults]

/-- A clean restriction is satisfied where the restriction was. -/
theorem allows_of_cleanLogic (h : IsWellFormedLogic allowed logic)
    (hclean : cleanLogic allowed logic = .ok cleaned) (ctx : Context) :
    allows cleaned ctx = allows logic ctx := by
  cases logic with
  | none =>
      simp only [cleanLogic, Except.ok.injEq] at hclean
      subst hclean
      rfl
  | some g =>
      have hrules : collect (Rule.clean? allowed) g.rules = .ok (g.rules.map Rule.bare) :=
        collect_eq_map fun r hr => Rule.clean?_of_isWellFormed (h g rfl r hr)
      simp only [cleanLogic, clean?, hrules, ok_bind, pure_eq_ok] at hclean
      subst hclean
      by_cases hempty : g.rules = []
      · simp [ofRules?, hempty, allows, holds]
        rfl
      · have hne : (g.rules.map Rule.bare).isEmpty = false := by simp [hempty]
        simp only [ofRules?, hne, Bool.false_eq_true, if_false, allows]
        exact holds_bare g ctx

end RuleGroup

end ConditionalForms
