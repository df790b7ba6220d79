import ConditionalForms.Example
import ConditionalForms.Fill.Visibility
import ConditionalForms.Proofs.Sequence

/-!
# Steps for every participant

A step for every participant is shown to those in whose contexts its restriction is satisfied and
one of its fields is shown: both for the same participant.  A step without fields makes an
exception, for every participant as for all together, since there its restriction alone decides.

**Definitions.**
* `Step.ShowsIn`: the step has something to be shown for in a context.
* `Step.Evaluates`: every rule of the step can be evaluated for every participant.

**Results.**
* `Step.isShownIn_iff`: when a step is shown in one context.
* `Step.repeats_iff`: when a step for every participant is shown, and to whom.
* `Step.not_forall_repeats_with_field`: it may be shown without a field.
-/

namespace ConditionalForms

namespace Step

variable {s : Step} {sub : Submission} {ctx : Context}

/-- The restriction of the step is satisfied in a context, and one of its fields is shown there
unless it has none. -/
def ShowsIn (s : Step) (ctx : Context) : Prop :=
  RuleGroup.allows s.logic ctx = .ok true ∧
    (s.fields = [] ∨ ∃ f ∈ s.fields, f.isShown ctx = .ok true)

/-- Every rule of the step, and of its fields, can be evaluated for every participant. -/
def Evaluates (s : Step) (sub : Submission) : Prop :=
  ∀ i < sub.participantCount, (∃ b, RuleGroup.allows s.logic (sub.contextOf i) = .ok b) ∧
    ∀ f ∈ s.fields, ∃ b, f.isShown (sub.contextOf i) = .ok b

/-- What is found out of a step in a context is whether it has something to be shown for. -/
theorem isShownIn_iff {b : Bool} (h : s.isShownIn ctx = .ok b) : b = true ↔ s.ShowsIn ctx := by
  simp only [isShownIn, bind_eq_ok] at h
  obtain ⟨allowed, hallowed, h⟩ := h
  cases allowed with
  | false =>
      obtain rfl : false = b := by simpa using h
      simp [ShowsIn, hallowed]
  | true =>
      rw [ShowsIn, hallowed]
      by_cases hempty : s.fields = []
      · obtain rfl : true = b := by simpa [hempty] using h
        simp [hempty]
      · have hany : anyOf (·.isShown ctx) s.fields = .ok b := by simpa [hempty] using h
        rw [anyOf_iff hany, or_iff_right hempty, and_iff_right rfl]

theorem exists_isShownIn (hlogic : ∃ b, RuleGroup.allows s.logic ctx = .ok b)
    (hfields : ∀ f ∈ s.fields, ∃ b, f.isShown ctx = .ok b) : ∃ b, s.isShownIn ctx = .ok b := by
  obtain ⟨allowed, hallowed⟩ := hlogic
  obtain ⟨shows, hshows⟩ := exists_passes_of_forall hfields
  rw [isShownIn, hallowed, ok_bind, anyOf_eq_any hshows]
  cases allowed with
  | false => exact ⟨false, rfl⟩
  | true => cases s.fields.isEmpty with
    | true => exact ⟨true, rfl⟩
    | false => exact ⟨_, rfl⟩

theorem Evaluates.exists_isShownTo (h : s.Evaluates sub) :
    ∀ i ∈ List.range sub.participantCount, ∃ b, s.isShownTo sub i = .ok b := by
  intro i hi
  obtain ⟨hlogic, hfields⟩ := h i (List.mem_range.mp hi)
  exact exists_isShownIn hlogic hfields

/-- A step for every participant is shown exactly if it has something to be shown for in the context
of one of them, and the participants that it is shown to are listed in order.  Both can be found out
whenever the rules can be evaluated. -/
theorem repeats_iff (hper : s.perParticipant = true) :
    (∀ b, s.isShown sub = .ok b →
      (b = true ↔ ∃ i < sub.participantCount, s.ShowsIn (sub.contextOf i))) ∧
    (∀ reached, s.shownTo sub = .ok reached → reached.Pairwise (· < ·) ∧
      ∀ i, i ∈ reached ↔ i < sub.participantCount ∧ s.ShowsIn (sub.contextOf i)) ∧
    (s.Evaluates sub → ∃ b reached, s.isShown sub = .ok b ∧ s.shownTo sub = .ok reached) := by
  have hshown : s.isShown sub = anyOf (s.isShownTo sub) (List.range sub.participantCount) :=
    if_pos hper
  have hto : ∀ {i : Nat}, s.isShownTo sub i = .ok true → s.ShowsIn (sub.contextOf i) :=
    fun h => (isShownIn_iff h).mp rfl
  refine ⟨fun b hb => ?_, fun reached hreached => ⟨?_, fun i => ?_⟩, fun heval => ?_⟩
  · rw [hshown] at hb
    cases b with
    | true =>
        obtain ⟨i, hi, hshows⟩ := exists_of_anyOf hb
        exact iff_of_true rfl ⟨i, List.mem_range.mp hi, hto hshows⟩
    | false =>
        refine iff_of_false (by simp) ?_
        rintro ⟨i, hi, hshows⟩
        have hhidden := forall_of_anyOf hb i (List.mem_range.mpr hi)
        exact Bool.false_ne_true ((isShownIn_iff hhidden).mpr hshows)
  · rw [shownTo, keep_eq_filter fun i hi => test_of_keep hreached hi] at hreached
    rw [← Except.ok.inj hreached]
    exact List.pairwise_lt_range.filter _
  · rw [mem_of_keep hreached, List.mem_range]
    refine and_congr_right fun hi => ⟨hto, fun hshows => ?_⟩
    have hfound := test_of_keep hreached (List.mem_range.mpr hi)
    rw [hfound, (isShownIn_iff hfound).mpr hshows]
  · obtain ⟨shows, hshows⟩ := exists_passes_of_forall heval.exists_isShownTo
    exact ⟨_, _, hshown.trans (anyOf_eq_any hshows), keep_eq_filter hshows⟩

/-- A step for every participant called Sam, with a field for everyone older than twelve. -/
def samStep : Step :=
  { Example.participantStep 1 with
    logic := Example.onlyIf "participant.first_name" .equals "Sam"
    fields := [{ Field.plain "f-teen" "teen-only" "For teenagers" with
      logic := Example.onlyIf "participant.age" .greater "12" }] }

/-- Sam is too young, and Kim is not Sam. -/
def samAndKim : Submission :=
  { Submission.empty with
    participants := [[("first_name", .text "Sam"), ("age", .int 10)],
      [("first_name", .text "Kim"), ("age", .int 14)]] }

/-- The restriction holds for one participant and a field is shown to the other, so that the step is
shown to nobody. -/
theorem not_repeats_samStep :
    samStep.perParticipant = true ∧ samStep.isShown samAndKim = .ok false ∧
      ¬ ∃ i < samAndKim.participantCount, samStep.ShowsIn (samAndKim.contextOf i) := by
  have hper : samStep.perParticipant = true := rfl
  have hshown : samStep.isShown samAndKim = .ok false := by decide +kernel
  obtain ⟨hiff, -, -⟩ := @repeats_iff samStep samAndKim hper
  refine ⟨hper, hshown, fun hshows => ?_⟩
  exact Bool.false_ne_true ((hiff false hshown).mpr hshows)

/-- A step for every participant may be shown although it has no field that could be. -/
theorem not_forall_repeats_with_field :
    ¬ ∀ (s : Step) (sub : Submission), s.perParticipant = true → s.Evaluates sub →
      (s.isShown sub = .ok true ↔ ∃ i < sub.participantCount,
        RuleGroup.allows s.logic (sub.contextOf i) = .ok true ∧
          ∃ f ∈ s.fields, f.isShown (sub.contextOf i) = .ok true) := by
  intro hall
  have hevaluates : Evaluates { Example.participantStep 1 with fields := [] } samAndKim :=
    fun i _ => ⟨⟨true, rfl⟩, by simp⟩
  obtain ⟨i, -, -, f, hf, -⟩ := (hall _ samAndKim rfl hevaluates).mp rfl
  exact absurd hf List.not_mem_nil

end Step

end ConditionalForms
