import ConditionalForms.Proofs.Fill.Alike
import ConditionalForms.Proofs.Fill.Repetition
import ConditionalForms.Proofs.Value.Number

/-!
# What is found

The issues of a submission are exactly the checks that shown answers fail.  A check is said in terms
of the field and the answer alone; the issues of a form then come from going through its steps,
through those that a step is about, through its fields and through the checks, in this order.

An answer fails a bound by where its number stands on the number line, whatever the kinds of the two
numbers are.

The two ways in which steps are looked at, for every participant and for all together, come to one:
where a step is not shown it shows no field either, so that it may be gone through all the same.

**Definitions.**
* `Value.IsNumber`: the number that an answer is.
* `Field.Fails`: the answer of a field fails a check.
* `Step.audience`: the participants that a step is about, or all together.
* `Step.ShowsField`: a step and one of its fields are shown in a context.

**Results.**
* `Field.fails_minValue_iff`, `Field.fails_maxValue_iff`: the checks compare by this order.
* `Field.codes_of_findings`: what is found in an answer are the checks that it fails.
* `Step.keys_of_issuesFor`, `Step.keys_of_issues`: the issues of one step.
* `Form.issues_are_failed_checks`: the issues of a form.
-/

namespace ConditionalForms

/-- All kinds of issues, in the order in which they are looked for. -/
def IssueCode.all : List IssueCode :=
  [.required, .maxLength, .notANumber, .minValue, .maxValue, .invalidOption]

/-- The number that an answer is: truth values are none, and neither is a NaN. -/
def Value.IsNumber (v : Value) (x : Double) : Prop :=
  (∀ b, v ≠ .bool b) ∧ v.measure = .ok x ∧ x.isNaN = false

theorem Value.IsNumber.unique {v : Value} {x y : Double} (hx : v.IsNumber x) (hy : v.IsNumber y) :
    x = y :=
  Except.ok.inj (hx.2.1.symm.trans hy.2.1)

namespace Field

/-- The answer of a field fails a check.  A blank answer can only be missing.  All other checks are
those that the kind of the field supports, against a limit that is set.  A number is too small if it
stands before the least one on the number line, and too large if it stands after the greatest. -/
def Fails (f : Field) (v : Value) : IssueCode → Prop
  | .required => isMissing v = .ok true ∧ f.required = true
  | .maxLength => isMissing v = .ok false ∧ f.kind.hasMaxLength = true ∧
      ∃ limit text, f.maxLength = some limit ∧ v.answerText = .ok text ∧ limit < text.length
  | .notANumber => isMissing v = .ok false ∧ f.kind = .number ∧ ∀ x, ¬ v.IsNumber x
  | .minValue => isMissing v = .ok false ∧ f.kind = .number ∧
      ∃ b x, f.minValue = some b ∧ v.IsNumber x ∧ ∃ p ∈ x.value?, ∃ q ∈ b.value?, p < q
  | .maxValue => isMissing v = .ok false ∧ f.kind = .number ∧
      ∃ b x, f.maxValue = some b ∧ v.IsNumber x ∧ ∃ p ∈ b.value?, ∃ q ∈ x.value?, p < q
  | .invalidOption => isMissing v = .ok false ∧ f.kind.hasOptions = true ∧ f.options ≠ [] ∧
      ∃ choice text, choice ∈ choices v ∧ choice.answerText = .ok text ∧ text ∉ f.options

variable {f : Field} {v : Value} {x : Double} {found : List Finding}

theorem fails_minValue_iff : f.Fails v .minValue ↔ isMissing v = .ok false ∧ f.kind = .number ∧
    ∃ b x, f.minValue = some b ∧ v.IsNumber x ∧ b.exceeds x = true := by
  simp only [Fails, Bound.exceeds_iff]

theorem fails_maxValue_iff : f.Fails v .maxValue ↔ isMissing v = .ok false ∧ f.kind = .number ∧
    ∃ b x, f.maxValue = some b ∧ v.IsNumber x ∧ b.fallsBelow x = true := by
  simp only [Fails, Bound.fallsBelow_iff]

/-- A blank answer can only be missing. -/
theorem eq_required_of_fails (hblank : isMissing v = .ok true) {code : IssueCode}
    (h : f.Fails v code) : code = .required := by
  cases code with
  | required => rfl
  | _ => simp [Fails, hblank] at h

theorem codes_nil {code : IssueCode} (h : ¬ f.Fails v code) :
    ([] : List Finding).map Prod.fst = those (f.Fails v) [code] :=
  (those_singleton_of_neg h).symm

theorem codes_singleton {code : IssueCode} {message : String} (h : f.Fails v code) :
    [(code, message)].map Prod.fst = those (f.Fails v) [code] :=
  (those_singleton_of_pos h).symm

theorem codes_of_lengthFindings (hgiven : isMissing v = .ok false)
    (h : f.lengthFindings v = .ok found) :
    found.map Prod.fst = those (f.Fails v) [.maxLength] := by
  rw [lengthFindings] at h
  split at h
  · rename_i hnone
    obtain rfl := pure_eq_ok.mp h
    exact codes_nil (by simp [Fails, hnone])
  · rename_i limit hlimit
    split at h
    · rename_i hkind
      obtain rfl := pure_eq_ok.mp h
      refine codes_nil ?_
      rintro ⟨-, hsupported, -⟩
      simp [hsupported] at hkind
    · rename_i hkind
      have hsupported : f.kind.hasMaxLength = true := by simpa using hkind
      obtain ⟨text, htext, h⟩ := bind_eq_ok.mp h
      split at h
      · rename_i hlong
        obtain ⟨written, -, h⟩ := bind_eq_ok.mp h
        obtain rfl := pure_eq_ok.mp h
        exact codes_singleton ⟨hgiven, hsupported, limit, text, hlimit, htext, hlong⟩
      · rename_i hshort
        obtain rfl := pure_eq_ok.mp h
        refine codes_nil ?_
        rintro ⟨-, -, other, text', hother, htext', hlong⟩
        obtain rfl := Option.some.inj (hlimit.symm.trans hother)
        obtain rfl := Except.ok.inj (htext.symm.trans htext')
        exact hshort hlong

/-- A check against a bound that may not be set. -/
theorem codes_of_boundFindings {code : IssueCode} {bound : Option Bound} {test : Bound → Bool}
    {wording : String} (hiff : f.Fails v code ↔ ∃ b, bound = some b ∧ test b = true)
    (h : (match bound with
      | none => pure []
      | some b =>
          if test b then do
            let limit ← b.toValue.plainText
            pure [(code, wording ++ limit)]
          else pure []) = Except.ok found) :
    found.map Prod.fst = those (f.Fails v) [code] := by
  cases bound with
  | none =>
      obtain rfl := pure_eq_ok.mp h
      exact codes_nil (by simp [hiff])
  | some b =>
      dsimp only at h
      split at h
      · rename_i htest
        obtain ⟨limit, -, h⟩ := bind_eq_ok.mp h
        obtain rfl := pure_eq_ok.mp h
        exact codes_singleton (hiff.mpr ⟨b, rfl, htest⟩)
      · rename_i htest
        obtain rfl := pure_eq_ok.mp h
        refine codes_nil fun hfails => ?_
        obtain ⟨c, hc, hctest⟩ := hiff.mp hfails
        obtain rfl := Option.some.inj hc
        exact htest hctest

theorem codes_of_minFindings (hgiven : isMissing v = .ok false) (hkind : f.kind = .number)
    (hx : v.IsNumber x) (h : f.minFindings x = .ok found) :
    found.map Prod.fst = those (f.Fails v) [.minValue] := by
  refine codes_of_boundFindings ?_ h
  rw [fails_minValue_iff]
  constructor
  · rintro ⟨-, -, b, y, hb, hy, hbelow⟩
    exact ⟨b, hb, by rwa [hx.unique hy]⟩
  · rintro ⟨b, hb, hbelow⟩
    exact ⟨hgiven, hkind, b, x, hb, hx, hbelow⟩

theorem codes_of_maxFindings (hgiven : isMissing v = .ok false) (hkind : f.kind = .number)
    (hx : v.IsNumber x) (h : f.maxFindings x = .ok found) :
    found.map Prod.fst = those (f.Fails v) [.maxValue] := by
  refine codes_of_boundFindings ?_ h
  rw [fails_maxValue_iff]
  constructor
  · rintro ⟨-, -, b, y, hb, hy, habove⟩
    exact ⟨b, hb, by rwa [hx.unique hy]⟩
  · rintro ⟨b, hb, habove⟩
    exact ⟨hgiven, hkind, b, x, hb, hx, habove⟩

/-- A number is compared with the bounds, and anything else is reported. -/
theorem numberFindings_cases (hkind : f.kind = .number) (h : f.numberFindings v = .ok found) :
    (∃ message, found = [(.notANumber, message)] ∧ ∀ x, ¬ v.IsNumber x) ∨
      ∃ x lower upper, v.IsNumber x ∧ f.minFindings x = .ok lower ∧
        f.maxFindings x = .ok upper ∧ found = lower ++ upper := by
  unfold numberFindings at h
  rw [if_neg (by simpa using hkind)] at h
  obtain ⟨x, hx, h⟩ := bind_eq_ok.mp h
  by_cases hnumber : (∀ b, v ≠ .bool b) ∧ x.isNaN = false
  · obtain ⟨hbool, hnan⟩ := hnumber
    have hcompare : (do return (← f.minFindings x) ++ (← f.maxFindings x)) = Except.ok found := by
      cases v with
      | bool b => exact absurd rfl (hbool b)
      | _ => simpa [hnan] using h
    simp only [bind_eq_ok, pure_eq_ok] at hcompare
    obtain ⟨lower, hlower, upper, hupper, rfl⟩ := hcompare
    exact Or.inr ⟨x, lower, upper, ⟨hbool, hx, hnan⟩, hlower, hupper, rfl⟩
  · have hreport : found = [(.notANumber, f.label ++ " must be a number")] := by
      cases v with
      | bool b => exact (pure_eq_ok.mp h).symm
      | _ => simp_all
    refine Or.inl ⟨_, hreport, ?_⟩
    rintro y ⟨hbool, hy, hnan⟩
    obtain rfl := Except.ok.inj (hx.symm.trans hy)
    exact hnumber ⟨hbool, hnan⟩

theorem codes_of_numberFindings (hgiven : isMissing v = .ok false)
    (h : f.numberFindings v = .ok found) :
    found.map Prod.fst = those (f.Fails v) [.notANumber, .minValue, .maxValue] := by
  by_cases hkind : f.kind = .number
  · rcases numberFindings_cases hkind h with
      ⟨message, rfl, hnone⟩ | ⟨x, lower, upper, hx, hlower, hupper, rfl⟩
    · rw [those_cons_of_pos ⟨hgiven, hkind, hnone⟩, those_eq_nil]
      · rfl
      · -- there is nothing to compare with the bounds
        intro code hcode
        simp only [List.mem_cons, List.not_mem_nil, or_false] at hcode
        rcases hcode with rfl | rfl
        · rintro ⟨-, -, b, x, -, hx, -⟩
          exact hnone x hx
        · rintro ⟨-, -, b, x, -, hx, -⟩
          exact hnone x hx
    · rw [those_cons_of_neg fun hfails => hfails.2.2 x hx, List.map_append,
        codes_of_minFindings hgiven hkind hx hlower, codes_of_maxFindings hgiven hkind hx hupper,
        ← those_append]
      rfl
  · have hfound : found = [] := by
      unfold numberFindings at h
      rw [if_pos hkind] at h
      exact (pure_eq_ok.mp h).symm
    rw [hfound, those_eq_nil]
    · rfl
    · intro code hcode
      simp only [List.mem_cons, List.not_mem_nil, or_false] at hcode
      rcases hcode with rfl | rfl | rfl <;> simp [Fails, hkind]

theorem codes_of_optionFindings (hgiven : isMissing v = .ok false)
    (h : f.optionFindings v = .ok found) :
    found.map Prod.fst = those (f.Fails v) [.invalidOption] := by
  rw [optionFindings] at h
  split at h
  · rename_i hnone
    obtain rfl := pure_eq_ok.mp h
    refine codes_nil ?_
    rintro ⟨-, hsupported, hset, -⟩
    simp [hsupported, hset] at hnone
  · rename_i hchecked
    have hsupported : f.kind.hasOptions = true ∧ f.options ≠ [] := by simpa using hchecked
    obtain ⟨unknown, hunknown, h⟩ := bind_eq_ok.mp h
    have hmem : ∀ choice, choice ∈ unknown ↔ choice ∈ choices v ∧
        ∃ text, choice.answerText = .ok text ∧ text ∉ f.options := by
      intro choice
      rw [mem_of_keep hunknown]
      simp only [bind_eq_ok, pure_eq_ok]
      simp
    split at h
    · rename_i hempty
      obtain rfl := pure_eq_ok.mp h
      refine codes_nil ?_
      rintro ⟨-, -, -, choice, text, hchoice, htext, hnot⟩
      have hin := (hmem choice).mpr ⟨hchoice, text, htext, hnot⟩
      rw [List.isEmpty_iff.mp hempty] at hin
      exact absurd hin List.not_mem_nil
    · rename_i hempty
      obtain ⟨shown, -, h⟩ := bind_eq_ok.mp h
      obtain rfl := pure_eq_ok.mp h
      obtain ⟨choice, hin⟩ := List.exists_mem_of_ne_nil unknown (by simpa using hempty)
      obtain ⟨hchoice, text, htext, hnot⟩ := (hmem choice).mp hin
      exact codes_singleton ⟨hgiven, hsupported.1, hsupported.2, choice, text, hchoice, htext, hnot⟩

/-- What is found in an answer are the checks that it fails, in order. -/
theorem codes_of_findings (h : f.findings v = .ok found) :
    found.map Prod.fst = those (f.Fails v) IssueCode.all := by
  simp only [findings, bind_eq_ok] at h
  obtain ⟨missing, hmissing, h⟩ := h
  cases missing with
  | true =>
      have hrest : those (f.Fails v) [.maxLength, .notANumber, .minValue, .maxValue,
          .invalidOption] = [] := by
        refine those_eq_nil fun code hcode hfails => ?_
        rw [eq_required_of_fails hmissing hfails] at hcode
        simp at hcode
      cases hrequired : f.required with
      | true =>
          obtain rfl : [(.required, f.label ++ " is required")] = found := by
            simpa [hrequired] using h
          rw [IssueCode.all, those_cons_of_pos ⟨hmissing, hrequired⟩, hrest]
          rfl
      | false =>
          obtain rfl : [] = found := by simpa [hrequired] using h
          rw [IssueCode.all, those_cons_of_neg (by simp [Fails, hrequired]), hrest]
          rfl
  | false =>
      simp only [Bool.false_eq_true, if_false, bind_eq_ok, pure_eq_ok] at h
      obtain ⟨length, hlength, number, hnumber, option, hoption, rfl⟩ := h
      rw [IssueCode.all, those_cons_of_neg (by simp [Fails, hmissing]), List.map_append,
        List.map_append, codes_of_lengthFindings hmissing hlength,
        codes_of_numberFindings hmissing hnumber, codes_of_optionFindings hmissing hoption,
        ← those_append, ← those_append]
      rfl

/-- The issues of a field in a context are the checks that its answer fails there. -/
theorem keys_of_issues {ctx : Context} {participant : Option Nat} {issues : List Issue}
    (h : f.issues ctx participant = .ok issues) :
    issues.map Issue.key = (those (f.Fails (ctx.answers.get f.name)) IssueCode.all).map
      fun code => (f.name, code, participant) := by
  simp only [Field.issues, bind_eq_ok, pure_eq_ok] at h
  obtain ⟨found, hfound, rfl⟩ := h
  rw [← codes_of_findings hfound, List.map_map, List.map_map]
  rfl

end Field

namespace Step

/-- The participants that the step is about, or all together. -/
def audience (s : Step) (sub : Submission) : List (Option Nat) :=
  if s.perParticipant then (List.range sub.participantCount).map some else [none]

/-- The step and a field of it are shown in a context. -/
def ShowsField (s : Step) (ctx : Context) (f : Field) : Prop :=
  RuleGroup.allows s.logic ctx = .ok true ∧ f.isShown ctx = .ok true

/-- The checks that the shown fields of the step fail, for a participant or for all together. -/
noncomputable def failures (s : Step) (sub : Submission) (participant : Option Nat) :
    List (String × IssueCode × Option Nat) :=
  (those (s.ShowsField (s.contextIn sub participant)) s.fields).flatMap fun f =>
    (those (f.Fails ((s.contextIn sub participant).answers.get f.name)) IssueCode.all).map
      fun code => (f.name, code, participant)

variable {s : Step} {sub : Submission} {participant : Option Nat} {issues : List Issue}

/-- A step that is not shown in a context has no field that is shown. -/
theorem failures_of_hidden (h : s.isShownIn (s.contextIn sub participant) = .ok false) :
    s.failures sub participant = [] := by
  rw [failures, those_eq_nil]
  · rfl
  · rintro f hf ⟨hlogic, hshown⟩
    exact Bool.false_ne_true ((isShownIn_iff h).mpr ⟨hlogic, Or.inr ⟨f, hf, hshown⟩⟩)

theorem keys_of_issuesFor (hstep : s.isShownIn (s.contextIn sub participant) = .ok true)
    (h : s.issuesFor sub participant = .ok issues) :
    issues.map Issue.key = s.failures sub participant := by
  simp only [issuesFor, bind_eq_ok, pure_eq_ok] at h
  obtain ⟨fields, hfields, found, hfound, rfl⟩ := h
  obtain ⟨hlogic, -⟩ := (isShownIn_iff hstep).mp rfl
  have hshown : fields = those (s.ShowsField (s.contextIn sub participant)) s.fields := by
    rw [keep_eq_those hfields]
    exact those_congr fun f _ => (and_iff_right hlogic).symm
  rw [failures, ← hshown]
  exact map_flatten_of_mapM hfound fun f _ own hown => Field.keys_of_issues hown

/-- The issues of a step for every participant. -/
theorem keys_of_issues_of_perParticipant (hper : s.perParticipant = true)
    (h : s.issues sub = .ok issues) :
    issues.map Issue.key =
      (List.range sub.participantCount).flatMap fun i => s.failures sub (some i) := by
  simp only [Step.issues, hper, if_true, bind_eq_ok, pure_eq_ok] at h
  obtain ⟨reached, hreached, found, hfound, rfl⟩ := h
  have hcontext : ∀ i : Nat, s.contextIn sub (some i) = sub.contextOf i := fun i => if_pos hper
  have hmap : found.flatten.map Issue.key = reached.flatMap fun i => s.failures sub (some i) := by
    refine map_flatten_of_mapM hfound fun i hi own hown => keys_of_issuesFor ?_ hown
    rw [hcontext]
    exact ((mem_of_keep hreached).mp hi).2
  rw [hmap, keep_eq_those hreached]
  refine flatMap_those fun i hi hhidden => failures_of_hidden ?_
  rw [hcontext]
  have htest : s.isShownTo sub i = .ok (decide (i ∈ reached)) := test_of_keep hreached hi
  cases hmem : decide (i ∈ reached) with
  | true => exact absurd (hmem ▸ htest) hhidden
  | false => exact hmem ▸ htest

/-- The issues of a step are the checks that its shown fields fail, for everyone it is about. -/
theorem keys_of_issues (h : s.issues sub = .ok issues) :
    issues.map Issue.key = (s.audience sub).flatMap (s.failures sub) := by
  cases hper : s.perParticipant with
  | true =>
      rw [keys_of_issues_of_perParticipant hper h, audience, if_pos hper, List.flatMap_map]
  | false =>
      simp only [Step.issues, hper, isShown, Bool.false_eq_true, if_false, bind_eq_ok] at h
      obtain ⟨shown, hshown, h⟩ := h
      have hstep : s.isShownIn (s.contextIn sub none) = .ok shown := hshown
      rw [audience, if_neg (by simp [hper]), List.flatMap_singleton]
      cases shown with
      | true => exact keys_of_issuesFor hstep h
      | false =>
          obtain rfl := pure_eq_ok.mp h
          rw [failures_of_hidden hstep]
          rfl

/-- A step with a field that is shown to someone it is about is shown itself, and shown to them. -/
theorem isShown_of_showsField {f : Field} (h : s.issues sub = .ok issues)
    (hi : participant ∈ s.audience sub) (hf : f ∈ s.fields)
    (hshows : s.ShowsField (s.contextIn sub participant) f) :
    s.isShown sub = .ok true ∧ ∀ i, participant = some i → s.isShownTo sub i = .ok true := by
  have hin : s.ShowsIn (s.contextIn sub participant) := ⟨hshows.1, Or.inr ⟨f, hf, hshows.2⟩⟩
  rw [Step.issues] at h
  cases hper : s.perParticipant with
  | true =>
      rw [if_pos hper, bind_eq_ok] at h
      obtain ⟨reached, hreached, -⟩ := h
      obtain ⟨i, hrange, rfl⟩ : ∃ i, i ∈ List.range sub.participantCount ∧ some i = participant := by
        simpa [audience, hper] using hi
      have hcontext : s.contextIn sub (some i) = sub.contextOf i := if_pos hper
      rw [hcontext] at hin
      have hto : s.isShownTo sub i = .ok true := by
        have htest := test_of_keep hreached hrange
        rw [htest, (isShownIn_iff htest).mpr hin]
      have hmem : i ∈ reached := (mem_of_keep hreached).mpr ⟨hrange, hto⟩
      constructor
      · rw [isShown, if_pos hper, anyOf_eq_any fun j hj => test_of_keep hreached hj,
          List.any_eq_true.mpr ⟨i, hrange, decide_eq_true hmem⟩]
      · rintro _ ⟨⟩
        exact hto
  | false =>
      obtain rfl : participant = none := by simpa [audience, hper] using hi
      rw [if_neg (by simp [hper]), bind_eq_ok] at h
      obtain ⟨shown, hshown, -⟩ := h
      have hstep : s.isShown sub = s.isShownIn (s.contextIn sub none) := if_neg (by simp [hper])
      rw [hstep] at hshown ⊢
      rw [hshown, (isShownIn_iff hshown).mpr hin]
      simp

end Step

namespace Form

variable {form : Form} {sub : Submission} {found : List Issue}

/-- The issues of a submission are exactly the checks that shown answers fail: step by step, for one
after the other of those that a step is about, field by field, and each check once.  A blank answer
fails no other check than the one for being missing.  Where a field is shown, its step is shown too,
to the same participant. -/
theorem issues_are_failed_checks (h : form.issues sub = .ok found) :
    (found.map fun x => (x.field, x.code, x.participant)) =
      (form.steps.flatMap fun s => (s.audience sub).flatMap fun i =>
        (those (s.ShowsField (s.contextIn sub i)) s.fields).flatMap fun f =>
          (those (f.Fails ((s.contextIn sub i).answers.get f.name)) IssueCode.all).map
            fun code => (f.name, code, i)) ∧
    (∀ (f : Field) (v : Value), f.Fails v .required → ∀ code, f.Fails v code → code = .required) ∧
    ∀ s ∈ form.steps, ∀ i ∈ s.audience sub, ∀ f ∈ s.fields, s.ShowsField (s.contextIn sub i) f →
      s.isShown sub = .ok true ∧ ∀ k, i = some k → s.isShownTo sub k = .ok true := by
  simp only [Form.issues, bind_eq_ok, pure_eq_ok] at h
  obtain ⟨lists, hlists, rfl⟩ := h
  refine ⟨?_, fun f v hrequired code hcode => ?_, fun s hs i hi f hf hshows => ?_⟩
  · exact map_flatten_of_mapM hlists fun s _ own hown => Step.keys_of_issues hown
  · exact Field.eq_required_of_fails hrequired.1 hcode
  · obtain ⟨own, -, hown⟩ := exists_right_of_forall₂ (forall₂_of_mapM hlists) hs
    exact Step.isShown_of_showsField hown hi hf hshows

/-- The registration form with a step on luggage at its end, where whole bags are asked for. -/
def withLuggage : Form :=
  { Example.registration "7" 2 with
    steps := (Example.registration "7" 2).steps ++
      [{ id := "luggage", key := "luggage", title := "Luggage", description := "",
         perParticipant := false, columns := 1, logic := none,
         fields :=
          [{ Field.plain "f-bags" "bags" "Bags" with
              kind := .number, minValue := some (.int 1), span := 1 }] }] }

/-- Two participants, and guardians who would like more seats on the bus than there are, from where
it does not stop, and share a bag with someone else. -/
def airportFamily : Submission :=
  { guardian := []
    participants := [[("age", .int 10)], [("age", .int 14)]]
    shared := [("contact-phone", .text "555 0100"), ("needs-transport", .text "yes"),
      ("pickup-point", .text "Airport"), ("seats", .int 9), ("consent", .list [.text "agree"]),
      ("bags", .text "0.5")]
    own := [[("tshirt-size", .text "S"), ("has-allergies", .text "yes")],
      [("tshirt-size", .text "XL"), ("has-allergies", .text "no")]] }

/-- What there is to be found out about them.  The first one is too young to be asked for a school,
and the second one has no allergies to describe. -/
def airportIssues : List (String × IssueCode × Option Nat) :=
  [("allergy-details", .required, some 0), ("tshirt-size", .invalidOption, some 1),
    ("school-name", .required, some 1), ("pickup-point", .invalidOption, none),
    ("seats", .maxValue, none), ("bags", .minValue, none)]

theorem issues_airportFamily :
    (∃ found, withLuggage.issues airportFamily = .ok found ∧
      found.map Issue.key = airportIssues) ∧
    airportIssues = withLuggage.steps.flatMap fun s =>
      (s.audience airportFamily).flatMap (s.failures airportFamily) := by
  have hfound : List.map Issue.key <$> withLuggage.issues airportFamily =
      .ok airportIssues := by decide +kernel
  obtain ⟨found, hissues, hkeys⟩ := map_eq_ok.mp hfound
  obtain ⟨hfailed, -, -⟩ := issues_are_failed_checks hissues
  exact ⟨⟨found, hissues, hkeys⟩, hkeys.symm.trans hfailed⟩

end Form

end ConditionalForms
