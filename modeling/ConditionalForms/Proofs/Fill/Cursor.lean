import ConditionalForms.Example
import ConditionalForms.Fill.Session
import ConditionalForms.Proofs.Sequence
import Mathlib

/-!
# The position of a session

A session moves over the steps of its form while answers show and hide them.  This module says
where it can stand.

**Definitions.**
* `Form.StandsAt`: a position in range, at a shown step unless no step is shown.
* `Form.nearestStep`: the step of a form that is nearest to an integer.
* `Session.Reached`: the sessions that a run of faultless actions leads to.

**Results.**
* `Form.standsAt_of_settle`, `Form.StandsAt.nextShown`, `Form.StandsAt.previousShown`: each of the
  three moves ends at such a position.
* `Session.Reached.standsAt`: every reached session stands at such a position.
* `Session.Reached.shows_page`: it is on a shown step whenever there is one, and a shown step with
  fields has something to show.
-/

namespace ConditionalForms

namespace Form

variable {form : Form} {sub : Submission} {index target : Int}

/-- A position in range, at a shown step unless no step is shown. -/
structure StandsAt (form : Form) (sub : Submission) (index : Int) : Prop where
  nonneg : 0 ≤ index
  inRange : form.steps ≠ [] → index < form.steps.length
  zero : form.steps = [] → index = 0
  shown : form.showsStep sub index.toNat = .ok true ∨
    ∀ v, form.showsStep sub v ≠ .ok true

theorem mem_stepsAfter {v : Nat} :
    v ∈ form.stepsAfter index ↔ v < form.steps.length ∧ index < v := by
  simp only [stepsAfter, List.mem_range'_1]
  omega

theorem mem_stepsBefore {v : Nat} :
    v ∈ form.stepsBefore index ↔ v < form.steps.length ∧ (v : Int) < index := by
  simp only [stepsBefore, List.mem_reverse, List.mem_range]
  omega

theorem lt_length_of_showsStep {v : Nat} (h : form.showsStep sub v = .ok true) :
    v < form.steps.length := by
  unfold showsStep at h
  split at h
  · rename_i s hs
    exact (List.getElem?_eq_some_iff.mp hs).1
  · simp at h

/-- A search for a shown step finds one among the positions, or all of them are hidden and it
stays. -/
theorem search_cases {positions : List Nat}
    (h : (do match ← firstOf? (form.showsStep sub) positions with
      | some v => return (v : Int)
      | none => return index) = Except.ok target) :
    (∃ v ∈ positions, target = (v : Int) ∧ form.showsStep sub v = .ok true) ∨
      (target = index ∧ ∀ v ∈ positions, form.showsStep sub v = .ok false) := by
  obtain ⟨found, hfound, h⟩ := bind_eq_ok.mp h
  cases found with
  | none => exact Or.inr ⟨(pure_eq_ok.mp h).symm, firstOf?_eq_none hfound⟩
  | some v =>
      obtain ⟨front, rest, hsplit, hv, _⟩ := firstOf?_eq_some hfound
      have hmem : v ∈ positions := by
        rw [hsplit]
        simp
      exact Or.inl ⟨v, hmem, (pure_eq_ok.mp h).symm, hv⟩

/-- A move forward ends at a shown step ahead, or stays where nothing ahead is shown. -/
theorem nextShown_cases (h : form.nextShown sub index = .ok target) :
    (∃ v : Nat, target = v ∧ index < v ∧ v < form.steps.length ∧
      form.showsStep sub v = .ok true) ∨
    (target = index ∧ ∀ v : Nat, index < v → v < form.steps.length →
      form.showsStep sub v = .ok false) := by
  rcases search_cases h with ⟨v, hmem, htarget, hv⟩ | ⟨htarget, hnone⟩
  · obtain ⟨hlt, hafter⟩ := mem_stepsAfter.mp hmem
    exact Or.inl ⟨v, htarget, hafter, hlt, hv⟩
  · exact Or.inr ⟨htarget, fun v hv hlt => hnone v (mem_stepsAfter.mpr ⟨hlt, hv⟩)⟩

/-- A move back ends at a shown step behind, or stays where nothing behind is shown. -/
theorem previousShown_cases (h : form.previousShown sub index = .ok target) :
    (∃ v : Nat, target = v ∧ (v : Int) < index ∧ v < form.steps.length ∧
      form.showsStep sub v = .ok true) ∨
    (target = index ∧ ∀ v : Nat, (v : Int) < index → v < form.steps.length →
      form.showsStep sub v = .ok false) := by
  rcases search_cases h with ⟨v, hmem, htarget, hv⟩ | ⟨htarget, hnone⟩
  · obtain ⟨hlt, hbefore⟩ := mem_stepsBefore.mp hmem
    exact Or.inl ⟨v, htarget, hbefore, hlt, hv⟩
  · exact Or.inr ⟨htarget, fun v hv hlt => hnone v (mem_stepsBefore.mpr ⟨hlt, hv⟩)⟩

/-- A shown step within the form is a position to stand at. -/
theorem standsAt_of_showsStep {v : Nat} (h : form.showsStep sub v = .ok true) :
    form.StandsAt sub v := by
  have hlt := lt_length_of_showsStep h
  refine ⟨by omega, fun _ => by omega, ?_, Or.inl (by simpa using h)⟩
  intro hnil
  simp [hnil] at hlt

theorem StandsAt.nextShown (here : form.StandsAt sub index)
    (h : form.nextShown sub index = .ok target) : form.StandsAt sub target := by
  rcases nextShown_cases h with ⟨v, rfl, _, _, hv⟩ | ⟨rfl, _⟩
  · exact standsAt_of_showsStep hv
  · exact here

theorem StandsAt.previousShown (here : form.StandsAt sub index)
    (h : form.previousShown sub index = .ok target) : form.StandsAt sub target := by
  rcases previousShown_cases h with ⟨v, rfl, _, _, hv⟩ | ⟨rfl, _⟩
  · exact standsAt_of_showsStep hv
  · exact here

/-- The step of a form that is nearest to an integer. -/
def nearestStep (form : Form) (i : Int) : Nat :=
  (min (max i 0) ((form.steps.length : Int) - 1)).toNat

theorem nearestStep_lt (hne : form.steps ≠ []) (i : Int) :
    form.nearestStep i < form.steps.length := by
  have hpos : 0 < form.steps.length := List.length_pos_iff.mpr hne
  rw [nearestStep]
  omega

theorem settle_of_empty (h : form.steps = []) (i : Int) : form.settle sub i = .ok 0 := by
  simp [settle, h]

/-- Settling is a move forward from a hidden step, or else a move back. -/
theorem settle_eq (hne : form.steps ≠ []) (i : Int) :
    form.settle sub i = (do
      if ← form.showsStep sub (form.nearestStep i) then return (form.nearestStep i : Int)
      let ahead ← form.nextShown sub (form.nearestStep i)
      if ahead = form.nearestStep i then form.previousShown sub (form.nearestStep i)
      else return ahead) := by
  have hpos : 0 < form.steps.length := List.length_pos_iff.mpr hne
  have hempty : form.steps.isEmpty = false := by simpa using hne
  have hnear : min (max i 0) ((form.steps.length : Int) - 1) = form.nearestStep i := by
    rw [nearestStep]
    omega
  simp only [settle, hempty, hnear, Int.toNat_natCast]
  rfl

/-- A position in range stands if its step, those ahead and those behind are all hidden. -/
theorem standsAt_of_hidden {c : Nat} (hc : c < form.steps.length)
    (hhere : form.showsStep sub c = .ok false)
    (hahead : ∀ v : Nat, (c : Int) < v → v < form.steps.length → form.showsStep sub v = .ok false)
    (hbehind : ∀ v : Nat, (v : Int) < c → v < form.steps.length →
      form.showsStep sub v = .ok false) : form.StandsAt sub c := by
  refine ⟨by omega, fun _ => by omega, ?_, Or.inr fun v hv => ?_⟩
  · intro hnil
    simp [hnil] at hc
  · have hlt := lt_length_of_showsStep hv
    have hhidden : form.showsStep sub v = .ok false := by
      rcases Nat.lt_trichotomy v c with hlt' | rfl | hgt
      · exact hbehind v (by omega) hlt
      · exact hhere
      · exact hahead v (by omega) hlt
    rw [hhidden] at hv
    simp at hv

/-- Settling gives a position to stand at, from wherever it starts. -/
theorem standsAt_of_settle (h : form.settle sub index = .ok target) :
    form.StandsAt sub target := by
  by_cases hnil : form.steps = []
  · rw [settle_of_empty hnil] at h
    obtain rfl := Except.ok.inj h
    refine ⟨by omega, fun hne => absurd hnil hne, fun _ => rfl, Or.inr fun v hv => ?_⟩
    have := lt_length_of_showsStep hv
    simp [hnil] at this
  have hnear := nearestStep_lt hnil index
  rw [settle_eq hnil] at h
  obtain ⟨shown, hshown, h⟩ := bind_eq_ok.mp h
  cases shown with
  | true =>
      obtain rfl := Except.ok.inj h
      exact standsAt_of_showsStep hshown
  | false =>
      obtain ⟨ahead, hahead, h⟩ := bind_eq_ok.mp h
      rcases nextShown_cases hahead with ⟨v, rfl, hafter, _, hv⟩ | ⟨rfl, hnone⟩
      · rw [if_neg (by omega)] at h
        obtain rfl := Except.ok.inj h
        exact standsAt_of_showsStep hv
      · rw [if_pos rfl] at h
        rcases previousShown_cases h with ⟨v, rfl, _, _, hv⟩ | ⟨rfl, hnone'⟩
        · exact standsAt_of_showsStep hv
        · exact standsAt_of_hidden hnear hshown hnone hnone'

end Form

namespace Session

/-- The sessions that a start and a run of actions lead to, none of which ends in a fault. -/
inductive Reached : Session → Prop
  | start {form : Form} {sub : Submission} {index : Int} {s : Session} :
      Session.start form sub index = .ok s →
      Reached s
  | perform {s : Session} {a : Action} {moved : Option Int} :
      Reached s →
      (s.perform a).moved = .ok moved →
      Reached (s.perform a).session

/-- The session stands at a good position of its form. -/
def StandsAt (s : Session) : Prop := s.form.StandsAt s.submission s.index

theorem standsAt_of_start {form : Form} {sub : Submission} {index : Int} {s : Session}
    (h : Session.start form sub index = .ok s) : s.StandsAt := by
  simp only [Session.start, bind_eq_ok, pure_eq_ok] at h
  obtain ⟨i, hi, rfl⟩ := h
  exact Form.standsAt_of_settle hi

theorem standsAt_of_replace {s : Session} {sub : Submission} {moved : Option Int}
    (h : (s.replace sub).moved = .ok moved) : (s.replace sub).session.StandsAt := by
  unfold replace at h ⊢
  cases hi : s.form.settle sub s.index with
  | error e => simp [hi] at h
  | ok i => exact Form.standsAt_of_settle hi

/-- One faultless action leads from a good position to a good position. -/
theorem StandsAt.perform {s : Session} {a : Action} {moved : Option Int} (here : s.StandsAt)
    (h : (s.perform a).moved = .ok moved) : (s.perform a).session.StandsAt := by
  cases a with
  | answer name v participant =>
      cases hsub : s.submission.answer name v participant with
      | error e => simp [Session.perform, hsub] at h
      | ok sub =>
          simp only [Session.perform, hsub] at h ⊢
          exact standsAt_of_replace h
  | retract name participant => exact standsAt_of_replace h
  | enterGuardian guardian => exact standsAt_of_replace h
  | enterParticipants participants => exact standsAt_of_replace h
  | next =>
      cases hi : s.form.nextShown s.submission s.index with
      | error e => simp [Session.perform, moveTo, hi] at h
      | ok i =>
          simp only [Session.perform, moveTo, hi]
          exact Form.StandsAt.nextShown here hi
  | previous =>
      cases hi : s.form.previousShown s.submission s.index with
      | error e => simp [Session.perform, moveTo, hi] at h
      | ok i =>
          simp only [Session.perform, moveTo, hi]
          exact Form.StandsAt.previousShown here hi

/-- Every reached session stands at a good position. -/
theorem Reached.standsAt {s : Session} (h : Reached s) : s.StandsAt := by
  induction h with
  | start h => exact standsAt_of_start h
  | perform _ h ih => exact ih.perform h

theorem step?_eq {s : Session} (h : s.StandsAt) : s.step? = s.form.steps[s.index.toNat]? := by
  obtain ⟨i, hi⟩ := Int.eq_ofNat_of_zero_le h.nonneg
  simp [step?, hi, itemAt?]

theorem isShown_eq {s : Session} (h : s.StandsAt) :
    s.isShown = s.form.showsStep s.submission s.index.toNat := by
  cases hstep : s.form.steps[s.index.toNat]? with
  | none => simp [isShown, Form.showsStep, step?_eq h, hstep]
  | some step => simp [isShown, Form.showsStep, step?_eq h, hstep]

end Session

namespace Step

/-- A step that is shown in a context and has fields shows one of them there. -/
theorem exists_field_of_isShownIn {s : Step} {ctx : Context} (hfields : s.fields ≠ [])
    (h : s.isShownIn ctx = .ok true) : ∃ f ∈ s.fields, f.isShown ctx = .ok true := by
  simp only [isShownIn, bind_eq_ok] at h
  obtain ⟨allowed, _, h⟩ := h
  have hempty : s.fields.isEmpty = false := by simpa using hfields
  cases allowed with
  | false => simp at h
  | true => exact exists_of_anyOf (by simpa [hempty] using h)

theorem keep_ne_nil_of_isShownIn {s : Step} {ctx : Context} {fs : List Field}
    (hfields : s.fields ≠ []) (h : s.isShownIn ctx = .ok true)
    (hkeep : keep (·.isShown ctx) s.fields = .ok fs) : fs ≠ [] := by
  obtain ⟨f, hf, hshown⟩ := exists_field_of_isShownIn hfields h
  exact List.ne_nil_of_mem ((mem_of_keep hkeep).mpr ⟨hf, hshown⟩)

end Step

namespace Session

/-- The session is in range, on a shown step whenever there is one, and if its step is shown and
has fields then some field is on display: for a step for every participant, to some participant
and to each that it is shown to. -/
theorem Reached.shows_page {s : Session} (h : Reached s) :
    (s.form.steps = [] → s.index = 0) ∧
    (s.form.steps ≠ [] → 0 ≤ s.index ∧ s.index < s.form.steps.length) ∧
    ((∃ v, s.form.showsStep s.submission v = .ok true) → s.isShown = .ok true) ∧
    ∀ step, s.step? = some step → s.isShown = .ok true → step.fields ≠ [] →
      (step.perParticipant = false → ∀ fs, s.fields none = .ok fs → fs ≠ []) ∧
      (step.perParticipant = true → ∀ ps, s.participants = .ok ps → ps ≠ [] ∧
        ∀ i ∈ ps, ∀ fs, s.fields (some i) = .ok fs → fs ≠ []) := by
  have here := h.standsAt
  refine ⟨here.zero, fun hne => ⟨here.nonneg, here.inRange hne⟩, ?_, ?_⟩
  · rintro ⟨v, hv⟩
    rw [isShown_eq here]
    exact here.shown.resolve_right fun hnone => hnone v hv
  · intro step hstep hshown hfields
    simp only [isShown, hstep] at hshown
    constructor
    · intro hall fs hfs
      simp only [Step.isShown, hall, Bool.false_eq_true, if_false] at hshown
      simp only [fields, hstep] at hfs
      exact Step.keep_ne_nil_of_isShownIn hfields hshown hfs
    · intro hper ps hps
      simp only [Step.isShown, hper, if_true] at hshown
      simp only [participants, hstep, hper, if_true] at hps
      constructor
      · obtain ⟨i, hi, hi'⟩ := exists_of_anyOf hshown
        exact List.ne_nil_of_mem ((mem_of_keep hps).mpr ⟨hi, hi'⟩)
      · intro i hi fs hfs
        have hto : step.isShownIn (s.submission.contextOf i) = .ok true :=
          ((mem_of_keep hps).mp hi).2
        simp only [fields, hstep, Step.shownFields, Step.contextIn, hper, if_true] at hfs
        exact Step.keep_ne_nil_of_isShownIn hfields hto hfs

/-- The registration form at a position, with one participant and some shared answers. -/
def registering (answers : Record) (index : Int) : Session :=
  ⟨Example.registration "7" 2, ⟨[], [[("age", .int 14)]], answers, []⟩, index⟩

/-- Taking back the answer that shows the transport step leads on to the last step, and from there
back to the step of the participant. -/
theorem shows_page_after_retract :
    Reached (registering [] 1) ∧ (registering [] 1).isShown = .ok true ∧
      ∀ fs, (registering [] 1).fields (some 0) = .ok fs → fs ≠ [] := by
  have hstart : Session.start (Example.registration "7" 2)
      ⟨[], [[("age", .int 14)]], [("needs-transport", .text "yes")], []⟩ 2 =
      .ok (registering [("needs-transport", .text "yes")] 2) := by cbv
  have hretract : (registering [("needs-transport", .text "yes")] 2).perform
      (.retract "needs-transport" none) =
      ⟨registering [] 3, .ok none, ["Current step 2 became hidden; showing step 3"]⟩ := by cbv
  have hprevious : (registering [] 3).perform .previous =
      ⟨registering [] 1, .ok (some 1), []⟩ := by cbv
  have consent : Reached (registering [] 3) := by
    have h := (Reached.start hstart).perform (congrArg Outcome.moved hretract)
    rwa [hretract] at h
  have reached : Reached (registering [] 1) := by
    have h := consent.perform (congrArg Outcome.moved hprevious)
    rwa [hprevious] at h
  have hstep : (registering [] 1).step? = some (Example.participantStep 2) := by cbv
  have hto : (registering [] 1).participants = .ok [0] := by cbv
  obtain ⟨_, _, hshown, hpage⟩ := reached.shows_page
  have shown : (registering [] 1).isShown = .ok true := hshown ⟨1, by cbv⟩
  obtain ⟨_, hper⟩ := hpage _ hstep shown (List.cons_ne_nil _ _)
  exact ⟨reached, shown, (hper rfl [0] hto).2 0 (List.mem_singleton.mpr rfl)⟩

end Session

end ConditionalForms
