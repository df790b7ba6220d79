import ConditionalForms.Example
import ConditionalForms.Fill.Issue
import ConditionalForms.Proofs.Fill.Ledger

/-!
# Participants apart

What one participant answers, or takes back, is theirs alone: nothing that another participant is
shown changes, and nothing that all are shown together.  Two submissions that differ at most in the
answers of one participant are compared, through the contexts of the rules, the fields and steps
that are shown, and the issues that are found.

**Definitions.**
* `Submission.SameBeside`: the submissions differ at most in the answers of one participant.
* `Issue.concerns`: the issue is one of a participant or of all.
* `Form.LooksSameTo`: a participant is shown the same, and the same issues concern them.

**Results.**
* `Submission.sameBeside_of_answer`, `Submission.sameBeside_retract`: one answer is of one
  participant.
* `Step.filter_issues_eq`: the issues that concern another participant are the same.
* `Submission.others_look_same`: one participant cannot be noticed by another.
-/

namespace ConditionalForms

namespace Submission

variable {s t : Submission} {name : String} {v : Value} {j : Nat}

/-- The submissions differ at most in the answers of one participant. -/
structure SameBeside (j : Nat) (s t : Submission) : Prop where
  guardian : t.guardian = s.guardian
  participants : t.participants = s.participants
  shared : t.shared = s.shared
  answersOf : ∀ i : Nat, i ≠ j → t.answersOf i = s.answersOf i

theorem sameBeside_of_answer (h : s.answer name v (some (j : Int)) = .ok t) : SameBeside j s t := by
  have hanswers : ∀ i : Nat, i ≠ j → t.answersOf i = s.answersOf i := by
    intro i hij
    rw [answersOf_of_answer h, if_neg hij]
  obtain rfl := Except.ok.inj h
  exact ⟨rfl, rfl, rfl, hanswers⟩

theorem sameBeside_retract (s : Submission) (name : String) (j : Nat) :
    SameBeside j s (s.retract name (some (j : Int))) := by
  refine ⟨rfl, rfl, rfl, fun i hij => ?_⟩
  rw [answersOf_retract, if_neg hij]

theorem SameBeside.sharedContext_eq (h : SameBeside j s t) : t.sharedContext = s.sharedContext := by
  rw [sharedContext, sharedContext, h.guardian, h.shared]

theorem SameBeside.contextOf_eq (h : SameBeside j s t) :
    ∀ {i : Int}, i ≠ j → t.contextOf i = s.contextOf i
  | .ofNat i, hij => by
      have hanswers : t.answersOf (Int.ofNat i) = s.answersOf (Int.ofNat i) :=
        h.answersOf i fun e => hij (congrArg Int.ofNat e)
      rw [contextOf, contextOf, h.guardian, h.participants, h.shared, hanswers]
  | .negSucc i, _ => by
      rw [contextOf, contextOf, h.guardian, h.participants, h.shared]
      rfl

end Submission

/-- The issue is one of a participant or of all. -/
def Issue.concerns (i : Nat) (x : Issue) : Bool := x.participant = none ∨ x.participant = some i

namespace Step

theorem participant_of_mem_issuesFor {s : Step} {sub : Submission} {participant : Option Nat}
    {found : List Issue} {x : Issue} (h : s.issuesFor sub participant = .ok found)
    (hx : x ∈ found) : x.participant = participant := by
  simp only [issuesFor, bind_eq_ok, pure_eq_ok] at h
  obtain ⟨fields, -, issues, hissues, rfl⟩ := h
  obtain ⟨own, hown, hx⟩ := List.mem_flatten.mp hx
  obtain ⟨f, -, hf⟩ := exists_left_of_forall₂ (forall₂_of_mapM hissues) hown
  simp only [Field.issues, bind_eq_ok, pure_eq_ok] at hf
  obtain ⟨findings, -, rfl⟩ := hf
  obtain ⟨finding, -, rfl⟩ := List.mem_map.mp hx
  rfl

/-- Of the issues of a participant, all concern this participant and none another one. -/
theorem filter_issuesFor {s : Step} {sub : Submission} {i k : Nat} {found : List Issue}
    (h : s.issuesFor sub (some k) = .ok found) :
    found.filter (·.concerns i) = if k = i then found else [] := by
  by_cases hk : k = i
  · rw [if_pos hk, List.filter_eq_self]
    intro x hx
    simp [Issue.concerns, participant_of_mem_issuesFor h hx, hk]
  · rw [if_neg hk, List.filter_eq_nil_iff]
    intro x hx
    simp [Issue.concerns, participant_of_mem_issuesFor h hx, hk]

section Beside

open Submission (SameBeside)

variable {s : Step} {sub after : Submission} {i j : Nat}

theorem contextIn_eq (h : SameBeside j sub after) (hij : i ≠ j) :
    s.contextIn after (some i) = s.contextIn sub (some i) := by
  have hcontext : after.contextOf i = sub.contextOf i := h.contextOf_eq (by omega)
  simp only [contextIn, hcontext, h.sharedContext_eq]

theorem shownFields_eq (h : SameBeside j sub after) (hij : i ≠ j) :
    s.shownFields after (some i) = s.shownFields sub (some i) := by
  rw [shownFields, shownFields, contextIn_eq h hij]

theorem isShownTo_eq (h : SameBeside j sub after) (hij : i ≠ j) :
    s.isShownTo after i = s.isShownTo sub i := by
  rw [isShownTo, isShownTo, h.contextOf_eq (by omega)]

theorem mem_shownTo_iff {reached reached' : List Nat} (h : SameBeside j sub after) (hij : i ≠ j)
    (hreached : s.shownTo sub = .ok reached) (hreached' : s.shownTo after = .ok reached') :
    i ∈ reached' ↔ i ∈ reached := by
  rw [mem_of_keep hreached, mem_of_keep hreached', isShownTo_eq h hij, Submission.participantCount,
    Submission.participantCount, h.participants]

theorem isShown_eq (h : SameBeside j sub after) (hall : s.perParticipant = false) :
    s.isShown after = s.isShown sub := by
  simp only [isShown, hall, h.sharedContext_eq]
  rfl

theorem issuesFor_eq (h : SameBeside j sub after) (hij : i ≠ j) :
    s.issuesFor after (some i) = s.issuesFor sub (some i) := by
  rw [issuesFor, issuesFor, shownFields_eq h hij, contextIn_eq h hij]

theorem issuesFor_none_eq (h : SameBeside j sub after) :
    s.issuesFor after none = s.issuesFor sub none := by
  simp only [issuesFor, shownFields, contextIn, h.sharedContext_eq]

/-- The issues that a step for every participant finds with one of them are those that it finds
when it looks at nobody else. -/
theorem filter_issues_of_perParticipant {found : List Issue} (hper : s.perParticipant = true)
    (hfound : s.issues sub = .ok found) (i : Nat) :
    ∃ reached own, keep (s.isShownTo sub) ((List.range sub.participantCount).filter (· = i)) =
        .ok reached ∧
      reached.mapM (fun k => s.issuesFor sub (some k)) = .ok own ∧
      found.filter (·.concerns i) = own.flatten := by
  simp only [issues, hper, if_true, bind_eq_ok, pure_eq_ok] at hfound
  obtain ⟨reached, hreached, found, hfound, rfl⟩ := hfound
  obtain ⟨own, hown, hfilter⟩ := filter_flatten_of_mapM (q := (· = i))
    (fun k _ hk => by simpa using filter_issuesFor (i := i) hk) hfound
  exact ⟨_, own, keep_filter (· = i) hreached, hown, hfilter⟩

/-- The issues that concern another participant are the same. -/
theorem filter_issues_eq {found found' : List Issue} (h : SameBeside j sub after) (hij : i ≠ j)
    (hfound : s.issues sub = .ok found) (hfound' : s.issues after = .ok found') :
    found.filter (·.concerns i) = found'.filter (·.concerns i) := by
  cases hper : s.perParticipant with
  | false =>
      simp only [issues, hper, isShown_eq h hper, issuesFor_none_eq h] at hfound hfound'
      rw [Except.ok.inj (hfound.symm.trans hfound')]
  | true =>
      obtain ⟨reached, own, hreached, hown, hfilter⟩ :=
        filter_issues_of_perParticipant hper hfound i
      obtain ⟨reached', own', hreached', hown', hfilter'⟩ :=
        filter_issues_of_perParticipant hper hfound' i
      have hcount : after.participantCount = sub.participantCount :=
        congrArg List.length h.participants
      -- both runs now look at no participant but `i`, who is shown the same
      have hsame : reached' = reached := by
        rw [hcount] at hreached'
        refine Except.ok.inj (hreached'.symm.trans ((keep_congr fun k hk => ?_).trans hreached))
        obtain rfl : k = i := by simpa using (List.mem_filter.mp hk).2
        exact isShownTo_eq h hij
      subst hsame
      have hown_eq : own' = own := by
        refine Except.ok.inj (hown'.symm.trans ((mapM_congr fun k hk => ?_).trans hown))
        obtain rfl : k = i := by
          simpa using (List.mem_filter.mp ((mem_of_keep hreached).mp hk).1).2
        exact issuesFor_eq h hij
      rw [hfilter, hfilter', hown_eq]

end Beside

end Step

namespace Form

/-- A participant is shown the same by two submissions, and so are all together: the contexts of the
rules are the same, and hence the fields and steps that are shown and the issues that are found. -/
structure LooksSameTo (form : Form) (i : Nat) (sub after : Submission) : Prop where
  contextOf : after.contextOf i = sub.contextOf i
  sharedContext : after.sharedContext = sub.sharedContext
  shownFields : ∀ s : Step, s.shownFields after (some i) = s.shownFields sub (some i)
  shownTo : ∀ (s : Step) (reached reached' : List Nat), s.shownTo sub = .ok reached →
    s.shownTo after = .ok reached' → (i ∈ reached' ↔ i ∈ reached)
  isShown : ∀ s : Step, s.perParticipant = false → s.isShown after = s.isShown sub
  issues : ∀ found found' : List Issue, form.issues sub = .ok found →
    form.issues after = .ok found' → found'.filter (·.concerns i) = found.filter (·.concerns i)

theorem filter_issues_eq {form : Form} {sub after : Submission} {i j : Nat}
    {found found' : List Issue} (h : Submission.SameBeside j sub after) (hij : i ≠ j)
    (hfound : form.issues sub = .ok found) (hfound' : form.issues after = .ok found') :
    found'.filter (·.concerns i) = found.filter (·.concerns i) := by
  simp only [issues, bind_eq_ok, pure_eq_ok] at hfound hfound'
  obtain ⟨lists, hlists, rfl⟩ := hfound
  obtain ⟨lists', hlists', rfl⟩ := hfound'
  rw [List.filter_flatten, List.filter_flatten]
  refine congrArg List.flatten (map_eq_of_mapM hlists' hlists fun s _ xs' xs hxs' hxs => ?_)
  exact (Step.filter_issues_eq h hij hxs hxs').symm

theorem looksSameTo_of_sameBeside {form : Form} {sub after : Submission} {i j : Nat}
    (h : Submission.SameBeside j sub after) (hij : i ≠ j) : form.LooksSameTo i sub after where
  contextOf := h.contextOf_eq (by omega)
  sharedContext := h.sharedContext_eq
  shownFields _ := Step.shownFields_eq h hij
  shownTo _ _ _ := Step.mem_shownTo_iff h hij
  isShown _ := Step.isShown_eq h
  issues _ _ := filter_issues_eq h hij

end Form

/-- An answer of a participant is entered or taken back at any position, also one where nobody is or
nothing was answered yet.  It leaves the contexts at all other positions as they were, and whoever
else is there is shown the same. -/
theorem Submission.others_look_same (form : Form) (sub : Submission) (name : String) (v : Value)
    (j : Nat) :
    ∃ answered, sub.answer name v (some (j : Int)) = .ok answered ∧
      ∀ after, after = answered ∨ after = sub.retract name (some (j : Int)) →
        (∀ i : Int, i ≠ j → after.contextOf i = sub.contextOf i) ∧
          ∀ i : Nat, i ≠ j → form.LooksSameTo i sub after := by
  refine ⟨_, rfl, ?_⟩
  intro after hafter
  have hbeside : SameBeside j sub after := by
    rcases hafter with rfl | rfl
    · exact sameBeside_of_answer rfl
    · exact sameBeside_retract sub name j
  constructor
  · intro i hij
    exact hbeside.contextOf_eq hij
  · intro i hij
    exact Form.looksSameTo_of_sameBeside hbeside hij

/-- A form that asks every participant for allergies, and for details of them. -/
def allergyForm : Form :=
  { name := "Camp", description := "", program := "7", columns := 1
    steps :=
      [{ Example.participantStep 1 with
          fields :=
            [{ Field.plain "f-allergies" "has-allergies" "Has allergies" with
                kind := .radio, options := ["yes", "no"], span := 1 },
             { Field.plain "f-details" "details" "Details" with
                required := true, span := 1,
                logic := Example.onlyIf "answers.has-allergies" .equals "yes" }] }] }

/-- Two participants who have allergies unless they say otherwise, as the first of them does. -/
def twoCampers : Submission :=
  ⟨[], [[], []], [("has-allergies", .text "yes")], [[("has-allergies", .text "no")]]⟩

/-- The issue of a participant who gave no details. -/
def missingDetails (i : Nat) : Issue := ⟨"details", .required, "Details is required", some i⟩

/-- The first participant thinks of an allergy after all; the second one is asked as before. -/
theorem second_camper_looks_same :
    allergyForm.issues twoCampers = .ok [missingDetails 1] ∧
      ∃ after, twoCampers.answer "has-allergies" (.text "yes") (some 0) = .ok after ∧
        allergyForm.issues after = .ok [missingDetails 0, missingDetails 1] ∧
        allergyForm.LooksSameTo 1 twoCampers after := by
  obtain ⟨after, hafter, hsame⟩ :=
    Submission.others_look_same allergyForm twoCampers "has-allergies" (.text "yes") 0
  obtain ⟨_, hlook⟩ := hsame after (Or.inl rfl)
  refine ⟨by decide +kernel, after, hafter, ?_, hlook 1 (by decide)⟩
  obtain rfl := Except.ok.inj hafter
  decide +kernel

end ConditionalForms
