import ConditionalForms.Proofs.Audit.Errors
import ConditionalForms.Proofs.Contract

/-!
# What the review of a document says

A document is reviewed before it is handed on.  What can be wrong with it is told apart from the
review: a document has some defects, and each of them has its message.  The review lists exactly the
defects that there are, those of the whole document first and then those of its entries one by one,
so that nothing is left to say exactly if the document is in order.  It fails where the fields are
something that has no entries to go through.

**Definitions.**
* `Document.IsFilled`: a text that is not blank.
* `Document.Defect`: what may be wrong, and `Document.Has`: what is wrong.
* `Document.IsFilledRecord`, `Document.IsInOrder`: an entry and a document that may be handed on.
* `Document.IsUnlistable`: a value that has no entries to go through.

**Results.**
* `Document.errors_eq`: the errors are the messages of the defects.
* `Document.errors_eq_nil_iff`: there are none exactly if the document is in order.
* `Document.review_lists_defects`: both outcomes of the review of a document.
-/

namespace ConditionalForms

namespace Document

/-- The value is a text that is not blank. -/
def IsFilled (v : Value) : Prop := ∃ s, v = .text s ∧ Text.isAllBlank s = false

/-- What may be wrong with a document or with the entry at a position. -/
inductive Defect where
  | noTitle
  | noProgram
  | noFields
  | noSteps
  | noObject (index : Nat)
  | notFilled (index : Nat) (name : String)

namespace Defect

/-- The message about a defect. -/
def message : Defect → String
  | .noTitle => "Form title is required"
  | .noProgram => "Valid program ID is required"
  | .noFields => "At least one field is required"
  | .noSteps => "At least one step is required"
  | .noObject index => "Field " ++ toString (index + 1) ++ ": " ++ "not an object"
  | .notFilled index name => "Field " ++ toString (index + 1) ++ ": " ++ name ++ " is required"

/-- What may be wrong with the entry at a position. -/
def ofEntry (index : Nat) : List Defect :=
  .noObject index :: requiredMembers.map (.notFilled index)

/-- What may be wrong with a document of some entries, in the order in which it is looked for. -/
def all (count : Nat) : List Defect :=
  [.noTitle, .noProgram, .noFields, .noSteps] ++ (List.range count).flatMap ofEntry

end Defect

/-- A document whose fields are given as some entries has a defect. -/
def Has (document : Record) (entries : List Value) : Defect → Prop
  | .noTitle => ¬ IsFilled (document.get "title")
  | .noProgram => ∀ n, document.get "program" ≠ .int n
  | .noFields => (document.get "fields").isTruthy = false
  | .noSteps => (document.get "steps").isTruthy = false
  | .noObject index => ∃ v, entries[index]? = some v ∧ ∀ r, v ≠ .object r
  | .notFilled index name =>
      ∃ r, entries[index]? = some (.object r) ∧ ¬ IsFilled (Record.get r name)

/-- The value is a record with all members filled that a field must have. -/
def IsFilledRecord (v : Value) : Prop :=
  ∃ r, v = .object r ∧ ∀ name ∈ requiredMembers, IsFilled (Record.get r name)

/-- A document that may be handed on: it has a title, the number of a program, something for its
steps, and a list of fields, at least one and all of them filled. -/
structure IsInOrder (document : Record) : Prop where
  title : IsFilled (document.get "title")
  program : ∃ n, document.get "program" = .int n
  steps : (document.get "steps").isTruthy = true
  fields : ∃ entries, document.get "fields" = .list entries ∧ entries ≠ [] ∧
    ∀ v ∈ entries, IsFilledRecord v

/-- The value stands for something, and has neither items nor members nor characters. -/
structure IsUnlistable (v : Value) : Prop where
  truthy : v.isTruthy = true
  noList : ∀ items, v ≠ .list items
  noObject : ∀ members, v ≠ .object members
  noText : ∀ s, v ≠ .text s

variable {document : Record} {entries : List Value} {v : Value} {index : Nat}

theorem isFilledText_iff : isFilledText v = true ↔ IsFilled v := by
  cases v <;> simp [isFilledText, IsFilled]

theorem isInteger_iff : isInteger v = true ↔ ∃ n, v = .int n := by
  cases v <;> simp [isInteger]

/-- A message under the condition of a defect stands for that defect. -/
theorem messageIf_eq_those {P : Defect → Prop} {d : Defect} {condition : Bool}
    (h : condition = true ↔ P d) :
    messageIf condition d.message = (those P [d]).map Defect.message := by
  by_cases hd : P d
  · rw [those_singleton_of_pos hd, h.mpr hd]
    rfl
  · rw [those_singleton_of_neg hd, Bool.eq_false_iff.mpr (mt h.mp hd)]
    rfl

/-- The errors of an entry are those of its defects. -/
theorem recordErrors_eq (h : entries[index]? = some v) :
    recordErrors v index =
      (those (Has document entries) (Defect.ofEntry index)).map Defect.message := by
  by_cases hobject : ∃ r, v = .object r
  · obtain ⟨r, rfl⟩ := hobject
    have hnone : ¬ Has document entries (.noObject index) := by simp [Has, h]
    have hname (name : String) : (!isFilledText (Record.get r name)) = true ↔
        Has document entries (.notFilled index name) := by
      rw [Bool.not_eq_true', ← Bool.not_eq_true, isFilledText_iff]
      simp [Has, h]
    rw [Defect.ofEntry, those_cons_of_neg hnone, List.map_eq_flatMap (f := Defect.notFilled index),
      those_flatMap, List.map_flatMap]
    exact List.flatMap_congr fun name _ => messageIf_eq_those (hname name)
  · rw [not_exists] at hobject
    have hrest : those (Has document entries) (requiredMembers.map (Defect.notFilled index)) = [] := by
      refine those_eq_nil fun d hd => ?_
      obtain ⟨name, -, rfl⟩ := List.mem_map.mp hd
      rintro ⟨r, hr, -⟩
      exact hobject r (Option.some.inj (h.symm.trans hr))
    rw [Defect.ofEntry, those_cons_of_pos ⟨v, h, hobject⟩, hrest]
    cases v with
    | object r => exact absurd rfl (hobject r)
    | _ => rfl

/-- The errors of a document are the messages of its defects, in order. -/
theorem errors_eq (document : Record) (entries : List Value) :
    errors document entries =
      (those (Has document entries) (Defect.all entries.length)).map Defect.message := by
  have htitle : (!isFilledText (document.get "title")) = true ↔
      Has document entries .noTitle := by
    rw [Bool.not_eq_true', ← Bool.not_eq_true, isFilledText_iff]
    rfl
  have hprogram : (!isInteger (document.get "program")) = true ↔
      Has document entries .noProgram := by
    rw [Bool.not_eq_true', ← Bool.not_eq_true, isInteger_iff, not_exists]
    rfl
  have hfields : (!(document.get "fields").isTruthy) = true ↔ Has document entries .noFields := by
    rw [Bool.not_eq_true']
    rfl
  have hsteps : (!(document.get "steps").isTruthy) = true ↔ Has document entries .noSteps := by
    rw [Bool.not_eq_true']
    rfl
  have hentries : (entries.zipIdx.flatMap fun p => recordErrors p.1 p.2) =
      (those (Has document entries) ((List.range entries.length).flatMap Defect.ofEntry)).map
        Defect.message := by
    rw [those_flatMap, List.map_flatMap, List.range_eq_range', ← List.zipIdx_map_snd,
      List.flatMap_map]
    exact List.flatMap_congr fun p hp => recordErrors_eq (List.mem_zipIdx_iff_getElem?.mp hp)
  have hsplit : Defect.all entries.length = [.noTitle] ++ [.noProgram] ++ [.noFields] ++
      [.noSteps] ++ (List.range entries.length).flatMap Defect.ofEntry := rfl
  rw [hsplit]
  simp only [those_append, List.map_append]
  rw [← messageIf_eq_those htitle, ← messageIf_eq_those hprogram, ← messageIf_eq_those hfields,
    ← messageIf_eq_those hsteps, ← hentries]
  rfl

/-- The entry at a position is a filled record exactly if it has no defects. -/
theorem isFilledRecord_iff (h : entries[index]? = some v) :
    IsFilledRecord v ↔ ∀ d ∈ Defect.ofEntry index, ¬ Has document entries d := by
  rw [Defect.ofEntry, List.forall_mem_cons, List.forall_mem_map]
  constructor
  · rintro ⟨r, rfl, hfilled⟩
    refine ⟨?_, fun name hname => ?_⟩
    · rintro ⟨v, hv, hother⟩
      exact hother r (Option.some.inj (hv.symm.trans h))
    · rintro ⟨s, hs, hblank⟩
      obtain rfl : s = r := by simpa using hs.symm.trans h
      exact hblank (hfilled name hname)
  · rintro ⟨hobject, hmembers⟩
    obtain ⟨r, rfl⟩ : ∃ r, v = .object r := by
      by_contra hother
      exact hobject ⟨v, h, not_exists.mp hother⟩
    refine ⟨r, rfl, fun name hname => ?_⟩
    by_contra hblank
    exact hmembers name hname ⟨r, h, hblank⟩

/-- Values that are all filled records are the items of a list, if they are what something lists. -/
theorem eq_list_of_listed (h : listed v = .ok entries) (htruthy : v.isTruthy = true)
    (hfilled : ∀ w ∈ entries, IsFilledRecord w) : v = .list entries ∧ entries ≠ [] := by
  cases v with
  | list items =>
      obtain rfl := Except.ok.inj h
      exact ⟨rfl, by simpa [Value.isTruthy] using htruthy⟩
  | object members =>
      obtain rfl := Except.ok.inj h
      obtain ⟨m, hm⟩ := List.exists_mem_of_ne_nil members (by simpa [Value.isTruthy] using htruthy)
      obtain ⟨r, hr, -⟩ := hfilled _ (List.mem_map_of_mem hm)
      cases hkey : m.1 <;> simp [hkey, Key.toValue] at hr
  | text s =>
      obtain rfl := Except.ok.inj h
      obtain ⟨c, hc⟩ := List.exists_mem_of_ne_nil s.toList (by simpa [Value.isTruthy] using htruthy)
      obtain ⟨r, hr, -⟩ := hfilled _ (List.mem_map_of_mem hc)
      cases hr
  | _ => simp [listed, htruthy] at h

/-- A document has no errors exactly if it is in order. -/
theorem errors_eq_nil_iff (h : listed (document.get "fields") = .ok entries) :
    errors document entries = [] ↔ IsInOrder document := by
  have hentries : (∀ d ∈ (List.range entries.length).flatMap Defect.ofEntry,
      ¬ Has document entries d) ↔ ∀ v ∈ entries, IsFilledRecord v := by
    constructor
    · intro hnone v hv
      obtain ⟨i, hi, rfl⟩ := List.getElem_of_mem hv
      refine (isFilledRecord_iff (List.getElem?_eq_getElem hi)).mpr fun d hd => hnone d ?_
      exact List.mem_flatMap.mpr ⟨i, List.mem_range.mpr hi, hd⟩
    · intro hfilled d hd
      obtain ⟨i, hi, hd⟩ := List.mem_flatMap.mp hd
      have hi := List.getElem?_eq_getElem (List.mem_range.mp hi)
      exact (isFilledRecord_iff hi).mp (hfilled _ (List.mem_of_getElem? hi)) d hd
  rw [errors_eq, List.map_eq_nil_iff, those_eq_nil_iff, Defect.all, List.forall_mem_append,
    hentries]
  simp only [List.forall_mem_cons, List.not_mem_nil, false_implies, implies_true, and_true, Has,
    not_not, not_forall, Bool.not_eq_false]
  constructor
  · rintro ⟨⟨htitle, hprogram, hfields, hsteps⟩, hfilled⟩
    obtain ⟨hlist, hne⟩ := eq_list_of_listed h hfields hfilled
    exact ⟨htitle, hprogram, hsteps, entries, hlist, hne, hfilled⟩
  · rintro ⟨htitle, hprogram, hsteps, items, hlist, hne, hfilled⟩
    rw [hlist] at h
    obtain rfl := Except.ok.inj h
    refine ⟨⟨htitle, hprogram, ?_, hsteps⟩, hfilled⟩
    rw [hlist]
    simpa [Value.isTruthy] using hne

/-- What a value lists, unless it cannot be gone through. -/
theorem contract_listed (v : Value) :
    Contract (fun e => IsUnlistable v ∧ e = .notIterable v.fullKindName)
      (fun _ => ¬ IsUnlistable v) (listed v) := by
  unfold listed
  split
  · exact fun h => h.noList _ rfl
  · exact fun h => h.noObject _ rfl
  · exact fun h => h.noText _ rfl
  · rename_i hlist hobject htext
    by_cases htruthy : v.isTruthy = true
    · rw [if_pos htruthy]
      exact ⟨⟨htruthy, hlist, hobject, htext⟩, rfl⟩
    · rw [if_neg htruthy]
      exact fun h => htruthy h.truthy

/-- The review of a document fails exactly if its fields cannot be gone through.  Otherwise it gives
no warnings, its errors are the messages of the defects of the document, in order, and it accepts
the document exactly if that is in order. -/
theorem review_lists_defects (document : Record) :
    (∀ e, review document = .error e ↔ IsUnlistable (document.get "fields") ∧
      e = .notIterable (document.get "fields").fullKindName) ∧
    ∀ r, review document = .ok r → r.warnings = [] ∧
      (∃ entries, listed (document.get "fields") = .ok entries ∧
        r.errors = (those (Has document entries) (Defect.all entries.length)).map Defect.message) ∧
      (r.isValid = true ↔ IsInOrder document) := by
  have hcontract := contract_listed (document.get "fields")
  constructor
  · have hreview : Contract (fun e => IsUnlistable (document.get "fields") ∧
        e = .notIterable (document.get "fields").fullKindName)
        (fun _ => ¬ IsUnlistable (document.get "fields")) (review document) :=
      hcontract.bind fun _ hlisted => .pure hlisted
    intro e
    refine hreview.eq_error_iff (fun _ hlisted _ he => hlisted he.1) ?_
    rintro e f ⟨-, rfl⟩ ⟨-, rfl⟩
    rfl
  · intro r hr
    simp only [review, bind_eq_ok, pure_eq_ok] at hr
    obtain ⟨entries, hentries, rfl⟩ := hr
    refine ⟨rfl, ⟨entries, hentries, errors_eq document entries⟩, ?_⟩
    rw [← errors_eq_nil_iff hentries]
    exact List.isEmpty_iff

example : review [("title", .text "Trip"), ("program", .int 7), ("fields", .bool true)] =
    .error (.notIterable "bool") := rfl

theorem IsInOrder.exists_review (h : IsInOrder document) :
    ∃ r, review document = .ok r ∧ r.isValid = true := by
  obtain ⟨entries, hlist, -⟩ := h.fields
  have hlisted : listed (document.get "fields") = .ok entries := by rw [hlist, listed]
  refine ⟨⟨errors document entries, []⟩, by rw [review, hlisted, ok_bind]; rfl, ?_⟩
  exact List.isEmpty_iff.mpr ((errors_eq_nil_iff hlisted).mpr h)

end Document

end ConditionalForms
