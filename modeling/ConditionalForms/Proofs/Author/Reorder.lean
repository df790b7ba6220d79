import ConditionalForms.Proofs.Author.Naming

/-!
# Moves

An author moves a step within its form or a field within its step.  The target is a position among
the others, and one that is out of range stands for the nearest position that is there.  Wherever it
points, nothing but the order changes, and a move back to the old position undoes the move.

**Definitions.**
* `IsMoved`: two lists that differ in the position of one item.

**Results.**
* `moveItem_eq_iff`: a list with an item moved is the only one that differs in just that.
* `Form.moves_undone`: what a move of a step or a field does, and that moving back undoes it.
-/

namespace ConditionalForms

/-- The item at one position of the first list stands at another position of the second one, and the
others stand in the same order in both. -/
structure IsMoved {α : Type} (xs ys : List α) (source target : Nat) : Prop where
  item : ∃ x, xs[source]? = some x ∧ ys[target]? = some x
  others : ys.eraseIdx target = xs.eraseIdx source

section Items

variable {α : Type} {xs ys : List α} {i p : Nat} {target : Int} {x : α}

theorem IsMoved.symm (h : IsMoved xs ys i p) : IsMoved ys xs p i := by
  obtain ⟨x, hxs, hys⟩ := h.item
  exact ⟨⟨x, hys, hxs⟩, h.others.symm⟩

theorem IsMoved.source_lt (h : IsMoved xs ys i p) : i < xs.length := by
  obtain ⟨x, hxs, _⟩ := h.item
  exact (List.getElem?_eq_some_iff.mp hxs).1

theorem IsMoved.length_eq (h : IsMoved xs ys i p) : ys.length = xs.length := by
  have hlength := congrArg List.length h.others
  have hi := h.source_lt
  have hp := h.symm.source_lt
  rw [List.length_eraseIdx_of_lt hp, List.length_eraseIdx_of_lt hi] at hlength
  omega

theorem clampIndex_eq {n : Nat} (hp : (p : Int) = max 0 (min target n)) :
    clampIndex target n = p := by
  unfold clampIndex
  omega

theorem insertIdx_eraseIdx_of_getElem? (h : xs[i]? = some x) :
    (xs.eraseIdx i).insertIdx i x = xs := by
  obtain ⟨hi, rfl⟩ := List.getElem?_eq_some_iff.mp h
  exact List.insertIdx_eraseIdx_getElem hi

theorem moveItem_eq (h : xs[i]? = some x)
    (hp : (p : Int) = max 0 (min target ((xs.length : Int) - 1))) :
    moveItem xs i target = (xs.eraseIdx i).insertIdx p x := by
  obtain ⟨hi, _⟩ := List.getElem?_eq_some_iff.mp h
  have hlength : (xs.eraseIdx i).length = xs.length - 1 := List.length_eraseIdx_of_lt hi
  have hclamp : clampIndex target (xs.length - 1) = p := clampIndex_eq (by omega)
  unfold moveItem
  simp only [h, hlength, hclamp]

/-- A list with an item moved is the only one that differs in the position of that item. -/
theorem moveItem_eq_iff (hi : i < xs.length)
    (hp : (p : Int) = max 0 (min target ((xs.length : Int) - 1))) :
    moveItem xs i target = ys ↔ IsMoved xs ys i p := by
  have hlength : (xs.eraseIdx i).length = xs.length - 1 := List.length_eraseIdx_of_lt hi
  rw [moveItem_eq (List.getElem?_eq_getElem hi) hp]
  constructor
  · rintro rfl
    refine ⟨⟨xs[i], List.getElem?_eq_getElem hi, ?_⟩, List.eraseIdx_insertIdx_self _⟩
    rw [List.getElem?_insertIdx_self, if_pos (by omega)]
  · intro h
    obtain ⟨x, hxs, hys⟩ := h.item
    obtain rfl : xs[i] = x := Option.some.inj ((List.getElem?_eq_getElem hi).symm.trans hxs)
    rw [← h.others]
    exact insertIdx_eraseIdx_of_getElem? hys

/-- Moving an item back to the position that it had undoes the move. -/
theorem IsMoved.moveItem_back (h : IsMoved xs ys i p) : moveItem ys p i = xs := by
  have hi := h.source_lt
  have hlength := h.length_eq
  exact (moveItem_eq_iff h.symm.source_lt (by omega)).mpr h.symm

end Items

namespace Form

variable {form : Form} {s : Step} {k i : Nat} {target : Int}

theorem stepAt_of_getElem? (h : form.steps[k]? = some s) : form.stepAt k = .ok (k, s) :=
  stepAt_eq_ok_iff.mpr ⟨rfl, h⟩

theorem moveStep_of_lt (h : i < form.steps.length) :
    form.moveStep i target = .ok { form with steps := moveItem form.steps i target } := by
  rw [moveStep, stepAt_of_getElem? (List.getElem?_eq_getElem h)]
  rfl

theorem moveField_of_lt (hs : form.steps[k]? = some s) (h : i < s.fields.length) :
    form.moveField k i target =
      .ok (form.putStep k { s with fields := moveItem s.fields i target }) := by
  have hfield : fieldAt s i = .ok (i, s.fields[i]) :=
    fieldAt_eq_ok_iff.mpr ⟨rfl, List.getElem?_eq_getElem h⟩
  simp only [moveField, stepAt_of_getElem? hs, ok_bind, hfield]
  rfl

/-- A move of a step or a field takes it to the target brought into range.  The others keep their
order, no step and no field is altered, and moving back to the old position undoes it all. -/
theorem moves_undone (form : Form) (target : Int) :
    (∀ i p : Nat, i < form.steps.length →
      (p : Int) = max 0 (min target ((form.steps.length : Int) - 1)) →
        ∃ steps, form.moveStep i target = .ok { form with steps := steps } ∧
          IsMoved form.steps steps i p ∧
          moveStep { form with steps := steps } p i = .ok form) ∧
    ∀ (k i p : Nat) (s : Step), form.steps[k]? = some s → i < s.fields.length →
      (p : Int) = max 0 (min target ((s.fields.length : Int) - 1)) →
        ∃ fields, form.moveField k i target = .ok (form.putStep k { s with fields := fields }) ∧
          IsMoved s.fields fields i p ∧
          (form.putStep k { s with fields := fields }).moveField k p i = .ok form := by
  constructor
  · intro i p hi hp
    have hmoved := (moveItem_eq_iff hi hp).mp rfl
    refine ⟨_, moveStep_of_lt hi, hmoved, ?_⟩
    rw [moveStep_of_lt hmoved.symm.source_lt, hmoved.moveItem_back]
  · intro k i p s hs hi hp
    have hmoved := (moveItem_eq_iff hi hp).mp rfl
    have hput := getElem?_putStep hs { s with fields := moveItem s.fields i target }
    refine ⟨_, moveField_of_lt hs hi, hmoved, ?_⟩
    rw [moveField_of_lt hput hmoved.symm.source_lt, hmoved.moveItem_back, putStep_putStep,
      putStep_self hs]

/-- A page of some fields. -/
def page (key : String) (names : List String) : Step :=
  ⟨key, key, key, "", names.map fun name => Field.plain name name name, false, 4, none⟩

/-- A form of three pages, known by their keys. -/
def threePages : Form :=
  { Form.empty with
    steps := [page "who" ["name"], page "where" ["town", "street", "number"], page "when" []] }

/-- The first page moved far beyond the last one comes to stand behind it, and the last field of the
second page moved far before the first one comes to stand in front of it.  Both come back. -/
theorem moves_undone_threePages :
    (0 < threePages.steps.length ∧
      ∃ steps, threePages.moveStep 0 7 = .ok { threePages with steps := steps } ∧
        steps.map Step.key = ["where", "when", "who"] ∧
        moveStep { threePages with steps := steps } 2 0 = .ok threePages) ∧
    ∃ s, threePages.steps[1]? = some s ∧ 2 < s.fields.length ∧
      ∃ fields, threePages.moveField 1 2 (-5) =
          .ok (threePages.putStep 1 { s with fields := fields }) ∧
        fields.map Field.name = ["number", "town", "street"] ∧
        (threePages.putStep 1 { s with fields := fields }).moveField 1 0 2 = .ok threePages := by
  constructor
  · have hlength : 0 < threePages.steps.length := by decide
    obtain ⟨hsteps, _⟩ := moves_undone threePages 7
    obtain ⟨steps, hmove, hmoved, hback⟩ := hsteps 0 2 hlength rfl
    have hlist : moveItem threePages.steps 0 7 = steps := (moveItem_eq_iff hlength rfl).mpr hmoved
    subst hlist
    exact ⟨hlength, _, hmove, rfl, hback⟩
  · have hpage : threePages.steps[1]? = some (page "where" ["town", "street", "number"]) := rfl
    have hlength : 2 < (page "where" ["town", "street", "number"]).fields.length := by decide
    obtain ⟨_, hfields⟩ := moves_undone threePages (-5)
    obtain ⟨fields, hmove, hmoved, hback⟩ := hfields 1 2 0 _ hpage hlength rfl
    have hlist : moveItem (page "where" ["town", "street", "number"]).fields 2 (-5) = fields :=
      (moveItem_eq_iff hlength rfl).mpr hmoved
    subst hlist
    exact ⟨_, hpage, hlength, _, hmove, rfl, hback⟩

end Form

end ConditionalForms
