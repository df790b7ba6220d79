import ConditionalForms.Proofs.Document.Failure

/-!
# Placing fields that no step refers to

After the steps of a structured document are loaded, the records of the common list are gone through
once more: one whose name is not placed yet is put at the end of the step that it belongs to, or
there is a warning that it belongs to none.  Steps only grow by this, so that the step a record
belongs to can be told from their keys before and after.

**Definitions.**
* `Structured.IsHome`: the step that a record outside all steps belongs to.
* `Structured.Placing`: the three ways in which one record is dealt with.
* `Step.GrowsTo`: a step with more fields at its end.

**Results.**
* `Structured.homeOf?_eq_some_iff`: the step that is looked up is the one a record belongs to.
* `Structured.placing_of_placeRecord`: what dealing with one record does.
* `Structured.growsTo_of_placeRest`: what it does to the steps, over all records.
* `Structured.placeRest_after`: earlier warnings do not matter.
-/

namespace ConditionalForms

/-- A step has more fields at its end, and is the same otherwise. -/
def Step.GrowsTo (s t : Step) : Prop := ∃ more, t = { s with fields := s.fields ++ more }

theorem Step.GrowsTo.refl (s : Step) : s.GrowsTo s := ⟨[], by rw [List.append_nil]⟩

theorem Step.GrowsTo.trans {s t u : Step} (hst : s.GrowsTo t) (htu : t.GrowsTo u) :
    s.GrowsTo u := by
  obtain ⟨more, rfl⟩ := hst
  obtain ⟨yetMore, rfl⟩ := htu
  exact ⟨more ++ yetMore, by rw [List.append_assoc]⟩

namespace Structured

/-- A record belongs to the step at a position: the first one with the key that it declares, and if
no step has this key, the one of its order number. -/
inductive IsHome (keys : List String) (r : Record) : Nat → Prop where
  | byKey {k : String} {i : Nat} (declared : r.get "step_key" = .text k)
      (found : keys[i]? = some k) (first : ∀ j < i, keys[j]? ≠ some k) : IsHome keys r i
  | byOrder {n : Int} {i : Nat} (undeclared : ∀ k, r.get "step_key" = .text k → k ∉ keys)
      (ordered : (r.get "order").wholeBound? = .ok (some n)) (bucket : n / (orderStride : Int) = i)
      (inside : i < keys.length) : IsHome keys r i

variable {steps : List Step} {r : Record} {p q : Progress} {i : Nat}

theorem stepWithKey?_text (steps : List Step) (k : String) :
    stepWithKey? steps (.text k) = (steps.map Step.key).findIdx? fun l => l = k := by
  rw [List.findIdx?_map]
  rfl

theorem stepWithKey?_eq_some_iff {k : String} :
    stepWithKey? steps (.text k) = some i ↔
      (steps.map Step.key)[i]? = some k ∧ ∀ j < i, (steps.map Step.key)[j]? ≠ some k := by
  rw [stepWithKey?_text, List.findIdx?_eq_some_iff_getElem]
  constructor
  · rintro ⟨hi, hk, hfirst⟩
    refine ⟨List.getElem?_eq_some_iff.mpr ⟨hi, by simpa using hk⟩, fun j hj hjk => ?_⟩
    obtain ⟨_, heq⟩ := List.getElem?_eq_some_iff.mp hjk
    exact hfirst j hj (decide_eq_true heq)
  · rintro ⟨hk, hfirst⟩
    obtain ⟨hi, hk⟩ := List.getElem?_eq_some_iff.mp hk
    refine ⟨hi, decide_eq_true hk, fun j hj hjk => ?_⟩
    exact hfirst j hj (List.getElem?_eq_some_iff.mpr ⟨Nat.lt_trans hj hi, of_decide_eq_true hjk⟩)

theorem stepWithKey?_eq_none_iff {v : Value} :
    stepWithKey? steps v = none ↔ ∀ k, v = .text k → k ∉ steps.map Step.key := by
  cases v with
  | text k =>
      rw [stepWithKey?_text, List.findIdx?_eq_none_iff]
      constructor
      · rintro h _ ⟨⟩ hk
        simpa using h k hk
      · intro h l hl
        refine decide_eq_false ?_
        rintro rfl
        exact h l rfl hl
  | _ => simp [stepWithKey?]

theorem stepOfOrder?_eq_some_iff {order : Option Int} :
    stepOfOrder? steps order = some i ↔
      ∃ n, order = some n ∧ n / (orderStride : Int) = i ∧ i < steps.length := by
  cases order with
  | none => simp [stepOfOrder?]
  | some n =>
      rw [stepOfOrder?]
      constructor
      · intro h
        split at h
        · rename_i hinside
          obtain rfl := Option.some.inj h
          refine ⟨n, rfl, (Int.toNat_of_nonneg hinside.1).symm, ?_⟩
          omega
        · cases h
      · rintro ⟨_, ⟨⟩, hbucket, hi⟩
        rw [hbucket, if_pos ⟨Int.natCast_nonneg i, Int.ofNat_lt.mpr hi⟩, Int.toNat_natCast]

/-- The step that is looked up for a record is the one that it belongs to. -/
theorem homeOf?_eq_some_iff :
    homeOf? steps r = .ok (some i) ↔ IsHome (steps.map Step.key) r i := by
  rw [homeOf?]
  constructor
  · intro h
    split at h
    · rename_i j hj
      obtain rfl : j = i := by simpa using h
      cases hkey : r.get "step_key" with
      | text k =>
          rw [hkey] at hj
          obtain ⟨hfound, hfirst⟩ := stepWithKey?_eq_some_iff.mp hj
          exact .byKey hkey hfound hfirst
      | _ => simp [hkey, stepWithKey?] at hj
    · rename_i hnone
      simp only [bind_eq_ok, pure_eq_ok] at h
      obtain ⟨order, horder, h⟩ := h
      obtain ⟨n, rfl, hbucket, hi⟩ := stepOfOrder?_eq_some_iff.mp h
      refine .byOrder (stepWithKey?_eq_none_iff.mp hnone) horder hbucket ?_
      rwa [List.length_map]
  · intro h
    cases h with
    | byKey declared found first =>
        rw [declared, stepWithKey?_eq_some_iff.mpr ⟨found, first⟩]
        rfl
    | byOrder undeclared ordered bucket inside =>
        rw [List.length_map] at inside
        rw [stepWithKey?_eq_none_iff.mpr undeclared, ordered]
        exact congrArg Except.ok (stepOfOrder?_eq_some_iff.mpr ⟨_, rfl, bucket, inside⟩)

theorem not_isHome_of_homeOf? (h : homeOf? steps r = .ok none) (i : Nat) :
    ¬ IsHome (steps.map Step.key) r i := by
  intro hhome
  rw [homeOf?_eq_some_iff.mpr hhome] at h
  simp at h

theorem isHome_unique {j : Nat} (hi : IsHome (steps.map Step.key) r i)
    (hj : IsHome (steps.map Step.key) r j) : i = j := by
  rw [← homeOf?_eq_some_iff] at hi hj
  exact Option.some.inj (Except.ok.inj (hi.symm.trans hj))

theorem lt_length_of_isHome {keys : List String} (h : IsHome keys r i) : i < keys.length := by
  cases h with
  | byKey _ found _ => exact (List.getElem?_eq_some_iff.mp found).1
  | byOrder _ _ _ inside => exact inside

/-- What dealing with one record does: nothing if its name is placed already, and otherwise a
warning or a new field. -/
inductive Placing (p : Progress) (r : Record) : Progress → Prop where
  | skipped {name : String} (named : r.textOf "field_name" = .ok name) (known : name ∈ p.placed) :
      Placing p r p
  | warned {name warning : String} (named : r.textOf "field_name" = .ok name)
      (new : name ∉ p.placed) (homeless : homeOf? p.steps r = .ok none)
      (given : homelessWarning r name = .ok warning) :
      Placing p r { p with warnings := p.warnings ++ [warning] }
  | placed {name : String} {i : Nat} {step : Step} {x : Loaded Field}
      (named : r.textOf "field_name" = .ok name) (new : name ∉ p.placed)
      (home : homeOf? p.steps r = .ok (some i)) (found : p.steps[i]? = some step)
      (loaded : Field.load r step.columns (Name.placeholder (step.fields.length + 1)) = .ok x) :
      Placing p r ⟨p.steps.modify i fun s => { s with fields := s.fields ++ [x.value] },
        p.placed ++ [name], p.warnings ++ x.warnings⟩

theorem placing_of_placeRecord (h : placeRecord p r = .ok q) : Placing p r q := by
  simp only [placeRecord, bind_eq_ok] at h
  obtain ⟨name, hname, h⟩ := h
  by_cases hplaced : name ∈ p.placed
  · rw [if_pos (List.contains_iff_mem.mpr hplaced)] at h
    obtain rfl := pure_eq_ok.mp h
    exact .skipped hname hplaced
  · rw [if_neg (by simpa using hplaced), bind_eq_ok] at h
    obtain ⟨home, hhome, h⟩ := h
    cases home with
    | none =>
        simp only [bind_eq_ok, pure_eq_ok] at h
        obtain ⟨warning, hwarning, rfl⟩ := h
        exact .warned hname hplaced hhome hwarning
    | some i =>
        have hi := lt_length_of_isHome (homeOf?_eq_some_iff.mp hhome)
        rw [List.length_map] at hi
        have hstep := List.getElem?_eq_getElem hi
        simp only [hstep, bind_eq_ok, pure_eq_ok] at h
        obtain ⟨x, hx, rfl⟩ := h
        exact .placed hname hplaced hhome hstep hx

theorem growsTo_modify {fields : List Field} : ∀ (steps : List Step) (i : Nat),
    List.Forall₂ Step.GrowsTo steps
      (steps.modify i fun s => { s with fields := s.fields ++ fields })
  | [], i => by simp
  | s :: steps, 0 => by
      rw [List.modify_zero_cons]
      exact .cons ⟨fields, rfl⟩ (List.forall₂_same.mpr fun t _ => .refl t)
  | s :: steps, i + 1 => by
      rw [List.modify_succ_cons]
      exact .cons (.refl s) (growsTo_modify steps i)

theorem growsTo_of_placeRecord (h : placeRecord p r = .ok q) :
    List.Forall₂ Step.GrowsTo p.steps q.steps := by
  cases placing_of_placeRecord h with
  | skipped => exact List.forall₂_same.mpr fun t _ => .refl t
  | warned => exact List.forall₂_same.mpr fun t _ => .refl t
  | placed => exact growsTo_modify _ _

/-- Dealing with the remaining records lets the steps grow. -/
theorem growsTo_of_placeRest : ∀ {vs : List Value} {p q : Progress}, placeRest p vs = .ok q →
    List.Forall₂ Step.GrowsTo p.steps q.steps
  | [], p, q, h => by
      obtain rfl := Except.ok.inj h
      exact List.forall₂_same.mpr fun t _ => .refl t
  | v :: vs, p, q, h => by
      cases v with
      | object r =>
          simp only [placeRest, bind_eq_ok] at h
          obtain ⟨next, hnext, h⟩ := h
          exact forall₂_trans (growsTo_of_placeRecord hnext) (growsTo_of_placeRest h)
            fun _ _ _ => Step.GrowsTo.trans
      | _ =>
          have hrest : placeRest p vs = .ok q := h
          exact growsTo_of_placeRest hrest

theorem keys_eq_of_growsTo {steps others : List Step}
    (h : List.Forall₂ Step.GrowsTo steps others) : others.map Step.key = steps.map Step.key := by
  refine (forall₂_map_eq (h.imp fun s t hst => ?_)).symm
  obtain ⟨more, rfl⟩ := hst
  rfl

theorem placeRest_append (ys : List Value) : ∀ (xs : List Value) (p : Progress),
    placeRest p (xs ++ ys) = placeRest p xs >>= fun q => placeRest q ys
  | [], p => rfl
  | x :: xs, p => by
      cases x with
      | object r =>
          simp only [List.cons_append, placeRest]
          cases placeRecord p r with
          | error e => rfl
          | ok next => exact placeRest_append ys xs next
      | _ => exact placeRest_append ys xs p

/-- The same progress after some earlier warnings. -/
def Progress.after (p : Progress) (warnings : List String) : Progress :=
  { p with warnings := warnings ++ p.warnings }

theorem placeRecord_after (warnings : List String) (p : Progress) (r : Record) :
    placeRecord (p.after warnings) r = (·.after warnings) <$> placeRecord p r := by
  obtain ⟨steps, placed, given⟩ := p
  show placeRecord ⟨steps, placed, warnings ++ given⟩ r = _
  rw [placeRecord, placeRecord]
  cases r.textOf "field_name" with
  | error e => rfl
  | ok name =>
      simp only [ok_bind]
      by_cases hplaced : placed.contains name = true
      · rw [if_pos hplaced, if_pos hplaced]
        rfl
      · rw [if_neg hplaced, if_neg hplaced]
        cases homeOf? steps r with
        | error e => rfl
        | ok home => cases home with
          | none => cases homelessWarning r name with
            | error e => rfl
            | ok warning =>
                simp only [ok_bind, List.append_assoc]
                rfl
          | some i =>
              simp only [ok_bind]
              cases steps[i]? with
              | none => rfl
              | some step =>
                  dsimp only
                  cases Field.load r step.columns (Name.placeholder (step.fields.length + 1)) with
                  | error e => rfl
                  | ok x =>
                      simp only [ok_bind, List.append_assoc]
                      rfl

/-- Earlier warnings do not matter for what is placed. -/
theorem placeRest_after (warnings : List String) : ∀ (vs : List Value) (p : Progress),
    placeRest (p.after warnings) vs = (·.after warnings) <$> placeRest p vs
  | [], p => rfl
  | v :: vs, p => by
      cases v with
      | object r =>
          simp only [placeRest, placeRecord_after]
          cases placeRecord p r with
          | error e => rfl
          | ok next => exact placeRest_after warnings vs next
      | _ => exact placeRest_after warnings vs p

end Structured

end ConditionalForms
