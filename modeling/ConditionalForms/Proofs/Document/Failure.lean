import ConditionalForms.Proofs.Document.Buckets
import ConditionalForms.Proofs.Document.Fault
import ConditionalForms.Proofs.Document.Reading
import Mathlib.Algebra.Group.Int.Defs

/-!
# Loading fails for known reasons

Whatever a document holds, a form is loaded from it, or there is one of few faults, each of them
with its reason in the document.  All three shapes load fields and steps in the same way, so that
one contract for a field and one for a step carry the contracts of the shapes; and what is loaded is
so much in order that bringing it into normal form cannot fail.

**Definitions.**
* `Fault.IsLoadError`: the faults that a document's shape is to blame for.

**Results.**
* `Shape.contract_load`: what loading the steps of any shape comes to.
* `Form.IsLoaded.failsOnly_normalize`: what is loaded has a normal form.
* `Form.load_or_fault`: a form is loaded, or there is a known reason why not.
-/

namespace ConditionalForms

/-- The faults of texts and documents that are no form at all. -/
def Fault.IsLoadError : Fault → Prop
  | .documentNotObject _ => True
  | .memberNotList _ _ => True
  | .unknownShape => True
  | .malformedJson _ _ => True
  | .malformedYaml => True
  | _ => False

variable {v : Value} {r : Record}

/-- The list of a member of an object in a document has only values of the document. -/
theorem Record.contract_listOf (h : v.Holds (.object r)) {name : String}
    (hname : name = "fields" ∨ name = "steps") :
    Contract (LoadFault v) (fun items => ∀ x ∈ items, v.Holds x) (r.listOf name) := by
  rw [listOf]
  split
  · exact .pure (by simp)
  · rename_i items hget
    refine .pure fun x hx => ?_
    have hheld : v.Holds (.list items) := by
      rw [← hget]
      exact h.trans (holds_get (by simp [hget]))
    exact hheld.trans (.item hx (.self x))
  · rename_i hnull hlist
    exact LoadFault.notList h hname hnull hlist

theorem contract_loadRecords {α : Type} {P : Fault → Prop} {Q : α → Prop}
    {load : Nat → Record → Except Fault (Loaded α)} :
    ∀ {vs : List Value} {start : Nat},
      (∀ i r, .object r ∈ vs → Contract P (fun x => Q x.value) (load i r)) →
      Contract P (fun xs => ∀ x ∈ xs.value, Q x) (loadRecords load start vs)
  | [], _, _ => .pure (by simp)
  | w :: vs, start, h => by
      have hvs : ∀ start, Contract P (fun xs => ∀ x ∈ xs.value, Q x) (loadRecords load start vs) :=
        fun start => contract_loadRecords fun i r hr => h i r (List.mem_cons_of_mem w hr)
      cases w with
      | object r =>
          rw [loadRecords]
          refine (h start r List.mem_cons_self).bind fun x hx => (hvs _).bind fun xs hxs => .pure ?_
          exact List.forall_mem_cons.mpr ⟨hx, hxs⟩
      | _ => exact hvs _

/-- What holds of all items, and of one of them after it is changed, holds of the changed list. -/
theorem forall_mem_modify {α : Type} {P : α → Prop} {f : α → α} :
    ∀ {xs : List α} {i : Nat}, (∀ x ∈ xs, P x) → (∀ x, xs[i]? = some x → P (f x)) →
      ∀ x ∈ xs.modify i f, P x
  | [], _, _, _ => by simp
  | x :: xs, i, h, hf => by
      obtain ⟨hx, hxs⟩ := List.forall_mem_cons.mp h
      cases i with
      | zero =>
          rw [List.modify_zero_cons]
          exact List.forall_mem_cons.mpr ⟨hf x rfl, hxs⟩
      | succ i =>
          rw [List.modify_succ_cons]
          exact List.forall_mem_cons.mpr ⟨hx, forall_mem_modify hxs hf⟩

namespace Structured

variable {named : List (String × Record)} {p : Progress}

theorem contract_namedRecords : ∀ {vs : List Value}, (∀ x ∈ vs, v.Holds x) →
    Contract (LoadFault v) (fun named => ∀ p ∈ named, v.Holds (.object p.2)) (namedRecords vs)
  | [], _ => .pure (by simp)
  | w :: vs, h => by
      obtain ⟨hw, hvs⟩ := List.forall_mem_cons.mp h
      have hrest := contract_namedRecords hvs
      cases w with
      | object r =>
          rw [namedRecords]
          split
          · refine Contract.bind (Value.Supplies.of_holds hw).failsOnly_plainText fun name _ => ?_
            refine hrest.bind fun named hnamed => .pure ?_
            exact List.forall_mem_cons.mpr ⟨hw, hnamed⟩
          · exact hrest
      | _ => exact hrest

/-- What a reference stands for is put together from objects of the document. -/
theorem supplies_referent (hnamed : ∀ p ∈ named, v.Holds (.object p.2))
    (h : v.Holds (.object r)) (name : String) : v.Supplies (referent named name r) := by
  have hreference := Value.Supplies.of_holds h
  rw [referent]
  cases hfind : named.find? fun p => p.1 = name with
  | none =>
      dsimp only
      split
      · exact hreference
      · exact hreference.set hreference "column_span"
  | some p =>
      have hsource : v.Supplies p.2 := .of_holds (hnamed p (List.mem_of_find?_eq_some hfind))
      dsimp only
      split
      · exact hsource
      · exact hsource.set hreference "column_span"

theorem contract_loadReference (hnamed : ∀ p ∈ named, v.Holds (.object p.2))
    (h : v.Holds (.object r)) (columns : Int) (i j : Nat) :
    Contract (LoadFault v) (fun x => x.value.2.IsLoaded columns)
      (loadReference named columns i j r) := by
  rw [loadReference]
  refine Contract.bind ((Value.Supplies.of_holds h).failsOnly_textOf _) fun name _ => ?_
  refine (Field.contract_load (supplies_referent hnamed h name) columns _).bind fun x hx => ?_
  exact .pure hx

/-- The steps under construction stay loaded from values of the document. -/
theorem contract_loadSteps {formColumns : Int} (hnamed : ∀ p ∈ named, v.Holds (.object p.2))
    (hpos : 1 ≤ formColumns) (hle : formColumns ≤ Grid.maxColumns) :
    ∀ {vs : List Value} {i : Nat} {p : Progress}, (∀ x ∈ vs, v.Holds x) →
      (∀ s ∈ p.steps, s.IsLoaded) →
      Contract (LoadFault v) (fun q => ∀ s ∈ q.steps, s.IsLoaded)
        (loadSteps named formColumns i p vs)
  | [], _, _, _, hp => .pure hp
  | w :: vs, i, p, h, hp => by
      obtain ⟨hw, hvs⟩ := List.forall_mem_cons.mp h
      have hskip : Contract (LoadFault v) (fun q => ∀ s ∈ q.steps, s.IsLoaded)
          (loadSteps named formColumns (i + 1) p vs) := contract_loadSteps hnamed hpos hle hvs hp
      cases w with
      | object r =>
          rw [loadSteps]
          refine ((Step.failsOnly_columnsOf hw hpos hle).contract fun n hn =>
            Step.columnsOf_bounds hn).bind fun columns hcolumns => ?_
          refine (Record.contract_listOf hw (Or.inl rfl)).bind fun references hreferences => ?_
          have hload : ∀ j s, .object s ∈ references → Contract (LoadFault v)
              (fun x => x.value.2.IsLoaded columns) (loadReference named columns i j s) :=
            fun j s hs => contract_loadReference hnamed (hreferences _ hs) columns i j
          refine Contract.bind (contract_loadRecords (Q := fun x : String × Field =>
            x.2.IsLoaded columns) hload) fun fields hfields => ?_
          refine (Step.contract_ofRecord (.of_holds hw) p.steps.length hcolumns
            (List.forall_mem_map.mpr hfields)).bind fun step hstep => ?_
          refine contract_loadSteps hnamed hpos hle hvs ?_
          exact List.forall_mem_append.mpr ⟨hp, List.forall_mem_singleton.mpr hstep⟩
      | _ => exact hskip

theorem failsOnly_homeOf? (h : v.Supplies r) (steps : List Step) :
    FailsOnly (LoadFault v) (homeOf? steps r) := by
  rw [homeOf?]
  split
  · exact .pure _
  · exact (h.failsOnly_wholeBound? (by decide)).bind fun order => .pure _

theorem failsOnly_homelessWarning (h : v.Supplies r) (name : String) :
    FailsOnly (LoadFault v) (homelessWarning r name) := by
  rw [homelessWarning]
  split
  · refine FailsOnly.bind ?_ fun shown => .pure _
    exact (Value.failsOnly_literal _).mono fun _ he => h.tooLong he
  · exact .pure _

theorem contract_placeRecord (h : v.Supplies r) (hp : ∀ s ∈ p.steps, s.IsLoaded) :
    Contract (LoadFault v) (fun q => ∀ s ∈ q.steps, s.IsLoaded) (placeRecord p r) := by
  rw [placeRecord]
  refine Contract.bind (h.failsOnly_textOf _) fun name _ => ?_
  split
  · exact .pure hp
  refine Contract.bind (failsOnly_homeOf? h p.steps) fun home _ => ?_
  split
  · exact Contract.bind (failsOnly_homelessWarning h name) fun warning _ => .pure hp
  · rename_i i
    split
    · exact .pure hp
    · rename_i step hstep
      refine (Field.contract_load h step.columns _).bind fun x hx => .pure ?_
      refine forall_mem_modify hp fun s hs => ?_
      obtain rfl := Option.some.inj (hstep.symm.trans hs)
      have hloaded := hp step (List.mem_of_getElem? hs)
      refine ⟨hloaded.key_ne, hloaded.columns_pos, hloaded.columns_le, ?_, hloaded.logic⟩
      exact List.forall_mem_append.mpr ⟨hloaded.fields, List.forall_mem_singleton.mpr hx⟩

theorem contract_placeRest : ∀ {vs : List Value} {p : Progress}, (∀ x ∈ vs, v.Holds x) →
    (∀ s ∈ p.steps, s.IsLoaded) →
    Contract (LoadFault v) (fun q => ∀ s ∈ q.steps, s.IsLoaded) (placeRest p vs)
  | [], _, _, hp => .pure hp
  | w :: vs, p, h, hp => by
      obtain ⟨hw, hvs⟩ := List.forall_mem_cons.mp h
      have hskip : Contract (LoadFault v) (fun q => ∀ s ∈ q.steps, s.IsLoaded) (placeRest p vs) :=
        contract_placeRest hvs hp
      cases w with
      | object r =>
          rw [placeRest]
          exact (contract_placeRecord (.of_holds hw) hp).bind fun q hq => contract_placeRest hvs hq
      | _ => exact hskip

theorem contract_load (h : v.Holds (.object r)) {formColumns : Int} (hpos : 1 ≤ formColumns)
    (hle : formColumns ≤ Grid.maxColumns) :
    Contract (LoadFault v) (fun x => ∀ s ∈ x.value, s.IsLoaded) (load r formColumns) := by
  rw [load]
  refine (Record.contract_listOf h (Or.inl rfl)).bind fun entries hentries => ?_
  refine (contract_namedRecords hentries).bind fun named hnamed => ?_
  refine (Record.contract_listOf h (Or.inr rfl)).bind fun steps hsteps => ?_
  refine (contract_loadSteps hnamed hpos hle hsteps (by simp)).bind fun p hp => ?_
  exact (contract_placeRest hentries hp).bind fun done hdone => .pure hdone

end Structured

theorem Nested.contract_loadSteps {formColumns : Int} (hpos : 1 ≤ formColumns)
    (hle : formColumns ≤ Grid.maxColumns) :
    ∀ {vs : List Value} {i : Nat} {done : Loaded (List Step)}, (∀ x ∈ vs, v.Holds x) →
      (∀ s ∈ done.value, s.IsLoaded) →
      Contract (LoadFault v) (fun x => ∀ s ∈ x.value, s.IsLoaded) (loadSteps formColumns i done vs)
  | [], _, _, _, hdone => .pure hdone
  | w :: vs, i, done, h, hdone => by
      obtain ⟨hw, hvs⟩ := List.forall_mem_cons.mp h
      have hskip : Contract (LoadFault v) (fun x => ∀ s ∈ x.value, s.IsLoaded)
          (loadSteps formColumns (i + 1) done vs) := contract_loadSteps hpos hle hvs hdone
      cases w with
      | object r =>
          rw [loadSteps]
          refine ((Step.failsOnly_columnsOf hw hpos hle).contract fun n hn =>
            Step.columnsOf_bounds hn).bind fun columns hcolumns => ?_
          refine (Record.contract_listOf hw (Or.inl rfl)).bind fun records hrecords => ?_
          refine (contract_loadRecords fun j s hs =>
            Field.contract_load (.of_holds (hrecords _ hs)) columns _).bind fun fields hfields => ?_
          refine (Step.contract_ofRecord (.of_holds hw) done.value.length hcolumns hfields).bind
            fun step hstep => ?_
          refine contract_loadSteps hpos hle hvs ?_
          exact List.forall_mem_append.mpr ⟨hdone, List.forall_mem_singleton.mpr hstep⟩
      | _ => exact hskip

theorem Nested.contract_load (h : v.Holds (.object r)) {formColumns : Int}
    (hpos : 1 ≤ formColumns) (hle : formColumns ≤ Grid.maxColumns) :
    Contract (LoadFault v) (fun x => ∀ s ∈ x.value, s.IsLoaded) (load r formColumns) := by
  rw [load]
  refine (Record.contract_listOf h (Or.inr rfl)).bind fun steps hsteps => ?_
  exact contract_loadSteps hpos hle hsteps (by simp)

namespace Flat

theorem contract_ordered : ∀ {vs : List Value}, (∀ x ∈ vs, v.Holds x) →
    Contract (LoadFault v) (fun xs => ∀ x ∈ xs, v.Holds (.object x.2)) (ordered vs)
  | [], _ => .pure (by simp)
  | w :: vs, h => by
      obtain ⟨hw, hvs⟩ := List.forall_mem_cons.mp h
      have hrest := contract_ordered hvs
      cases w with
      | object r =>
          have horder : FailsOnly (LoadFault v) (orderOf r) := by
            rw [orderOf]
            exact ((Value.Supplies.of_holds hw).failsOnly_wholeBound? (by decide)).bind
              fun n => .pure _
          rw [ordered]
          refine Contract.bind horder fun n _ => hrest.bind fun xs hxs => .pure ?_
          exact List.forall_mem_cons.mpr ⟨hw, hxs⟩
      | _ => exact hrest

theorem contract_loadStep {formColumns : Int} (hpos : 1 ≤ formColumns)
    (hle : formColumns ≤ Grid.maxColumns) (index : Nat) (bucket : Int) {records : List Record}
    (h : ∀ s ∈ records, v.Holds (.object s)) :
    Contract (LoadFault v) (fun x => x.value.IsLoaded)
      (loadStep formColumns index bucket records) := by
  rw [loadStep]
  refine (contract_mapFrom fun i s hs =>
    Field.contract_load (.of_holds (h s hs)) formColumns _).bind fun loaded hloaded => .pure ?_
  exact ⟨Step.defaultKey_ne index, hpos, hle, List.forall_mem_map.mpr hloaded, .null, rfl⟩

theorem contract_load (h : v.Holds (.object r)) {formColumns : Int} (hpos : 1 ≤ formColumns)
    (hle : formColumns ≤ Grid.maxColumns) :
    Contract (LoadFault v) (fun x => ∀ s ∈ x.value, s.IsLoaded) (load r formColumns) := by
  rw [load]
  refine (Record.contract_listOf h (Or.inl rfl)).bind fun entries hentries => ?_
  refine (contract_ordered hentries).bind fun xs hxs => ?_
  have hbuckets : ∀ g ∈ buckets xs, ∀ s ∈ g.2, v.Holds (.object s) := by
    intro g hg s hs
    obtain ⟨x, hx, rfl⟩ := mem_of_mem_buckets hg hs
    exact hxs x hx
  refine (contract_mapFrom fun i g hg =>
    contract_loadStep hpos hle i g.1 (hbuckets g hg)).bind fun steps hsteps => .pure ?_
  exact List.forall_mem_map.mpr hsteps

end Flat

/-- Every shape loads steps that are in order, or fails with a reason in the document. -/
theorem Shape.contract_load (shape : Shape) (h : v.Holds (.object r)) {formColumns : Int}
    (hpos : 1 ≤ formColumns) (hle : formColumns ≤ Grid.maxColumns) :
    Contract (LoadFault v) (fun x => ∀ s ∈ x.value, s.IsLoaded) (shape.load r formColumns) := by
  cases shape with
  | structured => exact Structured.contract_load h hpos hle
  | nested => exact Nested.contract_load h hpos hle
  | flat => exact Flat.contract_load h hpos hle

theorem Shape.failsOnly_ofRecord (r : Record) :
    FailsOnly (LoadFault (.object r)) (Shape.ofRecord r) := by
  rw [ofRecord]
  split
  · exact .ok _
  · rename_i hshape
    dsimp only
    split
    · rename_i x items hsteps
      split
      · exact .ok _
      · rename_i hfields
        split
        · rename_i hgiven
          refine LoadFault.unknownShape rfl hgiven (Or.inr ⟨by simpa using hfields, ?_⟩)
          exact fun fields hlist => hshape x items fields hsteps hlist
        · exact .ok _
    · rename_i hsteps
      rw [if_neg Bool.false_ne_true]
      split
      · rename_i hgiven
        refine LoadFault.unknownShape rfl hgiven (Or.inl fun items hitems => ?_)
        cases items with
        | nil => simp [hitems, Value.isTruthy] at hgiven
        | cons x items => exact hsteps x items hitems
      · exact .ok _

namespace Rule

theorem failsOnly_clean? {r : Rule} (h : r.IsTyped) (allowed : Operator → Bool) :
    FailsOnly (fun _ => False) (r.clean? allowed) := by
  have hoperand : FailsOnly (fun _ => False) r.operand.answerText := by
    rcases h with heq | ⟨s, heq⟩
    · rw [heq]
      exact .ok _
    · rw [heq]
      exact .ok _
  rw [clean?]
  split
  · exact .pure none
  · split
    · refine hoperand.bind fun operand => ?_
      split
      · exact .pure none
      · exact .pure _
    · exact .pure _

end Rule

/-- Rules whose operands are texts or missing can be cleaned. -/
theorem RuleGroup.failsOnly_cleanLogic {logic : Option RuleGroup}
    (h : ∀ g ∈ logic, ∀ r ∈ g.rules, r.IsTyped) (allowed : Operator → Bool) :
    FailsOnly (fun _ => False) (cleanLogic allowed logic) := by
  cases logic with
  | none => exact .ok none
  | some g =>
      refine FailsOnly.bind ?_ fun rules => .pure _
      refine (contract_collect (S := fun _ => True) fun r hr => ?_).failsOnly
      have hclean := Rule.failsOnly_clean? (h g rfl r hr) allowed
      exact Contract.imp hclean fun _ _ _ _ => trivial

namespace Field

/-- A field that is loaded lies within its step. -/
theorem IsLoaded.span_bounds {f : Field} {columns : Int} (h : f.IsLoaded columns)
    (hcolumns : 1 ≤ columns) : 1 ≤ f.span ∧ f.span ≤ columns := by
  obtain ⟨r, fallback, h⟩ := h
  exact Grid.span_bounds hcolumns (hasMembers_of_ofRecord h).1.span

theorem IsLoaded.exists_logic {f : Field} {columns : Int} (h : f.IsLoaded columns) :
    ∃ w, RuleGroup.ofValue? w = .ok f.logic := by
  obtain ⟨r, fallback, h⟩ := h
  obtain ⟨-, -, -, hlogic⟩ := hasMembers_of_ofRecord h
  exact ⟨_, hlogic⟩

theorem IsLoaded.failsOnly_normalize {f : Field} {columns : Int} (h : f.IsLoaded columns)
    (hpos : 1 ≤ columns) (hle : columns ≤ Grid.maxColumns) (number : Nat) :
    FailsOnly (fun _ => False) (f.normalize columns number) := by
  obtain ⟨hspan_pos, hspan_le⟩ := h.span_bounds hpos
  obtain ⟨w, hlogic⟩ := h.exists_logic
  have htyped := (RuleGroup.contract_ofValue? w).of_ok hlogic
  rw [normalize, Grid.span_of_bounds hspan_pos (Int.le_trans hspan_le hle)]
  exact (RuleGroup.failsOnly_cleanLogic htyped _).bind fun logic => .pure _

end Field

theorem Step.IsLoaded.failsOnly_normalize {s : Step} (h : s.IsLoaded) (index : Nat) :
    FailsOnly (fun _ => False) (s.normalize index) := by
  obtain ⟨w, hlogic⟩ := h.logic
  have htyped := (RuleGroup.contract_ofValue? w).of_ok hlogic
  rw [normalize, Grid.columnCount_of_bounds h.columns_pos h.columns_le, ok_bind]
  refine FailsOnly.bind ?_ fun fields => (RuleGroup.failsOnly_cleanLogic htyped _).bind
    fun logic => .pure _
  refine (contract_mapFrom (S := fun _ => True) fun i f hf => ?_).failsOnly
  exact (h.fields f hf).failsOnly_normalize h.columns_pos h.columns_le _

namespace Form

/-- The width of a form is in range, and its steps are loaded. -/
structure IsLoaded (form : Form) : Prop where
  columns_pos : 1 ≤ form.columns
  columns_le : form.columns ≤ Grid.maxColumns
  steps : ∀ s ∈ form.steps, s.IsLoaded

/-- What is loaded can be brought into normal form. -/
theorem IsLoaded.failsOnly_normalize {form : Form} (h : form.IsLoaded) :
    FailsOnly (fun _ => False) form.normalize := by
  rw [normalize]
  refine FailsOnly.bind ?_ fun steps => ?_
  · refine (contract_mapFrom (S := fun _ => True) fun i s hs => ?_).failsOnly
    exact (h.steps s hs).failsOnly_normalize i
  · rw [Grid.columnCount_of_bounds h.columns_pos h.columns_le]
    exact .pure _

theorem failsOnly_programText (h : v.Holds (.object r)) :
    FailsOnly (LoadFault v) (programText r) := by
  have hsupplies := Value.Supplies.of_holds h
  rw [programText]
  split
  · exact .ok ""
  · split
    · rename_i members hget
      exact (Value.Supplies.of_holds (hsupplies.holds_of_get hget)).failsOnly_plainText
    · exact hsupplies.failsOnly_plainText

theorem failsOnly_columnsOf (h : v.Holds (.object r)) : FailsOnly (LoadFault v) (columnsOf r) := by
  have hsupplies := Value.Supplies.of_holds h
  have hdefault : FailsOnly (LoadFault v) (Grid.columnCount (.int defaultColumns)) := by
    rw [Grid.columnCount_of_bounds (by decide) (by decide)]
    exact .ok _
  have hlayout : ∀ layout, v.Holds (.object layout) → FailsOnly (LoadFault v)
      (Grid.columnCount (Record.firstOf layout ["columns"] (.int defaultColumns))) :=
    fun _ hheld => (Value.Supplies.of_holds hheld).failsOnly_firstNumber (by decide)
      Grid.failsOnly_columnCount hdefault
  rw [columnsOf, Value.orElse]
  split
  · rename_i layout hget
    split at hget
    · exact hlayout layout (hsupplies.holds_of_get hget)
    · exact hlayout layout (hsupplies.holds_of_get hget)
  · exact hdefault

theorem columnsOf_bounds {columns : Int} (h : columnsOf r = .ok columns) :
    1 ≤ columns ∧ columns ≤ Grid.maxColumns := by
  unfold columnsOf at h
  dsimp only at h
  split at h
  · exact Grid.columnCount_bounds h
  · exact Grid.columnCount_bounds h

theorem contract_ofRecord (r : Record) :
    Contract (LoadFault (.object r)) (fun x => x.value.IsLoaded) (ofRecord r) := by
  have h : (Value.object r).Holds (.object r) := .self _
  have hsupplies := Value.Supplies.of_holds h
  rw [ofRecord]
  refine ((failsOnly_columnsOf h).contract fun n hn => columnsOf_bounds hn).bind
    fun columns hcolumns => ?_
  refine Contract.bind (Shape.failsOnly_ofRecord r) fun shape _ => ?_
  refine (shape.contract_load h hcolumns.1 hcolumns.2).bind fun steps hsteps => ?_
  refine Contract.bind (hsupplies.failsOnly_firstOf _ _) fun name _ => ?_
  refine Contract.bind (hsupplies.failsOnly_firstOf _ _) fun description _ => ?_
  refine Contract.bind (failsOnly_programText h) fun program _ => .pure ?_
  exact ⟨hcolumns.1, hcolumns.2, hsteps⟩

theorem failsOnly_ofDocument (v : Value) : FailsOnly (LoadFault v) (ofDocument v) := by
  cases v with
  | object r =>
      rw [ofDocument]
      refine Contract.bind (contract_ofRecord r) fun loaded hloaded => ?_
      refine Contract.bind (hloaded.failsOnly_normalize.mono fun e he => he.elim) fun form _ => ?_
      exact .pure trivial
  | _ => exact LoadFault.notObject (by simp)

/-- A form is loaded from a document, or there is a reason in the document why not. -/
theorem load_or_fault (v : Value) :
    (∃ loaded, ofDocument v = .ok loaded) ∨ ∃ e, ofDocument v = .error e ∧ LoadFault v e := by
  rcases (failsOnly_ofDocument v).cases_eq with ⟨loaded, h, -⟩ | h
  · exact Or.inl ⟨loaded, h⟩
  · exact Or.inr h

/-- A document whose integers are held by doubles, and can be written, is loaded unless its shape
is to blame. -/
theorem load_or_loadError {v : Value}
    (hv : ∀ n, v.Holds (.int n) →
      (Double.ofInt? n).isSome = true ∧ (Nat.toDigits 10 n.natAbs).length ≤ Integer.digitLimit) :
    (∃ loaded, ofDocument v = .ok loaded) ∨ ∃ e, ofDocument v = .error e ∧ e.IsLoadError := by
  rcases load_or_fault v with h | ⟨e, he, hfault⟩
  · exact Or.inl h
  · refine Or.inr ⟨e, he, ?_⟩
    cases hfault with
    | notObject => trivial
    | notList => trivial
    | unknownShape => trivial
    | @tooLarge r name n held numeric found large =>
        have hint : v.Holds (.int n) := by
          rw [← found]
          exact held.trans (Record.holds_get (by simp [found]))
        exact absurd (hv n hint).1 (by simp [large])
    | tooLong held long => exact absurd (hv _ held).2 (Nat.not_le_of_lt long)

/-- A field that allows for more characters than any double counts. -/
def endlessField : Value :=
  .object
    [("title", .text "Trip"), ("program", .int 7),
      ("steps", .list [.object
        [("key", .text "s1"), ("title", .text "Details"),
          ("fields", .list [.object [("field_name", .text "age")]])]]),
      ("fields", .list [.object
        [("field_name", .text "age"), ("label", .text "Age"), ("field_type", .text "text"),
          ("max_length", .int (10 ^ 309))]])]

theorem ofDocument_endlessField : ofDocument endlessField = .error .integerBeyondDouble := by
  have hfault : (match ofDocument endlessField with
      | .ok _ => none
      | .error e => some e) = some Fault.integerBeyondDouble := by
    decide +kernel
  cases hload : ofDocument endlessField with
  | ok loaded => simp [hload] at hfault
  | error e => simpa [hload] using hfault

/-- A numeric member can keep a document from being loaded. -/
theorem not_forall_load_or_loadError :
    ¬ ∀ v, (∃ loaded, ofDocument v = .ok loaded) ∨
      ∃ e, ofDocument v = .error e ∧ e.IsLoadError := by
  intro hall
  rcases hall endlessField with ⟨loaded, h⟩ | ⟨e, h, he⟩
  · rw [ofDocument_endlessField] at h
    cases h
  · rw [ofDocument_endlessField] at h
    obtain rfl := Except.error.inj h
    exact he

end Form

end ConditionalForms
