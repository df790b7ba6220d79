import ConditionalForms.Document.Load
import ConditionalForms.Proofs.Form.Normal
import ConditionalForms.Proofs.Value.Fault
import ConditionalForms.Proofs.Value.Text

/-!
# How loading fails

Three faults are a matter of what a document looks like: it is no object, a list of members is no
list, or it has none of the known shapes.  Two more come from its integers: one beyond the doubles
cannot be read as a number, and one with too many digits cannot be written.

**Definitions.**
* `LoadFault`: the faults of loading a document, each with what is at fault in the document.

**Results.**
* `Grid.failsOnly_columnCount`, `Grid.failsOnly_span`: a width is found out of every value but an
  integer beyond the doubles.
* `Field.contract_load`, `Step.contract_ofRecord`: what loading the record of a field or a step
  comes to.
-/

namespace ConditionalForms

theorem Value.failsOnly_texts (v : Value) : FailsOnly v.TooLong v.texts := by
  unfold texts
  split
  · rename_i items
    refine (contract_mapM (S := fun _ => True) fun x hx => ?_).failsOnly
    have hmem := (List.mem_filter.mp hx).1
    exact (failsOnly_plainText x).mono fun e he => he.mono (.item hmem (.self x))
  · exact .ok _

namespace Grid

theorem failsOnly_columnCount (v : Value) : FailsOnly v.TooLarge (columnCount v) := by
  rw [columnCount]
  refine (Value.failsOnly_extent v).bind fun x => ?_
  cases wholeColumns? x <;> exact .pure _

theorem failsOnly_span (v : Value) (columns : Int) : FailsOnly v.TooLarge (span v columns) := by
  rw [span]
  refine (Value.failsOnly_extent v).bind fun x => ?_
  cases wholeColumns? x <;> exact .pure _

end Grid

/-- The members of the records of a document that are read as numbers. -/
def numericMembers : List String :=
  ["order", "max_length", "min_value", "max_value", "max_file_size", "column_span", "columnSpan",
    "columns", "layoutColumns", "layout_columns"]

/-- The ways in which loading a document fails, with what is at fault in the document. -/
inductive LoadFault (v : Value) : Fault → Prop where
  | notObject (other : ∀ r, v ≠ .object r) : LoadFault v (.documentNotObject v.kindName)
  | notList {r : Record} {name : String} (held : v.Holds (.object r))
      (listed : name = "fields" ∨ name = "steps") (present : r.get name ≠ .null)
      (other : ∀ items, r.get name ≠ .list items) :
      LoadFault v (.memberNotList name (r.get name).kindName)
  | unknownShape {r : Record} (whole : v = .object r) (given : (r.get "steps").isTruthy = true)
      (other : (∀ items, r.get "steps" ≠ .list items) ∨
        r.has "fields" = true ∧ ∀ items, r.get "fields" ≠ .list items) :
      LoadFault v .unknownShape
  | tooLarge {r : Record} {name : String} {n : Int} (held : v.Holds (.object r))
      (numeric : name ∈ numericMembers) (found : r.get name = .int n)
      (large : Double.ofInt? n = none) : LoadFault v .integerBeyondDouble
  | tooLong {n : Int} (held : v.Holds (.int n))
      (long : Integer.digitLimit < (Nat.toDigits 10 n.natAbs).length) :
      LoadFault v .integerTooLongToWrite

/-- Every member of a record is one of some object in a value. -/
def Value.Supplies (v : Value) (r : Record) : Prop :=
  ∀ name, ∃ s : Record, v.Holds (.object s) ∧ s.get name = r.get name

namespace Record

theorem mem_of_get? {r : Record} {name : String} {x : Value} (h : r.get? name = some x) :
    (Key.text name, x) ∈ r := by
  induction r with
  | nil => simp [get?_nil] at h
  | cons m rest ih =>
      obtain ⟨k, w⟩ := m
      rw [get?_cons] at h
      split at h
      · rename_i hk
        obtain rfl := Option.some.inj h
        obtain rfl : k = .text name := hk
        exact List.mem_cons_self
      · exact List.mem_cons_of_mem _ (ih h)

theorem holds_get {r : Record} {name : String} (h : r.get name ≠ .null) :
    (Value.object r).Holds (r.get name) := by
  cases hx : r.get? name with
  | none => simp [get, hx] at h
  | some x =>
      rw [get, hx]
      exact .member (mem_of_get? hx) (.self x)

/-- What is too long in a member is so in the record. -/
theorem tooLong_of_get {r : Record} {name : String} {e : Fault} (h : (r.get name).TooLong e) :
    (Value.object r).TooLong e := by
  have hname : r.get name ≠ .null := by
    intro hnull
    rw [hnull] at h
    obtain ⟨held, -⟩ := h
    cases held
  exact h.mono (holds_get hname)

/-- The first value under some names is the default, or a value under one of the names. -/
theorem firstOf_cases (r : Record) (names : List String) (default : Value) :
    r.firstOf names default = default ∨ ∃ name ∈ names, r.firstOf names default = r.get name := by
  induction names with
  | nil => exact Or.inl rfl
  | cons name rest ih =>
      unfold firstOf
      split
      · exact ih.imp_right fun ⟨other, hother, heq⟩ => ⟨other, List.mem_cons_of_mem _ hother, heq⟩
      · exact Or.inr ⟨name, List.mem_cons_self, rfl⟩

end Record

namespace Value.Supplies

variable {v : Value} {r : Record} {name : String}

theorem of_holds (h : v.Holds (.object r)) : v.Supplies r := fun _ => ⟨r, h, rfl⟩

theorem holds_get (h : v.Supplies r) (hname : r.get name ≠ .null) : v.Holds (r.get name) := by
  obtain ⟨s, hs, hget⟩ := h name
  rw [← hget] at hname ⊢
  exact hs.trans (Record.holds_get hname)

theorem holds_of_get (h : v.Supplies r) {members : Record} (hget : r.get name = .object members) :
    v.Holds (.object members) := by
  rw [← hget]
  exact h.holds_get (by simp [hget])

/-- A value that overrides a member is one of an object as well. -/
theorem set {s : Record} (h : v.Supplies r) (hs : v.Supplies s) (name : String) :
    v.Supplies (r.set name (s.get name)) := by
  intro other
  by_cases heq : name = other
  · subst heq
    obtain ⟨t, ht, hget⟩ := hs name
    refine ⟨t, ht, hget.trans ?_⟩
    show s.get name = ((r.set name (s.get name)).get? name).getD .null
    rw [Record.get?_set, if_pos rfl, Option.getD_some]
  · obtain ⟨t, ht, hget⟩ := h other
    refine ⟨t, ht, hget.trans ?_⟩
    show (r.get? other).getD .null = ((r.set name (s.get name)).get? other).getD .null
    rw [Record.get?_set, if_neg heq]

theorem tooLong (h : v.Supplies r) {e : Fault} (he : (r.get name).TooLong e) : LoadFault v e := by
  obtain ⟨s, hs, hget⟩ := h name
  rw [← hget] at he
  obtain ⟨held, long⟩ := Record.tooLong_of_get he
  exact .tooLong (hs.trans held) long

theorem tooLarge (h : v.Supplies r) (hname : name ∈ numericMembers) {e : Fault}
    (he : (r.get name).TooLarge e) : LoadFault v e := by
  obtain ⟨s, hs, hget⟩ := h name
  generalize hw : r.get name = w at he
  obtain ⟨large⟩ := he
  exact .tooLarge hs hname (hget.trans hw) large

theorem failsOnly_plainText (h : v.Supplies r) : FailsOnly (LoadFault v) (r.get name).plainText :=
  (Value.failsOnly_plainText _).mono fun _ he => h.tooLong he

theorem failsOnly_firstOf (h : v.Supplies r) (names : List String) (s : String) :
    FailsOnly (LoadFault v) (r.firstOf names (.text s)).plainText := by
  rcases r.firstOf_cases names (.text s) with heq | ⟨name, -, heq⟩
  · rw [heq]
    exact .ok s
  · rw [heq]
    exact h.failsOnly_plainText

theorem failsOnly_textOf (h : v.Supplies r) (name : String) :
    FailsOnly (LoadFault v) (r.textOf name) := by
  rw [Record.textOf]
  split
  · exact h.failsOnly_plainText
  · exact .ok ""

theorem failsOnly_texts (h : v.Supplies r) (name : String) :
    FailsOnly (LoadFault v) (r.get name).texts :=
  (Value.failsOnly_texts _).mono fun _ he => h.tooLong he

theorem failsOnly_bound? (h : v.Supplies r) (hname : name ∈ numericMembers) :
    FailsOnly (LoadFault v) (r.get name).bound? :=
  (Value.failsOnly_bound? _).mono fun _ he => h.tooLarge hname he

theorem failsOnly_wholeBound? (h : v.Supplies r) (hname : name ∈ numericMembers) :
    FailsOnly (LoadFault v) (r.get name).wholeBound? :=
  (Value.failsOnly_wholeBound? _).mono fun _ he => h.tooLarge hname he

/-- Of some members that are read as numbers the first one is taken, or else a default. -/
theorem failsOnly_firstNumber {α : Type} (h : v.Supplies r) {names : List String}
    (hnames : ∀ name ∈ names, name ∈ numericMembers) {read : Value → Except Fault α}
    (hread : ∀ w, FailsOnly w.TooLarge (read w)) {default : Value}
    (hdefault : FailsOnly (LoadFault v) (read default)) :
    FailsOnly (LoadFault v) (read (r.firstOf names default)) := by
  rcases r.firstOf_cases names default with heq | ⟨name, hname, heq⟩
  · rw [heq]
    exact hdefault
  · rw [heq]
    exact (hread _).mono fun _ he => h.tooLarge (hnames name hname) he

theorem failsOnly_span (h : v.Supplies r) (columns : Int) :
    FailsOnly (LoadFault v)
      (Grid.span (r.firstOf ["column_span", "columnSpan"] .null) columns) :=
  h.failsOnly_firstNumber (by decide) (Grid.failsOnly_span · columns) (.ok _)

end Value.Supplies

/-- The operand of a rule is a text, or there is none. -/
def Rule.IsTyped (r : Rule) : Prop := r.operand = .null ∨ ∃ s, r.operand = .text s

theorem Value.contract_operandText (v : Value) :
    Contract v.TooLong (fun w => ∃ s, w = .text s) v.operandText := by
  rw [operandText]
  exact Contract.bind (failsOnly_answerText v) fun s _ => .pure ⟨s, rfl⟩

namespace Rule

/-- Only the operand of a rule can keep it from being read. -/
theorem contract_read (members : Record) (path : String) (op : Operator) :
    Contract (Value.object members).TooLong (fun r? => ∀ r ∈ r?, IsTyped r) (do
      if path = "" then return none
      let operand ← if op.needsOperand then (Record.get members "value").operandText
        else pure .null
      return some ⟨path, op, operand⟩) := by
  split
  · exact .pure (by simp)
  · split
    · have hoperand := (Value.contract_operandText (Record.get members "value")).mono
        fun e he => Record.tooLong_of_get he
      refine hoperand.bind fun operand htext => .pure ?_
      intro r hr
      obtain rfl := Option.mem_some_iff.mp hr
      exact Or.inr htext
    · refine .pure ?_
      intro r hr
      obtain rfl := Option.mem_some_iff.mp hr
      exact Or.inl rfl

theorem contract_ofValue? (v : Value) :
    Contract v.TooLong (fun r? => ∀ r ∈ r?, IsTyped r) (ofValue? v) := by
  cases v with
  | object members =>
      rw [ofValue?]
      dsimp only
      split
      · exact .pure (by simp)
      · exact contract_read members _ _
  | _ => exact .pure (by simp)

end Rule

theorem RuleGroup.contract_ofValue? (v : Value) :
    Contract v.TooLong (fun logic => ∀ g ∈ logic, ∀ r ∈ g.rules, r.IsTyped) (ofValue? v) := by
  cases v with
  | object members =>
      rw [ofValue?]
      cases hrules : Record.get members "rules" with
      | list entries =>
          have hentry : ∀ entry ∈ entries, Contract (Value.object members).TooLong
              (fun r? => ∀ r ∈ r?, Rule.IsTyped r) (Rule.ofValue? entry) := by
            intro entry hentry
            refine (Rule.contract_ofValue? entry).mono fun e he => ?_
            have hlong : (Record.get members "rules").TooLong e := by
              rw [hrules]
              exact he.mono (.item hentry (.self entry))
            exact Record.tooLong_of_get hlong
          refine (contract_collect hentry).bind fun rules htyped => .pure ?_
          unfold ofRules?
          split
          · simp
          · intro g hg
            obtain rfl := Option.mem_some_iff.mp hg
            exact htyped
      | _ => exact .pure (by simp)
  | _ => exact .pure (by simp)

theorem Value.Supplies.failsOnly_logic {v : Value} {r : Record} (h : v.Supplies r) :
    FailsOnly (LoadFault v)
      (RuleGroup.ofValue? (r.firstOf ["conditional_logic", "conditionalLogic"] .null)) := by
  rcases r.firstOf_cases ["conditional_logic", "conditionalLogic"] .null with heq | ⟨name, -, heq⟩
  · rw [heq]
    exact .ok none
  · rw [heq]
    exact (RuleGroup.contract_ofValue? _).failsOnly.mono fun _ he => h.tooLong he

namespace Field

variable {v : Value} {r : Record}

theorem failsOnly_labelOf (h : v.Supplies r) : FailsOnly (LoadFault v) (labelOf r) :=
  h.failsOnly_firstOf ["label", "name"] "Field"

theorem failsOnly_recordWarnings (h : v.Supplies r) :
    FailsOnly (LoadFault v) (recordWarnings r) := by
  rw [recordWarnings]
  refine (failsOnly_labelOf h).bind fun label => ?_
  cases kindOf? r with
  | some kind => exact .pure []
  | none =>
      refine FailsOnly.bind ?_ fun kind => .pure _
      rw [kindValue]
      rcases r.firstOf_cases ["field_type", "type"] (.text "text") with heq | ⟨name, -, heq⟩
      · rw [heq]
        exact .ok _
      · rw [heq]
        exact (Value.failsOnly_literal _).mono fun _ he => h.tooLong he

theorem failsOnly_nameOf (h : v.Supplies r) (label fallback : String) :
    FailsOnly (LoadFault v) (nameOf r label fallback) := by
  rw [nameOf]
  exact (h.failsOnly_textOf "field_name").bind fun name => .pure _

theorem failsOnly_ofRecord (h : v.Supplies r) (columns : Int) (fallback : String) :
    FailsOnly (LoadFault v) (ofRecord r columns fallback) := by
  rw [ofRecord]
  refine (failsOnly_labelOf h).bind fun label => ?_
  refine (failsOnly_nameOf h label fallback).bind fun name => ?_
  refine (h.failsOnly_firstOf _ _).bind fun helpText => ?_
  refine (h.failsOnly_texts _).bind fun options => ?_
  refine (h.failsOnly_wholeBound? (by decide)).bind fun maxLength => ?_
  refine (h.failsOnly_bound? (by decide)).bind fun minValue => ?_
  refine (h.failsOnly_bound? (by decide)).bind fun maxValue => ?_
  refine (h.failsOnly_texts _).bind fun fileTypes => ?_
  refine (h.failsOnly_wholeBound? (by decide)).bind fun maxFileSize => ?_
  refine (h.failsOnly_span columns).bind fun span => ?_
  exact h.failsOnly_logic.bind fun logic => .pure _

/-- A field is loaded from some record, for a step of some columns. -/
def IsLoaded (columns : Int) (f : Field) : Prop :=
  ∃ r fallback, ofRecord r columns fallback = .ok f

theorem contract_load (h : v.Supplies r) (columns : Int) (fallback : String) :
    Contract (LoadFault v) (fun x => x.value.IsLoaded columns) (load r columns fallback) := by
  rw [load]
  refine Contract.bind (failsOnly_recordWarnings h) fun warnings _ => ?_
  refine ((failsOnly_ofRecord h columns fallback).contract fun f hf => hf).bind fun f hf => ?_
  exact .pure ⟨r, fallback, hf⟩

end Field

namespace Step

variable {v : Value} {r : Record}

/-- The width of a step is in range, it has a key, and its fields and rules are loaded from some
values. -/
structure IsLoaded (s : Step) : Prop where
  key_ne : s.key ≠ ""
  columns_pos : 1 ≤ s.columns
  columns_le : s.columns ≤ Grid.maxColumns
  fields : ∀ f ∈ s.fields, f.IsLoaded s.columns
  logic : ∃ w, RuleGroup.ofValue? w = .ok s.logic

theorem failsOnly_columnsOf (h : v.Holds (.object r)) {formColumns : Int} (hpos : 1 ≤ formColumns)
    (hle : formColumns ≤ Grid.maxColumns) : FailsOnly (LoadFault v) (columnsOf r formColumns) := by
  have hsupplies := Value.Supplies.of_holds h
  have hrest : FailsOnly (LoadFault v)
      (Grid.columnCount (r.firstOf ["layoutColumns", "layout_columns"] (.int formColumns))) := by
    refine hsupplies.failsOnly_firstNumber (by decide) Grid.failsOnly_columnCount ?_
    rw [Grid.columnCount_of_bounds hpos hle]
    exact .ok _
  rw [columnsOf]
  cases hlayout : r.get "layout" with
  | object layout =>
      dsimp only
      split
      · exact hrest
      · exact (Grid.failsOnly_columnCount _).mono fun _ he =>
          (Value.Supplies.of_holds (hsupplies.holds_of_get hlayout)).tooLarge (by decide) he
  | _ => exact hrest

theorem columnsOf_bounds {formColumns columns : Int} (h : columnsOf r formColumns = .ok columns) :
    1 ≤ columns ∧ columns ≤ Grid.maxColumns := by
  unfold columnsOf at h
  dsimp only at h
  split at h
  · exact Grid.columnCount_bounds h
  · exact Grid.columnCount_bounds h

theorem defaultKey_ne (index : Nat) : defaultKey index ≠ "" := by
  simp [defaultKey]

theorem contract_ofRecord (h : v.Supplies r) (index : Nat) {fields : List Field} {columns : Int}
    (hcolumns : 1 ≤ columns ∧ columns ≤ Grid.maxColumns)
    (hfields : ∀ f ∈ fields, f.IsLoaded columns) :
    Contract (LoadFault v) IsLoaded (ofRecord r index fields columns) := by
  have hkey : FailsOnly (LoadFault v) (r.firstOf ["key", "id"] (.text "")).plainText :=
    h.failsOnly_firstOf _ _
  have hrest : ∀ key : String, key ≠ "" → Contract (LoadFault v) IsLoaded (do
      let id ← (r.firstOf ["id"] (.text key)).plainText
      let title ← (r.firstOf ["title"] (.text (defaultTitle index))).plainText
      let description ← (r.firstOf ["description"] (.text "")).plainText
      let logic ← RuleGroup.ofValue? (r.firstOf ["conditional_logic", "conditionalLogic"] .null)
      return { id := id, key := key, title := title, description := description, fields := fields,
               perParticipant :=
                 (r.firstOf ["per_participant", "perParticipant"] (.bool true)).isTruthy,
               columns := columns, logic := logic }) := by
    intro key hne
    refine Contract.bind (h.failsOnly_firstOf _ _) fun id _ => ?_
    refine Contract.bind (h.failsOnly_firstOf _ _) fun title _ => ?_
    refine Contract.bind (h.failsOnly_firstOf _ _) fun description _ => ?_
    refine (h.failsOnly_logic.contract fun logic hlogic => hlogic).bind fun logic hlogic => ?_
    exact .pure ⟨hne, hcolumns.1, hcolumns.2, hfields, _, hlogic⟩
  rw [ofRecord]
  dsimp only
  split
  · rename_i hgiven
    refine (hkey.contract fun key hkey => ?_).bind hrest
    rintro rfl
    simp [Value.eq_empty_of_plainText hkey, Value.isTruthy] at hgiven
  · exact hrest (defaultKey index) (defaultKey_ne index)

end Step

end ConditionalForms
