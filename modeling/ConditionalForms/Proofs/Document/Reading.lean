import ConditionalForms.Document.Load
import ConditionalForms.Proofs.Form.Normal
import ConditionalForms.Proofs.Sequence
import ConditionalForms.Proofs.Value.Text

/-!
# What a record gives a field

A field is read from the members of its record and then brought into normal form.  Most of what the
field has is taken from the record as it is, and normal form leaves it alone.  The rest are its name,
which is given, derived from the label or numbered, and its rules, which are cleaned.

**Definitions.**
* `Field.HasMembers`: the field has what is taken from a record as it is.
* `Field.IsTakenFrom`: all that a field in normal form has from its record.

**Results.**
* `Field.hasMembers_of_ofRecord`: what is read.
* `Field.HasMembers.normalize`: normal form keeps what is taken as it is.
* `Field.isTakenFrom_of_ofRecord`: what a field has from its record in the end.
-/

namespace ConditionalForms

open Operator (allowedOnFields)

theorem Value.empty_notMem_texts {v : Value} {texts : List String} (h : v.texts = .ok texts) :
    "" ∉ texts := by
  unfold Value.texts at h
  split at h
  · intro hmem
    obtain ⟨x, hx, htext⟩ := exists_left_of_forall₂ (forall₂_of_mapM h) hmem
    rw [eq_empty_of_plainText htext, List.mem_filter] at hx
    simp at hx
  · obtain rfl := Except.ok.inj h
    exact List.not_mem_nil

namespace Field

/-- The rules that a record gives. -/
def givenLogic (r : Record) : Except Fault (Option RuleGroup) :=
  RuleGroup.ofValue? (r.firstOf ["conditional_logic", "conditionalLogic"] .null)

/-- The field has those members of a record that are taken as they are, in a step of some
columns. -/
structure HasMembers (f : Field) (r : Record) (columns : Int) : Prop where
  label : labelOf r = .ok f.label
  kind : f.kind = (kindOf? r).getD .text
  required : f.required = (r.firstOf ["is_required", "required"] (.bool false)).isTruthy
  helpText : (r.firstOf ["help_text", "helpText"] (.text "")).plainText = .ok f.helpText
  options : (r.get "options").texts = .ok f.options
  maxLength : (r.get "max_length").wholeBound? = .ok f.maxLength
  minValue : (r.get "min_value").bound? = .ok f.minValue
  maxValue : (r.get "max_value").bound? = .ok f.maxValue
  fileTypes : (r.get "allowed_file_types").texts = .ok f.fileTypes
  maxFileSize : (r.get "max_file_size").wholeBound? = .ok f.maxFileSize
  span : Grid.span (r.firstOf ["column_span", "columnSpan"] .null) columns = .ok f.span

/-- A field in normal form has what a record gives: its own name, or else one from its label or a
numbered one, and those of its rules that a field may have. -/
structure IsTakenFrom (f : Field) (r : Record) (columns number : Int) : Prop extends
    f.HasMembers r columns where
  name : ∃ given, r.textOf "field_name" = .ok given ∧ f.name =
    orElseText (Text.trim given) (orElseText (Name.slug f.label) (Name.placeholder number))
  id : f.id = f.name
  logic : ∃ given, givenLogic r = .ok given ∧
    RuleGroup.cleanLogic allowedOnFields given = .ok f.logic

variable {r : Record} {f normal : Field} {columns : Int} {fallback : String}

theorem hasMembers_of_ofRecord (h : ofRecord r columns fallback = .ok f) :
    f.HasMembers r columns ∧ nameOf r f.label fallback = .ok f.name ∧ f.id = f.name ∧
      givenLogic r = .ok f.logic := by
  simp only [ofRecord, bind_eq_ok, pure_eq_ok] at h
  obtain ⟨label, hlabel, name, hname, helpText, hhelpText, options, hoptions, maxLength,
    hmaxLength, minValue, hminValue, maxValue, hmaxValue, fileTypes, hfileTypes, maxFileSize,
    hmaxFileSize, span, hspan, logic, hlogic, rfl⟩ := h
  exact ⟨⟨hlabel, rfl, rfl, hhelpText, hoptions, hmaxLength, hminValue, hmaxValue, hfileTypes,
    hmaxFileSize, hspan⟩, hname, rfl, hlogic⟩

/-- In a grid of the columns that a field was read for, normal form keeps what it was read as. -/
theorem HasMembers.normalize {number : Nat} (h : f.HasMembers r columns)
    (hpos : 1 ≤ columns) (hle : columns ≤ Grid.maxColumns)
    (hnormal : f.normalize columns number = .ok normal) : normal.HasMembers r columns := by
  obtain ⟨span, logic, hspan, -, rfl⟩ := normalize_eq_ok hnormal
  obtain ⟨hspan_pos, hspan_le⟩ := Grid.span_bounds hpos h.span
  rw [Grid.span_of_bounds hspan_pos (Int.le_trans hspan_le hle), min_eq_right hspan_le] at hspan
  obtain rfl := Except.ok.inj hspan
  have hoptions : f.options.filter (· ≠ "") = f.options :=
    filter_ne_empty (Value.empty_notMem_texts h.options)
  exact { h with options := h.options.trans (congrArg Except.ok hoptions.symm) }

theorem isTakenFrom_of_ofRecord {number : Nat} {n : Int} (hpos : 1 ≤ columns)
    (hle : columns ≤ Grid.maxColumns) (h : ofRecord r columns (Name.placeholder n) = .ok f)
    (hnormal : f.normalize columns number = .ok normal) : normal.IsTakenFrom r columns n := by
  obtain ⟨hmembers, hname, hid, hlogic⟩ := hasMembers_of_ofRecord h
  simp only [nameOf, bind_eq_ok, pure_eq_ok] at hname
  obtain ⟨given, hgiven, hname⟩ := hname
  -- the name that is read is a name already, so that normal form keeps it
  have hkept : f.normalName number = f.name := by
    rw [normalName, ← hname, Name.trim_orElse, orElseText_of_ne (Name.orElse_ne _ _ _)]
  have hne : f.id ≠ "" := by
    rw [hid, ← hkept]
    exact normalName_ne f number
  refine ⟨hmembers.normalize hpos hle hnormal, ?_, ?_, f.logic, hlogic, ?_⟩
  all_goals obtain ⟨span, logic, -, hclean, rfl⟩ := normalize_eq_ok hnormal
  · exact ⟨given, hgiven, hkept.trans hname.symm⟩
  · show orElseText f.id (f.normalName number) = f.normalName number
    rw [orElseText_of_ne hne, hid, hkept]
  · exact hclean

end Field

end ConditionalForms
