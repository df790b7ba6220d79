import ConditionalForms.Proofs.Value.Record
import Mathlib.Data.List.Nodup

/-!
# Members in ascending order

Texts of documents list the members of every object in ascending order of their names, so that this
is the order they are read back in.  Looking a member up does not depend on the order.

**Definitions.**
* `Record.HasNames`: the keys are names, each of them used once.
* `Value.IsPlain`: all objects have names as their keys, and there are no dates.
* `Record.ascending`, `Value.sorted`: the members in ascending order, here and at all levels.
* `Value.IsOrdered`, `Record.IsSettled`: sorting does not change the value or the values.

**Results.**
* `Record.get?_of_perm`: records with the same members have the same values under names.
* `Record.get?_sorted`: the values of a sorted record are the sorted values.
-/

namespace ConditionalForms

/-- The name that a key is. -/
def Key.name : Key → String
  | .text s => s
  | _ => ""

namespace Record

/-- The keys are different names. -/
structure HasNames (r : Record) : Prop where
  names : ∀ m ∈ r, m.1 = .text m.1.name
  nodup : (r.map Prod.fst).Nodup

theorem HasNames.of_perm {r r' : Record} (h : r.HasNames) (hperm : r.Perm r') : r'.HasNames where
  names m hm := h.names m (hperm.mem_iff.mpr hm)
  nodup := (hperm.map Prod.fst).nodup h.nodup

/-- The members in ascending order of their names. -/
def ascending (r : Record) : Record := r.mergeSort fun m n => decide (m.1.name ≤ n.1.name)

/-- The record with a function applied to its values. -/
def mapValues (f : Value → Value) (r : Record) : Record := r.map fun m => (m.1, f m.2)

theorem ascending_perm (r : Record) : r.ascending.Perm r := List.mergeSort_perm _ _

/-- The order depends on the names only. -/
theorem ascending_mapValues (f : Value → Value) (r : Record) :
    (r.mapValues f).ascending = r.ascending.mapValues f := by
  have hmap := List.map_mergeSort (r := fun m n : Key × Value => decide (m.1.name ≤ n.1.name))
    (s := fun m n : Key × Value => decide (m.1.name ≤ n.1.name))
    (f := fun m : Key × Value => (m.1, f m.2)) (l := r) fun _ _ _ _ => rfl
  exact hmap.symm

theorem get?_mapValues (f : Value → Value) (r : Record) (name : String) :
    (r.mapValues f).get? name = (r.get? name).map f := by
  induction r with
  | nil => rfl
  | cons m rest ih =>
      rw [mapValues, List.map_cons, get?_cons, get?_cons, ← mapValues, ih]
      split <;> rfl

theorem get?_eq_some_iff {r : Record} (h : (r.map Prod.fst).Nodup) {name : String} {v : Value} :
    r.get? name = some v ↔ (.text name, v) ∈ r := by
  induction r with
  | nil => simp [get?_nil]
  | cons m rest ih =>
      obtain ⟨k, w⟩ := m
      rw [List.map_cons, List.nodup_cons] at h
      rw [get?_cons]
      by_cases hk : k = .text name
      · subst hk
        have hrest : ∀ v, (Key.text name, v) ∉ rest := fun v hv =>
          h.1 (List.mem_map.mpr ⟨_, hv, rfl⟩)
        simp [hrest, eq_comm]
      · have hne : (Key.text name, v) ≠ (k, w) := fun e => hk (congrArg Prod.fst e).symm
        simp [hk, hne, ih h.2]

/-- Records with the same members have the same values under names. -/
theorem get?_of_perm {r r' : Record} (h : r.Perm r') (hnodup : (r.map Prod.fst).Nodup)
    (name : String) : r.get? name = r'.get? name := by
  have hnodup' : (r'.map Prod.fst).Nodup := (h.map Prod.fst).nodup hnodup
  ext v
  rw [get?_eq_some_iff hnodup, get?_eq_some_iff hnodup', h.mem_iff]

/-- A name that no key is stands behind the others. -/
theorem set_of_forall_ne {r : Record} {name : String} {v : Value}
    (h : ∀ m ∈ r, m.1 ≠ .text name) : r.set name v = r ++ [(.text name, v)] := by
  induction r with
  | nil => rfl
  | cons m rest ih =>
      obtain ⟨k, w⟩ := m
      have hk : k ≠ .text name := h (k, w) List.mem_cons_self
      have hrest := ih fun m hm => h m (List.mem_cons_of_mem _ hm)
      simp [set, Key.same_text, hk, hrest]

end Record

namespace Value

/-- A value of texts, numbers, lists and objects whose keys are different names. -/
inductive IsPlain : Value → Prop
  | null : IsPlain .null
  | bool (b : Bool) : IsPlain (.bool b)
  | int (n : Int) : IsPlain (.int n)
  | float (x : Double) : IsPlain (.float x)
  | text (s : String) : IsPlain (.text s)
  | list {items : List Value} (hitems : ∀ v ∈ items, IsPlain v) : IsPlain (.list items)
  | object {members : Record} (hnames : members.HasNames)
      (hmembers : ∀ m ∈ members, IsPlain m.2) : IsPlain (.object members)

mutual

/-- The value with the members of its objects in ascending order, at all levels. -/
def sorted : Value → Value
  | .list items => .list (sortedItems items)
  | .object members => .object (Record.ascending (sortedMembers members))
  | v => v

/-- The sorted items of a list. -/
def sortedItems : List Value → List Value
  | [] => []
  | v :: rest => sorted v :: sortedItems rest

/-- The members of an object, each with its value sorted. -/
def sortedMembers : List (Key × Value) → Record
  | [] => []
  | (k, v) :: rest => (k, sorted v) :: sortedMembers rest

end

@[simp] theorem sortedItems_eq_map (items : List Value) : sortedItems items = items.map sorted := by
  induction items with
  | nil => rfl
  | cons v rest ih => rw [sortedItems, ih, List.map_cons]

@[simp] theorem sortedMembers_eq (r : Record) : sortedMembers r = r.mapValues sorted := by
  induction r with
  | nil => rfl
  | cons m rest ih =>
      rw [sortedMembers, ih]
      rfl

end Value

/-- The record with its members and those of its values in ascending order. -/
def Record.sorted (r : Record) : Record := (r.mapValues Value.sorted).ascending

theorem Value.sorted_object (r : Record) : sorted (.object r) = .object r.sorted := by
  rw [sorted, sortedMembers_eq, Record.sorted]

/-- The values of a sorted record are the sorted values. -/
theorem Record.get?_sorted {r : Record} (h : r.HasNames) (name : String) :
    r.sorted.get? name = (r.get? name).map Value.sorted := by
  have hkeys : (r.mapValues Value.sorted).map Prod.fst = r.map Prod.fst := by
    simp [mapValues]
  have hnodup : ((r.mapValues Value.sorted).map Prod.fst).Nodup := hkeys ▸ h.nodup
  rw [sorted, ← get?_of_perm (ascending_perm _).symm hnodup, get?_mapValues]

namespace Value

/-- A plain value whose objects have their members in ascending order. -/
structure IsOrdered (v : Value) : Prop where
  plain : v.IsPlain
  sorted : v.sorted = v

theorem isOrdered_null : IsOrdered .null := ⟨.null, rfl⟩

theorem isOrdered_bool (b : Bool) : IsOrdered (.bool b) := ⟨.bool b, rfl⟩

theorem isOrdered_int (n : Int) : IsOrdered (.int n) := ⟨.int n, rfl⟩

theorem isOrdered_float (x : Double) : IsOrdered (.float x) := ⟨.float x, rfl⟩

theorem isOrdered_text (s : String) : IsOrdered (.text s) := ⟨.text s, rfl⟩

theorem isOrdered_list {items : List Value} (h : ∀ v ∈ items, v.IsOrdered) :
    IsOrdered (.list items) := by
  refine ⟨.list fun v hv => (h v hv).plain, ?_⟩
  rw [Value.sorted, sortedItems_eq_map, List.map_congr_left fun v hv => (h v hv).sorted,
    List.map_id']

end Value

namespace Record

/-- The keys are different names, and sorting does not change the values. -/
structure IsSettled (r : Record) : Prop where
  names : r.HasNames
  values : ∀ m ∈ r, m.2.IsOrdered

/-- Only the order of the members is changed when their values are ordered. -/
theorem mapValues_sorted {r : Record} (h : ∀ m ∈ r, m.2.IsOrdered) :
    r.mapValues Value.sorted = r := by
  have hmap : ∀ m ∈ r, (m.1, m.2.sorted) = m := fun m hm => by rw [(h m hm).sorted]
  rw [mapValues, List.map_congr_left hmap, List.map_id']

/-- The keys are some different names. -/
theorem hasNames_of_keys {r : Record} (names : List String)
    (hkeys : r.map Prod.fst = names.map Key.text) (hnodup : names.Nodup) : r.HasNames where
  names m hm := by
    have hkey : m.1 ∈ names.map Key.text := hkeys ▸ List.mem_map_of_mem hm
    obtain ⟨name, -, hname⟩ := List.mem_map.mp hkey
    rw [← hname, Key.name]
  nodup := by
    rw [hkeys]
    exact hnodup.map fun _ _ => Key.text.inj

theorem map_fst_ofNames (members : List (String × Value)) :
    (ofNames members).map Prod.fst = (members.map Prod.fst).map Key.text := by
  simp [ofNames]

theorem get_sorted {r : Record} (h : r.HasNames) (name : String) :
    r.sorted.get name = (r.get name).sorted := by
  rw [get, get, get?_sorted h]
  cases r.get? name <;> rfl

end Record

namespace Value

/-- An object of ordered values under names that are in ascending order already. -/
theorem isOrdered_of_keys {r : Record} (names : List String)
    (hkeys : r.map Prod.fst = names.map Key.text) (hnodup : names.Nodup)
    (hascending : names.Pairwise fun s t => s ≤ t) (h : ∀ m ∈ r, m.2.IsOrdered) :
    IsOrdered (.object r) := by
  have hmap : (r.map Prod.fst).map Key.name = names := by
    rw [hkeys, List.map_map]
    exact List.map_id' names
  rw [← hmap, List.pairwise_map, List.pairwise_map] at hascending
  have horder : r.ascending = r := by
    refine List.mergeSort_of_pairwise ?_
    simpa using hascending
  refine ⟨.object (Record.hasNames_of_keys names hkeys hnodup) fun m hm => (h m hm).plain, ?_⟩
  rw [sorted_object, Record.sorted, Record.mapValues_sorted h, horder]

/-- Sorting a list of objects sorts every one of them. -/
theorem sorted_objects (records : List Record) :
    sorted (.list (records.map .object)) = .list ((records.map Record.sorted).map .object) := by
  rw [sorted, sortedItems_eq_map, List.map_map, List.map_map]
  exact congrArg _ (List.map_congr_left fun r _ => sorted_object r)

end Value

end ConditionalForms
