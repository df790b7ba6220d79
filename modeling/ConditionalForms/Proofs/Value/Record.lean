import ConditionalForms.Document.Load

/-!
# Looking up members of records

A document is built from lists of named members, some of which are there only for fields of some
kinds.  The lemmas of this module look a name up in such a list, in a record that a member was set
in, and in two records that were merged.

**Definitions.**
* `Record.IsMap`: at most one member stands under a key.

**Results.**
* `Record.get?_append`: the first of two records comes first.
* `Record.get?_merge`: in merged records the members of the second one come first.
* `Record.IsMap.set`, `Record.IsMap.erase`: setting and erasing keep a record a map.
* `Record.set_eq_self`: setting a member to the value that it has changes nothing.
* `Record.firstOf_of_ne`, `Record.firstOf_pair`: the first of two names that has a value.
-/

namespace ConditionalForms
namespace Record

@[simp] theorem ofNames_nil : ofNames [] = [] := rfl

@[simp] theorem ofNames_cons (name : String) (v : Value) (rest : List (String × Value)) :
    ofNames ((name, v) :: rest) = (.text name, v) :: ofNames rest := rfl

@[simp] theorem ofNames_append (front rest : List (String × Value)) :
    ofNames (front ++ rest) = ofNames front ++ ofNames rest := by
  simp [ofNames]

theorem get?_append (r s : Record) (name : String) :
    get? (r ++ s) name = (r.get? name).or (s.get? name) := by
  induction r with
  | nil => rfl
  | cons m rest ih =>
      rw [List.cons_append, get?_cons, get?_cons, ih]
      split <;> rfl

theorem get?_eq_none {r : Record} {name : String} (h : ∀ m ∈ r, m.1 ≠ .text name) :
    r.get? name = none := by
  induction r with
  | nil => rfl
  | cons m rest ih =>
      rw [get?_cons, if_neg (h m List.mem_cons_self)]
      exact ih fun n hn => h n (List.mem_cons_of_mem _ hn)

/-- A member under another key does not count for a name, whatever the key is. -/
theorem get?_set_of_ne {key : Key} {name : String} (h : key ≠ .text name) (r : Record) (v : Value) :
    (r.set key v).get? name = r.get? name := by
  induction r with
  | nil => rw [set, get?_cons, if_neg h]
  | cons m rest ih =>
      obtain ⟨k, w⟩ := m
      rw [set]
      split
      · rename_i hsame
        have hk : k ≠ .text name := by
          rintro rfl
          rw [Key.text_same, decide_eq_true_eq] at hsame
          exact h hsame.symm
        rw [get?_cons, get?_cons, if_neg hk, if_neg hk]
      · rw [get?_cons, get?_cons, ih]

/-- Setting a member adds no key but its own. -/
theorem key_of_mem_set {r : Record} {key : Key} {v : Value} {m : Key × Value}
    (h : m ∈ r.set key v) : m.1 = key ∨ ∃ n ∈ r, n.1 = m.1 := by
  induction r with
  | nil =>
      left
      rw [set, List.mem_singleton] at h
      rw [h]
  | cons n rest ih =>
      obtain ⟨k, w⟩ := n
      rw [set] at h
      split at h
      · rcases List.mem_cons.mp h with rfl | h
        · exact Or.inr ⟨_, List.mem_cons_self, rfl⟩
        · exact Or.inr ⟨m, List.mem_cons_of_mem _ h, rfl⟩
      · rcases List.mem_cons.mp h with rfl | h
        · exact Or.inr ⟨_, List.mem_cons_self, rfl⟩
        · rcases ih h with hkey | ⟨n, hn, hkey⟩
          · exact Or.inl hkey
          · exact Or.inr ⟨n, List.mem_cons_of_mem _ hn, hkey⟩

/-- At most one member stands under a key. -/
def IsMap (r : Record) : Prop := (r.map Prod.fst).Nodup

theorem IsMap.set {r : Record} (h : r.IsMap) (name : String) (v : Value) :
    (r.set name v).IsMap := by
  induction r with
  | nil => simp [IsMap, Record.set]
  | cons m rest ih =>
      obtain ⟨k, w⟩ := m
      obtain ⟨hk, hrest⟩ := List.nodup_cons.mp h
      rw [Record.set, Key.same_text]
      by_cases hname : k = .text name
      · rw [if_pos (decide_eq_true hname)]
        exact List.nodup_cons.mpr ⟨hk, hrest⟩
      · rw [if_neg (by simpa using hname)]
        refine List.nodup_cons.mpr ⟨?_, ih hrest⟩
        intro hmem
        obtain ⟨n, hn, hkey⟩ := List.mem_map.mp hmem
        rcases key_of_mem_set hn with hset | ⟨n', hn', hsame⟩
        · exact hname (hkey.symm.trans hset)
        · exact hk (List.mem_map.mpr ⟨n', hn', hsame.trans hkey⟩)

theorem IsMap.erase {r : Record} (h : r.IsMap) (name : String) : (r.erase name).IsMap :=
  List.Nodup.sublist (List.filter_sublist.map _) h

/-- In merged records the members of the second one come first. -/
theorem get?_merge {other : Record} (h : other.IsMap) (r : Record) (name : String) :
    (r.merge other).get? name = (other.get? name).or (r.get? name) := by
  induction other generalizing r with
  | nil => rfl
  | cons m rest ih =>
      obtain ⟨k, v⟩ := m
      obtain ⟨hk, hrest⟩ := List.nodup_cons.mp h
      have hmerge : (r.merge ((k, v) :: rest)).get? name =
          (get? rest name).or ((r.set k v).get? name) := ih hrest (r.set k v)
      rw [hmerge, get?_cons]
      by_cases hname : k = .text name
      · subst hname
        have hnone : get? rest name = none :=
          get?_eq_none fun n hn hkey => hk (List.mem_map.mpr ⟨n, hn, hkey⟩)
        rw [hnone, get?_set, if_pos rfl, if_pos rfl]
        rfl
      · rw [if_neg hname, get?_set_of_ne hname]

/-- Setting a member to the value that it has changes nothing. -/
theorem set_eq_self {r : Record} {name : String} {v : Value} (h : r.get? name = some v) :
    r.set name v = r := by
  induction r with
  | nil => simp [get?_nil] at h
  | cons m rest ih =>
      obtain ⟨k, w⟩ := m
      rw [get?_cons] at h
      by_cases hk : k = .text name
      · subst hk
        simp only [if_true, Option.some.injEq] at h
        simp [set, Key.same_text, h]
      · rw [if_neg hk] at h
        simp [set, Key.same_text, hk, ih h]

theorem firstOf_of_ne {r : Record} {name : String} (h : r.get name ≠ .null) (rest : List String)
    (default : Value) : r.firstOf (name :: rest) default = r.get name := by
  rw [firstOf]
  split
  · rename_i hnull
    exact absurd hnull h
  · rfl

/-- Of two names the first one counts unless its value is null. -/
theorem firstOf_pair (r : Record) (name other : String) (default : Value)
    (h : r.get other = .null) :
    r.firstOf [name, other] default = if (r.get name).isNull then default else r.get name := by
  cases hv : r.get name <;> simp [firstOf, hv, h, Value.isNull]

end Record
end ConditionalForms
