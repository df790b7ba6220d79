import ConditionalForms.Proofs.Json.RoundTrip

/-!
# One text for every value

A value whose integers are not too long has a text, and the text says all of it but the order in
which the members of its objects were set.  So it is read back with the same members under the same
names, and two values have the same text exactly if they differ in that order only.

**Definitions.**
* `Value.Rearranged`: the second value is the first one with members of objects in another order.
* `Value.IsWritable`: a plain value whose integers are not too long.

**Results.**
* `Value.rearranged_sorted`: sorting the members of objects only rearranges them.
* `Json.encode_eq_encoded`: a writable value has a text.
* `Json.encoded_eq_of_rearranged`: rearranging members does not change the text.
* `Json.text_iff_rearranged`: the text of a value is read as the value, and it is the text of
  exactly the values that are rearrangements of it.
-/

namespace ConditionalForms

theorem Record.HasNames.of_keys {r r' : Record} (h : r.HasNames)
    (hkeys : r'.map Prod.fst = r.map Prod.fst) : r'.HasNames where
  names m hm := by
    have hkey : m.1 ∈ r.map Prod.fst := hkeys ▸ List.mem_map_of_mem hm
    obtain ⟨n, hn, hname⟩ := List.mem_map.mp hkey
    rw [← hname]
    exact h.names n hn
  nodup := hkeys ▸ h.nodup

/-- The ascending order of members with different names does not depend on their order. -/
theorem Record.ascending_eq_of_perm {r r' : Record} (h : r.HasNames) (hperm : r.Perm r') :
    r.ascending = r'.ascending := by
  have hsorted : ∀ q : Record, q.ascending.Pairwise fun m n => decide (m.1.name ≤ n.1.name) := by
    intro q
    refine List.pairwise_mergeSort ?_ ?_ q
    · intro a b c hab hbc
      simp only [decide_eq_true_eq] at hab hbc ⊢
      exact String.le_trans hab hbc
    · intro a b
      simpa using String.le_total a.1.name b.1.name
  refine List.Perm.eq_of_pairwise ?_ (hsorted r) (hsorted r')
    ((ascending_perm r).trans (hperm.trans (ascending_perm r').symm))
  intro m n hm hn hmn hnm
  have hm : m ∈ r := (ascending_perm r).mem_iff.mp hm
  have hn : n ∈ r := hperm.mem_iff.mpr ((ascending_perm r').mem_iff.mp hn)
  have hname : m.1.name = n.1.name := by
    simp only [decide_eq_true_eq] at hmn hnm
    exact String.le_antisymm hmn hnm
  refine List.inj_on_of_nodup_map h.nodup hm hn ?_
  rw [h.names m hm, h.names n hn, hname]

namespace Value

/-- The second value is the first one with the members of some objects in another order. -/
inductive Rearranged : Value → Value → Prop
  | refl (v : Value) : Rearranged v v
  | trans {u v w : Value} (first : Rearranged u v) (second : Rearranged v w) : Rearranged u w
  | members {r r' : Record} (h : r.Perm r') : Rearranged (.object r) (.object r')
  | item (before after : List Value) {v w : Value} (h : Rearranged v w) :
      Rearranged (.list (before ++ v :: after)) (.list (before ++ w :: after))
  | member (before after : Record) (key : Key) {v w : Value} (h : Rearranged v w) :
      Rearranged (.object (before ++ (key, v) :: after)) (.object (before ++ (key, w) :: after))

theorem Rearranged.symm {v w : Value} (h : Rearranged v w) : Rearranged w v := by
  induction h with
  | refl v => exact .refl v
  | trans _ _ ih₁ ih₂ => exact ih₂.trans ih₁
  | members h => exact .members h.symm
  | item before after _ ih => exact .item before after ih
  | member before after key _ ih => exact .member before after key ih

/-- The items of a list are rearranged one by one. -/
theorem rearranged_list {f : Value → Value} {items : List Value}
    (h : ∀ v ∈ items, Rearranged v (f v)) :
    ∀ before, Rearranged (.list (before ++ items)) (.list (before ++ items.map f)) := by
  induction items with
  | nil => exact fun _ => .refl _
  | cons v items ih =>
      intro before
      obtain ⟨hv, hitems⟩ := List.forall_mem_cons.mp h
      have hrest := ih hitems (before ++ [f v])
      rw [List.append_assoc, List.append_assoc] at hrest
      exact (Rearranged.item before items hv).trans hrest

/-- The values under the keys of an object are rearranged one by one. -/
theorem rearranged_object {f : Value → Value} {r : Record}
    (h : ∀ m ∈ r, Rearranged m.2 (f m.2)) :
    ∀ before, Rearranged (.object (before ++ r)) (.object (before ++ r.mapValues f)) := by
  induction r with
  | nil => exact fun _ => .refl _
  | cons m r ih =>
      intro before
      obtain ⟨hm, hr⟩ := List.forall_mem_cons.mp h
      have hrest := ih hr (before ++ [(m.1, f m.2)])
      rw [List.append_assoc, List.append_assoc] at hrest
      exact (Rearranged.member before r m.1 hm).trans hrest

/-- Sorting the members of objects only rearranges them. -/
theorem rearranged_sorted {v : Value} (h : v.IsPlain) : Rearranged v v.sorted := by
  induction h with
  | null => exact .refl _
  | bool b => exact .refl _
  | int n => exact .refl _
  | float x => exact .refl _
  | text s => exact .refl _
  | list _ ih =>
      rw [sorted, sortedItems_eq_map]
      exact rearranged_list ih []
  | object _ _ ih =>
      rw [sorted_object, Record.sorted]
      exact (rearranged_object ih []).trans (.members (Record.ascending_perm _).symm)

/-- A value of texts, numbers, lists and objects whose keys are different names.  Its integers have
no more digits than may be written. -/
inductive IsWritable : Value → Prop
  | null : IsWritable .null
  | bool (b : Bool) : IsWritable (.bool b)
  | int {n : Int} (h : (Nat.toDigits 10 n.natAbs).length ≤ Integer.digitLimit) :
      IsWritable (.int n)
  | float (x : Double) : IsWritable (.float x)
  | text (s : String) : IsWritable (.text s)
  | list {items : List Value} (h : ∀ v ∈ items, IsWritable v) : IsWritable (.list items)
  | object {r : Record} (hnames : r.HasNames) (h : ∀ m ∈ r, IsWritable m.2) :
      IsWritable (.object r)

theorem IsWritable.isPlain {v : Value} (h : v.IsWritable) : v.IsPlain := by
  induction h with
  | null => exact .null
  | bool b => exact .bool b
  | int _ => exact .int _
  | float x => exact .float x
  | text s => exact .text s
  | list _ ih => exact .list ih
  | object hnames _ ih => exact .object hnames ih

end Value

namespace Json

open Value (Rearranged IsWritable)

theorem encodeItems_of_forall {items : List Value}
    (h : ∀ v ∈ items, encode v = .ok (encoded v)) :
    encodeItems items = .ok (items.map encoded) := by
  induction items with
  | nil => rfl
  | cons v items ih =>
      obtain ⟨hv, hitems⟩ := List.forall_mem_cons.mp h
      rw [encodeItems, hv, ih hitems]
      rfl

theorem encodeMembers_of_forall {r : Record} (hnames : ∀ m ∈ r, m.1 = .text m.1.name)
    (h : ∀ m ∈ r, encode m.2 = .ok (encoded m.2)) :
    encodeMembers r = .ok (r.map fun m => (m.1.name, encoded m.2)) := by
  induction r with
  | nil => rfl
  | cons m r ih =>
      obtain ⟨hm, hr⟩ := List.forall_mem_cons.mp h
      obtain ⟨hkey, hkeys⟩ := List.forall_mem_cons.mp hnames
      have hname : nameOfKey m.1 = .ok m.1.name := by
        rw [hkey]
        rfl
      rw [encodeMembers, hname, hm, ih hkeys hr]
      rfl

/-- The text of an object, from the names of its members and the texts of their values. -/
def objectChars (members : List (String × List Char)) : List Char :=
  '\x7b' :: separate ((sortMembers members).map fun m => encodeText m.1 ++ ':' :: ' ' :: m.2) ++
    ['\x7d']

theorem encode_list {items : List Value} (h : ∀ v ∈ items, encode v = .ok (encoded v)) :
    encode (.list items) = .ok ('[' :: separate (items.map encoded) ++ [']']) := by
  rw [encode, encodeItems_of_forall h]
  rfl

theorem encode_object {r : Record} (hnames : r.HasNames)
    (h : ∀ m ∈ r, encode m.2 = .ok (encoded m.2)) :
    encode (.object r) = .ok (objectChars (r.map fun m => (m.1.name, encoded m.2))) := by
  rw [encode, encodeMembers_of_forall hnames.names h]
  rfl

/-- A writable value has a text. -/
theorem encode_eq_encoded {v : Value} (h : v.IsWritable) : encode v = .ok (encoded v) := by
  have hencoded : ∀ {v cs}, encode v = .ok cs → encode v = .ok (encoded v) := by
    intro v cs hcs
    rw [hcs, encoded_eq hcs]
  induction h with
  | null => rfl
  | bool b => rfl
  | @int n h =>
      obtain ⟨s, hs⟩ := (Integer.write_eq_ok_iff n).mpr h
      have htext : encode (.int n) = .ok s.toList := by
        rw [encode, hs]
        rfl
      exact hencoded htext
  | float x => rfl
  | text s => rfl
  | list _ ih => exact hencoded (encode_list ih)
  | object hnames _ ih => exact hencoded (encode_object hnames ih)

theorem encoded_list {items : List Value} (h : ∀ v ∈ items, v.IsWritable) :
    encoded (.list items) = '[' :: separate (items.map encoded) ++ [']'] :=
  encoded_eq (encode_list fun v hv => encode_eq_encoded (h v hv))

theorem encoded_object {r : Record} (hnames : r.HasNames) (h : ∀ m ∈ r, m.2.IsWritable) :
    encoded (.object r) = objectChars (r.map fun m => (m.1.name, encoded m.2)) :=
  encoded_eq (encode_object hnames fun m hm => encode_eq_encoded (h m hm))

theorem forall_mem_of_replaced {α : Type} {P : α → Prop} {before after : List α} {a b : α}
    (h : ∀ x ∈ before ++ a :: after, P x) (hb : P b) : ∀ x ∈ before ++ b :: after, P x := by
  rw [List.forall_mem_append, List.forall_mem_cons] at h ⊢
  exact ⟨h.1, hb, h.2.2⟩

/-- A rearranged value is as writable as the value, and has the same text. -/
theorem encoded_eq_of_rearranged {v w : Value} (h : Rearranged v w) :
    v.IsWritable → w.IsWritable ∧ encoded w = encoded v := by
  induction h with
  | refl v => exact fun hv => ⟨hv, rfl⟩
  | trans _ _ ih₁ ih₂ =>
      intro hu
      obtain ⟨hv, hfirst⟩ := ih₁ hu
      obtain ⟨hw, hsecond⟩ := ih₂ hv
      exact ⟨hw, hsecond.trans hfirst⟩
  | @members r r' hperm =>
      rintro (_ | _ | _ | _ | _ | _ | ⟨hnames, h⟩)
      have hnames' := hnames.of_perm hperm
      have h' : ∀ m ∈ r', m.2.IsWritable := fun m hm => h m (hperm.mem_iff.mpr hm)
      refine ⟨.object hnames' h', ?_⟩
      rw [encoded_object hnames h, encoded_object hnames' h', objectChars, objectChars,
        sortMembers_map, sortMembers_map, Record.ascending_eq_of_perm hnames hperm]
  | @item before after v w _ ih =>
      rintro (_ | _ | _ | _ | _ | h | _)
      obtain ⟨hw, heq⟩ := ih (h v (by simp))
      have h' := forall_mem_of_replaced h hw
      refine ⟨.list h', ?_⟩
      rw [encoded_list h, encoded_list h']
      simp [heq]
  | @member before after key v w _ ih =>
      rintro (_ | _ | _ | _ | _ | _ | ⟨hnames, h⟩)
      obtain ⟨hw, heq⟩ := ih (h (key, v) (by simp))
      have hnames' : Record.HasNames (before ++ (key, w) :: after) := hnames.of_keys (by simp)
      have h' : ∀ m ∈ before ++ (key, w) :: after, m.2.IsWritable := forall_mem_of_replaced h hw
      refine ⟨.object hnames' h', ?_⟩
      rw [encoded_object hnames h, encoded_object hnames' h']
      simp [heq]

/-- A writable value has a text, and the text is read as the value with the members of its objects
in some order.  The same text belongs to exactly the values that differ from it in this order. -/
theorem text_iff_rearranged {v : Value} (h : v.IsWritable) :
    ∃ t, write v = .ok t ∧ (∃ w, read t = .ok w ∧ Rearranged v w) ∧
      ∀ w : Value, Rearranged v w ↔ w.IsWritable ∧ write w = .ok t := by
  have hwrite : ∀ {w : Value}, w.IsWritable → write w = .ok (String.ofList (encoded w)) := by
    intro w hw
    rw [write, encode_eq_encoded hw]
    rfl
  have hread : read (String.ofList (encoded v)) = .ok v.sorted := read_write h.isPlain (hwrite h)
  refine ⟨_, hwrite h, ⟨_, hread, Value.rearranged_sorted h.isPlain⟩, ?_⟩
  intro w
  constructor
  · intro hvw
    obtain ⟨hw, heq⟩ := encoded_eq_of_rearranged hvw h
    exact ⟨hw, heq ▸ hwrite hw⟩
  · rintro ⟨hw, htext⟩
    -- both are read from the one text
    have hsorted : v.sorted = w.sorted := by
      have hagain := read_write hw.isPlain htext
      rw [hread] at hagain
      exact Except.ok.inj hagain
    have hback := (Value.rearranged_sorted hw.isPlain).symm
    rw [← hsorted] at hback
    exact (Value.rearranged_sorted h.isPlain).trans hback

/-- The members of a note on who comes. -/
def noteMembers : Record :=
  [("who", .text "Zoë 😀"), ("seats", .list [.int (-2), .bool true, .null]),
   ("from", .object [("town", .text "Leeds"), ("at", .text "8\n")])]

theorem isWritable_note : Value.IsWritable (.object noteMembers) := by
  have htown : Value.IsWritable (.object [("town", .text "Leeds"), ("at", .text "8\n")]) := by
    refine .object (Record.hasNames_of_keys ["town", "at"] rfl (by decide)) ?_
    simp [IsWritable.text]
  have hseats : Value.IsWritable (.list [.int (-2), .bool true, .null]) := by
    have hint : IsWritable (.int (-2)) := .int (by decide)
    refine .list ?_
    simp [hint, IsWritable.bool, IsWritable.null]
  refine .object (Record.hasNames_of_keys ["who", "seats", "from"] rfl (by decide)) ?_
  simp [noteMembers, IsWritable.text, htown, hseats]

/-- The note has one text, in whatever order its members were set. -/
theorem text_of_note :
    Value.IsWritable (.object noteMembers) ∧
      ∃ t, write (.object noteMembers) = .ok t ∧ write (.object noteMembers.reverse) = .ok t ∧
        ∃ w, read t = .ok w ∧ Rearranged (.object noteMembers) w := by
  obtain ⟨t, ht, hread, hsame⟩ := text_iff_rearranged isWritable_note
  have hreverse : Rearranged (.object noteMembers) (.object noteMembers.reverse) :=
    .members (List.reverse_perm noteMembers).symm
  exact ⟨isWritable_note, t, ht, ((hsame _).mp hreverse).2, hread⟩

end Json
end ConditionalForms
