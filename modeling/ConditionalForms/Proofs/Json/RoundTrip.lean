import ConditionalForms.Proofs.Json.Number
import ConditionalForms.Proofs.Json.Text
import ConditionalForms.Proofs.Sequence
import ConditionalForms.Proofs.Value.Sorted

/-!
# Reading written values

A written value is read back with the members of its objects in the order they are written in.  The
readers stop in front of what may follow a value, and the fuel that they get suffices because every
level of nesting takes at least two characters.

**Definitions.**
* `Json.ReadsAs`: the characters are read as a value, whatever may follow a value.
* `Json.memberChars`, `Json.readBehind`: a written member, and how reading goes on behind it.
* `Json.encoded`: the characters of a value that has some.

**Results.**
* `Json.readsAs_encode`: the characters of a plain value are read as the sorted value.
* `Json.read_write`: the text of a plain value is read as the sorted value.
-/

namespace ConditionalForms
namespace Json

/-- Characters that no value starts with: blanks, what ends a list or an object, and the mark that a
text may not start with. -/
def nonStarts : List Char := [' ', '\t', '\n', '\r', ']', '\x7d', '\ufeff']

/-- The characters may be those of a value, by the first one of them. -/
def Starts (cs : List Char) : Prop := ∃ c more, cs = c :: more ∧ c ∉ nonStarts

theorem Starts.append {cs : List Char} (h : Starts cs) (rest : List Char) :
    Starts (cs ++ rest) := by
  obtain ⟨c, more, rfl, hc⟩ := h
  exact ⟨c, more ++ rest, rfl, hc⟩

theorem Starts.skipBlanks {cs : List Char} (h : Starts cs) : skipBlanks cs = cs := by
  obtain ⟨c, more, rfl, hc⟩ := h
  have hblank : isBlank c = false := by
    simp only [nonStarts, List.mem_cons, not_or] at hc
    simp [isBlank, hc]
  rw [Json.skipBlanks, List.dropWhile_cons_of_neg (by simp [hblank])]

theorem starts_separate {part : List Char} (h : Starts part) (parts : List (List Char)) :
    Starts (separate (part :: parts)) := by
  cases parts with
  | nil => exact h
  | cons other parts => exact h.append _

/-- The characters are read as a value, whatever may follow a value. -/
structure ReadsAs (cs : List Char) (v : Value) : Prop where
  starts : Starts cs
  read : ∀ fuel rest, cs.length < fuel → Ends rest → readValue fuel (cs ++ rest) = .ok (v, rest)

/-- What is read as a name or a number starts with neither a bracket nor a quote. -/
theorem start_of_readAtom {cs : List Char} {p : Value × List Char} (h : readAtom cs = .ok p) :
    ∃ c more, cs = c :: more ∧ c ∉ '"' :: '[' :: '\x7b' :: nonStarts := by
  cases cs with
  | nil => exact absurd (h.symm.trans rfl : Except.ok p = .error _) nofun
  | cons c more =>
      refine ⟨c, more, rfl, ?_⟩
      intro hc
      simp only [nonStarts, List.mem_cons, List.not_mem_nil, or_false] at hc
      rcases hc with rfl | rfl | rfl | rfl | rfl | rfl | rfl | rfl | rfl | rfl <;>
        exact absurd h (by
          simp [readAtom, names, behind?, readNumber, wholePart, spanDigits, Literal.isAsciiDigit])

theorem readsAs_of_readAtom {cs : List Char} {v : Value}
    (h : ∀ rest, Ends rest → readAtom (cs ++ rest) = .ok (v, rest)) : ReadsAs cs v := by
  have hatom := h [] ends_nil
  rw [List.append_nil] at hatom
  obtain ⟨c, more, rfl, hc⟩ := start_of_readAtom hatom
  simp only [List.mem_cons, not_or] at hc
  obtain ⟨hquote, hbracket, hbrace, hstart⟩ := hc
  refine ⟨⟨c, more, rfl, hstart⟩, ?_⟩
  intro fuel rest hfuel hrest
  obtain ⟨fuel, rfl⟩ := Nat.exists_eq_succ_of_ne_zero (Nat.ne_zero_of_lt hfuel)
  rw [← h rest hrest, List.cons_append]
  simp [readValue, hquote, hbracket, hbrace]

theorem readsAs_encodeText (s : String) : ReadsAs (encodeText s) (.text s) := by
  refine ⟨⟨'"', _, rfl, by decide⟩, ?_⟩
  intro fuel rest hfuel _
  obtain ⟨fuel, rfl⟩ := Nat.exists_eq_succ_of_ne_zero (Nat.ne_zero_of_lt hfuel)
  obtain ⟨more, htext, hread⟩ := readText_encodeText s rest
  simp [htext, readValue, hread, pure, Except.pure]

theorem ends_bracket (rest : List Char) : Ends (']' :: rest) := by
  rintro c ⟨⟩
  exact Or.inr (Or.inl rfl)

theorem ends_brace (rest : List Char) : Ends ('\x7d' :: rest) := by
  rintro c ⟨⟩
  exact Or.inr (Or.inr rfl)

theorem ends_comma (rest : List Char) : Ends (',' :: rest) := by
  rintro c ⟨⟩
  exact Or.inl rfl

theorem separate_cons_cons (p q : List Char) (parts : List (List Char)) :
    separate (p :: q :: parts) = p ++ ',' :: ' ' :: separate (q :: parts) := rfl

theorem length_separate_cons (p q : List Char) (parts : List (List Char)) :
    (separate (p :: q :: parts)).length = p.length + 2 + (separate (q :: parts)).length := by
  simp [separate]
  omega

section Parts

variable {f : Value → Value} {g : Value → List Char} (rest : List Char)

/-- The items of a list are read one by one. -/
theorem readItems_separate :
    ∀ (items : List Value) (fuel : Nat), items ≠ [] → (∀ v ∈ items, ReadsAs (g v) (f v)) →
      (separate (items.map g)).length + 1 < fuel →
      readItems fuel (separate (items.map g) ++ ']' :: rest) = .ok (items.map f, rest)
  | [v], fuel + 1, _, h, hfuel => by
      have hv : ReadsAs (g v) (f v) := h v List.mem_cons_self
      have hread := hv.read fuel (']' :: rest) (by simpa [separate] using hfuel) (ends_bracket rest)
      simp [separate, readItems, hread, skipBlanks, isBlank, pure, Except.pure]
  | v :: w :: items, fuel + 1, _, h, hfuel => by
      rw [List.map_cons, List.map_cons, length_separate_cons] at hfuel
      have hv : ReadsAs (g v) (f v) := h v List.mem_cons_self
      have ih := readItems_separate (w :: items) fuel (by simp)
        (fun x hx => h x (List.mem_cons_of_mem _ hx)) (by rw [List.map_cons]; omega)
      have hread := hv.read fuel (',' :: ' ' :: (separate (g w :: items.map g) ++ ']' :: rest))
        (by omega) (ends_comma _)
      have hstart := (starts_separate (h w (by simp)).starts (items.map g)).append (']' :: rest)
      have hcomma : skipBlanks (',' :: ' ' :: (separate (g w :: items.map g) ++ ']' :: rest)) =
          ',' :: ' ' :: (separate (g w :: items.map g) ++ ']' :: rest) := rfl
      have hspace : skipBlanks (' ' :: (separate (g w :: items.map g) ++ ']' :: rest)) =
          separate (g w :: items.map g) ++ ']' :: rest := hstart.skipBlanks
      rw [List.map_cons] at ih
      simp only [List.map_cons, separate, List.append_assoc, List.cons_append, readItems, hread,
        ok_bind_stop, hcomma, hspace, ih]
      rfl

/-- A member of an object, as it is written. -/
def memberChars (g : Value → List Char) (m : Key × Value) : List Char :=
  encodeText m.1.name ++ ':' :: ' ' :: g m.2

theorem starts_memberChars (g : Value → List Char) (m : Key × Value) :
    Starts (memberChars g m) :=
  (readsAs_encodeText m.1.name).starts.append _

theorem length_le_length_memberChars (g : Value → List Char) (m : Key × Value) :
    (g m.2).length ≤ (memberChars g m).length := by
  simp [memberChars]
  omega

/-- What is read behind the members that are done: the end of the object or more of them. -/
def readBehind (fuel : Nat) (done : Record) : List Char → Except Stop (Record × List Char)
  | '\x7d' :: left => .ok (done, left)
  | ',' :: next => readMembers fuel done (skipBlanks next)
  | other => .error (.problem .expectingComma other.length)

/-- A member is read and put behind the others, as none of them has its name. -/
theorem readMembers_member {fuel : Nat} {done : Record} {m : Key × Value} {behind : List Char}
    (h : ReadsAs (g m.2) (f m.2)) (hkey : m.1 = .text m.1.name)
    (hfuel : (memberChars g m).length < fuel) (hdone : ∀ d ∈ done, d.1 ≠ m.1)
    (hbehind : Ends behind) :
    readMembers (fuel + 1) done (memberChars g m ++ behind) =
      readBehind fuel (done ++ [(m.1, f m.2)]) (skipBlanks behind) := by
  have hlength := length_le_length_memberChars g m
  rw [hkey] at hdone
  obtain ⟨more, hchars, hname⟩ := readText_encodeText m.1.name (':' :: ' ' :: (g m.2 ++ behind))
  have hcolon : skipBlanks (':' :: ' ' :: (g m.2 ++ behind)) =
      ':' :: ' ' :: (g m.2 ++ behind) := rfl
  have hspace : skipBlanks (' ' :: (g m.2 ++ behind)) = g m.2 ++ behind :=
    (h.starts.append _).skipBlanks
  have hread := h.read fuel behind (by omega) hbehind
  rw [memberChars, List.append_assoc, List.cons_append, List.cons_append, hchars, readMembers]
  simp only [hname, ok_bind_stop, hcolon, hspace, hread, Record.set_of_forall_ne hdone]
  rw [← hkey]
  rfl

/-- The members of an object are read one by one. -/
theorem readMembers_separate :
    ∀ (members : Record) (fuel : Nat) (done : Record), members ≠ [] →
      (∀ m ∈ members, m.1 = .text m.1.name ∧ ReadsAs (g m.2) (f m.2)) →
      ((done ++ members).map Prod.fst).Nodup →
      (separate (members.map (memberChars g))).length + 1 < fuel →
      readMembers fuel done (separate (members.map (memberChars g)) ++ '\x7d' :: rest) =
        .ok (done ++ members.mapValues f, rest)
  | m :: members, fuel + 1, done, _, h, hnodup, hfuel => by
      obtain ⟨hkey, hm⟩ := h m List.mem_cons_self
      -- no member before has this name, so that it is put behind them and replaces none
      have hdone : ∀ d ∈ done, d.1 ≠ m.1 := by
        intro d hd
        rw [List.map_append, List.nodup_append] at hnodup
        exact hnodup.2.2 d.1 (List.mem_map_of_mem hd) m.1 (by simp)
      cases members with
      | nil =>
          rw [List.map_cons, List.map_nil, separate] at hfuel ⊢
          exact readMembers_member hm hkey (by omega) hdone (ends_brace rest)
      | cons n members =>
          rw [List.map_cons, List.map_cons, length_separate_cons, ← List.map_cons] at hfuel
          have ih := readMembers_separate (n :: members) fuel (done ++ [(m.1, f m.2)])
            (by simp) (fun x hx => h x (List.mem_cons_of_mem _ hx)) (by simpa using hnodup)
            (by omega)
          have hnext := (starts_separate (starts_memberChars g n)
            (members.map (memberChars g))).append ('\x7d' :: rest)
          rw [List.append_assoc] at ih
          rw [List.map_cons, List.map_cons, separate_cons_cons, List.append_assoc, List.cons_append,
            List.cons_append, readMembers_member hm hkey (by omega) hdone (ends_comma _)]
          refine Eq.trans ?_ ih
          exact congrArg (readMembers fuel _) hnext.skipBlanks

end Parts

/-- The characters of a value, none if it has no text. -/
def encoded (v : Value) : List Char := (encode v).toOption.getD []

theorem encoded_eq {v : Value} {cs : List Char} (h : encode v = .ok cs) : encoded v = cs := by
  rw [encoded, h]
  rfl

theorem encodeItems_eq_ok :
    ∀ {items : List Value} {parts : List (List Char)}, encodeItems items = .ok parts →
      parts = items.map encoded ∧ ∀ v ∈ items, encode v = .ok (encoded v)
  | [], parts, h => by
      rw [encodeItems, Except.ok.injEq] at h
      simp [← h]
  | v :: items, parts, h => by
      simp only [encodeItems, bind_eq_ok, pure_eq_ok] at h
      obtain ⟨cs, hcs, rest, hrest, rfl⟩ := h
      obtain ⟨rfl, hall⟩ := encodeItems_eq_ok hrest
      rw [List.map_cons, encoded_eq hcs]
      exact ⟨rfl, List.forall_mem_cons.mpr ⟨by rw [encoded_eq hcs, hcs], hall⟩⟩

theorem encodeMembers_eq_ok :
    ∀ {members : Record} {parts : List (String × List Char)},
      (∀ m ∈ members, m.1 = .text m.1.name) → encodeMembers members = .ok parts →
      parts = members.map (fun m => (m.1.name, encoded m.2)) ∧
        ∀ m ∈ members, encode m.2 = .ok (encoded m.2)
  | [], parts, _, h => by
      rw [encodeMembers, Except.ok.injEq] at h
      simp [← h]
  | m :: members, parts, hnames, h => by
      obtain ⟨hkey, hnames⟩ := List.forall_mem_cons.mp hnames
      simp only [encodeMembers, bind_eq_ok, pure_eq_ok] at h
      obtain ⟨name, hname, cs, hcs, rest, hrest, rfl⟩ := h
      obtain ⟨rfl, hall⟩ := encodeMembers_eq_ok hnames hrest
      rw [hkey, nameOfKey, Except.ok.injEq] at hname
      rw [List.map_cons, encoded_eq hcs, hname]
      exact ⟨rfl, List.forall_mem_cons.mpr ⟨by rw [encoded_eq hcs, hcs], hall⟩⟩

/-- Written members are sorted as the members are. -/
theorem sortMembers_map (members : Record) :
    sortMembers (members.map fun m => (m.1.name, encoded m.2)) =
      members.ascending.map fun m => (m.1.name, encoded m.2) := by
  have hmap := List.map_mergeSort (r := fun m n : Key × Value => decide (m.1.name ≤ n.1.name))
    (s := fun m n : String × List Char => decide (m.1 ≤ n.1))
    (f := fun m : Key × Value => (m.1.name, encoded m.2)) (l := members) fun _ _ _ _ => rfl
  exact hmap.symm

theorem readsAs_list {items : List Value} (h : ∀ v ∈ items, ReadsAs (encoded v) v.sorted) :
    ReadsAs ('[' :: separate (items.map encoded) ++ [']']) (.list (items.map Value.sorted)) := by
  refine ⟨⟨'[', _, rfl, by decide⟩, ?_⟩
  intro fuel rest hfuel _
  obtain ⟨fuel, rfl⟩ := Nat.exists_eq_succ_of_ne_zero (Nat.ne_zero_of_lt hfuel)
  rw [List.append_assoc, List.cons_append, List.singleton_append]
  cases items with
  | nil => rfl
  | cons v items =>
      have hstarts := (starts_separate (h v List.mem_cons_self).starts (items.map encoded)).append
        (']' :: rest)
      have hread := readItems_separate rest (v :: items) fuel (by simp) h (by simpa using hfuel)
      have hskip := hstarts.skipBlanks
      obtain ⟨c, more, hcons, hc⟩ := hstarts
      have hbracket : c ≠ ']' := fun e => hc (by simp [nonStarts, e])
      rw [← List.map_cons] at hcons hskip
      rw [hcons] at hread hskip ⊢
      simp [readValue, hskip, hbracket, hread, pure, Except.pure]

theorem readsAs_object {members : Record} (hnames : members.HasNames)
    (h : ∀ m ∈ members, ReadsAs (encoded m.2) m.2.sorted) :
    ReadsAs ('\x7b' :: separate (members.map (memberChars encoded)) ++ ['\x7d'])
      (.object (members.mapValues Value.sorted)) := by
  refine ⟨⟨'\x7b', _, rfl, by decide⟩, ?_⟩
  intro fuel rest hfuel _
  obtain ⟨fuel, rfl⟩ := Nat.exists_eq_succ_of_ne_zero (Nat.ne_zero_of_lt hfuel)
  rw [List.append_assoc, List.cons_append, List.singleton_append]
  cases members with
  | nil => rfl
  | cons m members =>
      have hstarts := (starts_separate (starts_memberChars encoded m)
        (members.map (memberChars encoded))).append ('\x7d' :: rest)
      have hread := readMembers_separate rest (m :: members) fuel [] (by simp)
        (fun n hn => ⟨hnames.names n hn, h n hn⟩) hnames.nodup (by simpa using hfuel)
      have hskip := hstarts.skipBlanks
      obtain ⟨c, more, hcons, hc⟩ := hstarts
      have hbrace : c ≠ '\x7d' := fun e => hc (by simp [nonStarts, e])
      rw [← List.map_cons] at hcons hskip
      rw [hcons] at hread hskip ⊢
      simp [readValue, hskip, hbrace, hread, pure, Except.pure]

/-- The characters of a plain value are read as the sorted value. -/
theorem readsAs_encode {v : Value} (h : v.IsPlain) :
    ∀ {cs : List Char}, encode v = .ok cs → ReadsAs cs v.sorted := by
  induction h with
  | null =>
      rintro cs ⟨⟩
      exact readsAs_of_readAtom fun _ _ => rfl
  | bool b =>
      rintro cs ⟨⟩
      cases b <;> exact readsAs_of_readAtom fun _ _ => rfl
  | int n =>
      intro cs h
      simp only [encode, bind_eq_ok, pure_eq_ok] at h
      obtain ⟨t, ht, rfl⟩ := h
      exact readsAs_of_readAtom fun _ hrest => readAtom_write ht hrest
  | float x =>
      rintro cs ⟨⟩
      exact readsAs_of_readAtom fun _ hrest => readAtom_write_double x hrest
  | text s =>
      rintro cs ⟨⟩
      exact readsAs_encodeText s
  | @list items _ ih =>
      intro cs h
      simp only [encode, bind_eq_ok, pure_eq_ok] at h
      obtain ⟨parts, hparts, rfl⟩ := h
      obtain ⟨rfl, hall⟩ := encodeItems_eq_ok hparts
      rw [Value.sorted, Value.sortedItems_eq_map]
      exact readsAs_list fun v hv => ih v hv (hall v hv)
  | @object members hnames _ ih =>
      intro cs h
      simp only [encode, bind_eq_ok, pure_eq_ok] at h
      obtain ⟨parts, hparts, rfl⟩ := h
      obtain ⟨rfl, hall⟩ := encodeMembers_eq_ok hnames.names hparts
      -- the members are sorted as they are written, before or after their values are
      have hascending := Record.ascending_perm members
      rw [sortMembers_map, List.map_map, Value.sorted_object, Record.sorted,
        Record.ascending_mapValues]
      refine readsAs_object (hnames.of_perm hascending.symm) fun m hm => ?_
      have hmem := hascending.mem_iff.mp hm
      exact ih m hmem (hall m hmem)

/-- The text of a plain value is read as the sorted value. -/
theorem read_write {v : Value} {t : String} (h : v.IsPlain) (ht : write v = .ok t) :
    read t = .ok v.sorted := by
  simp only [write, bind_eq_ok, pure_eq_ok] at ht
  obtain ⟨cs, hcs, rfl⟩ := ht
  have hreads := readsAs_encode h hcs
  obtain ⟨c, more, hcons, hc⟩ := hreads.starts
  have hmark : cs.head? ≠ some '\ufeff' := by
    rw [hcons, List.head?_cons, ne_eq, Option.some.injEq]
    exact fun e => hc (by simp [nonStarts, e])
  have hread := hreads.read (2 * cs.length + 2) [] (by omega) ends_nil
  rw [List.append_nil] at hread
  have hall : readAll cs = .ok v.sorted := by
    rw [readAll, if_neg hmark, hreads.starts.skipBlanks, hread]
    rfl
  rw [read, String.toList_ofList, hall]

end Json
end ConditionalForms
