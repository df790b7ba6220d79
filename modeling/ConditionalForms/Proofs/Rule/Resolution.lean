import ConditionalForms.Proofs.Number.Numeral
import ConditionalForms.Proofs.Rule.Reference

/-!
# Where a path leads

A path is followed segment by segment: into a member of an object, or to the item of a list whose
place the segment writes.  From a segment that cannot be followed the path leads to null.

There is one exception.  At a list, any numeral is taken for the place of an item and read as one.
Superscripts and other digits that are not decimal make a numeral but write no place, and neither
does a numeral that is too long to be read.  The walk ends at such a segment with a fault.

**Definitions.**
* `Path.StepsTo`: from a value to the one under a key.
* `Path.Reaches`: where the segments lead.
* `Path.StuckAt`, `Path.Stuck`: a numeral that is not read meets a list, now or on the way.
* `Path.Starts`: the value that a path starts from and the segments that are left.

**Results.**
* `Path.contract_walk`: a walk reaches its end or gets stuck.
* `Path.resolve_exact`: the value at a path is where it leads, and there is none exactly if it gets
  stuck.
* `Path.exists_resolve`: a path all of whose numerals are read gets stuck nowhere.
-/

namespace ConditionalForms
namespace Path

/-- From a value to the member under a key, or to the item whose place the key writes. -/
inductive StepsTo : Value → String → Value → Prop where
  | member {members : Record} {key : String} {w : Value} (found : members.get? key = some w) :
      StepsTo (.object members) key w
  | item {items : List Value} {key : String} {i : Nat} {w : Value} (place : Text.Denotes key i)
      (found : items[i]? = some w) : StepsTo (.list items) key w

/-- Where segments lead: to null as soon as one of them cannot be followed. -/
inductive Reaches : Value → List String → Value → Prop where
  | here (v : Value) : Reaches v [] v
  | step {v w u : Value} {key : String} {rest : List String} (first : StepsTo v key w)
      (later : Reaches w rest u) : Reaches v (key :: rest) u
  | lost {v : Value} {key : String} {rest : List String} (nowhere : ∀ w, ¬ StepsTo v key w) :
      Reaches v (key :: rest) .null

/-- A numeral that is not read meets a list. -/
inductive StuckAt : Value → String → Fault → Prop where
  | numeral {items : List Value} {key : String} {e : Fault} (unread : Integer.Unreadable key e) :
      StuckAt (.list items) key e

/-- A numeral that is not read meets a list on the way. -/
inductive Stuck : Value → List String → Fault → Prop where
  | here {v : Value} {key : String} {rest : List String} {e : Fault} (first : StuckAt v key e) :
      Stuck v (key :: rest) e
  | later {v w : Value} {key : String} {rest : List String} {e : Fault}
      (free : ∀ e, ¬ StuckAt v key e) (first : StepsTo v key w) (later : Stuck w rest e) :
      Stuck v (key :: rest) e

/-- What a path starts from, and the segments that are left: a root behind its name, an answer that
the whole path names, or else the answers. -/
inductive Starts (path : String) (ctx : Context) : Value → List String → Prop where
  | nowhere (empty : path = "") : Starts path ctx .null []
  | root {first : String} {rest : List String} {r : Root} (nonempty : path ≠ "")
      (parts : segments path = first :: rest) (named : Root.ofName? first = some r) :
      Starts path ctx (ctx.atRoot r) rest
  | answer {v : Value} (nonempty : path ≠ "") (unrooted : root? path = none)
      (whole : ctx.answers.get? path = some v) : Starts path ctx v []
  | answers (nonempty : path ≠ "") (unrooted : root? path = none)
      (none_whole : ctx.answers.get? path = none) :
      Starts path ctx (.object ctx.answers) (segments path)

variable {v w u : Value} {key path : String} {rest : List String} {e f : Fault} {ctx : Context}

theorem StepsTo.unique (hw : StepsTo v key w) (hu : StepsTo v key u) : w = u := by
  cases hw with
  | member found => cases hu with
    | member found' => exact Option.some.inj (found.symm.trans found')
  | item place found => cases hu with
    | item place' found' =>
        obtain rfl := place.unique place'
        exact Option.some.inj (found.symm.trans found')

theorem Reaches.unique (hw : Reaches v rest w) (hu : Reaches v rest u) : w = u := by
  induction hw with
  | here v =>
      cases hu
      rfl
  | step first _ ih => cases hu with
    | step first' later' =>
        obtain rfl := first.unique first'
        exact ih later'
    | lost nowhere => exact absurd first (nowhere _)
  | lost nowhere => cases hu with
    | step first _ => exact absurd first (nowhere _)
    | lost _ => rfl

theorem StuckAt.unique (he : StuckAt v key e) (hf : StuckAt v key f) : e = f := by
  obtain ⟨he⟩ := he
  obtain ⟨hf⟩ := hf
  exact he.unique hf

theorem Stuck.unique (he : Stuck v rest e) (hf : Stuck v rest f) : e = f := by
  induction he with
  | here first => cases hf with
    | here first' => exact first.unique first'
    | later free _ _ => exact absurd first (free _)
  | later free first _ ih => cases hf with
    | here first' => exact absurd first' (free _)
    | later _ first' later' =>
        obtain rfl := first.unique first'
        exact ih later'

/-- One step into a list goes to the item at the place that the key writes. -/
theorem contract_descend_list (items : List Value) (key : String) :
    Contract (StuckAt (.list items) key)
      (fun w => (StepsTo (.list items) key w ∨ (w = .null ∧ ∀ u, ¬ StepsTo (.list items) key u)) ∧
        ∀ e, ¬ StuckAt (.list items) key e)
      (descend (.list items) key) := by
  rw [descend]
  split
  case isFalse hnumeral =>
    refine ⟨Or.inr ⟨rfl, ?_⟩, ?_⟩
    · rintro u (_ | ⟨place, _⟩)
      exact hnumeral place.isNumeral
    · rintro e ⟨unread⟩
      exact hnumeral unread.isNumeral
  case isTrue hnumeral =>
    refine ((Integer.contract_readNumeral hnumeral).mono fun _ he => .numeral he).bind ?_
    rintro n ⟨⟨i, rfl, hplace⟩, hfree⟩
    refine .pure ⟨?_, ?_⟩
    · rw [Int.toNat_natCast]
      cases hfound : items[i]? with
      | some w => exact Or.inl (.item hplace hfound)
      | none =>
          refine Or.inr ⟨rfl, ?_⟩
          rintro u (_ | ⟨place, found⟩)
          rw [← hplace.unique place, hfound] at found
          simp at found
    · rintro e ⟨unread⟩
      exact hfree e unread

/-- One step goes where the key leads, to null if it leads nowhere, or is stuck. -/
theorem contract_descend (v : Value) (key : String) :
    Contract (StuckAt v key)
      (fun w => (StepsTo v key w ∨ (w = .null ∧ ∀ u, ¬ StepsTo v key u)) ∧ ∀ e, ¬ StuckAt v key e)
      (descend v key) := by
  have free (hlist : ∀ items, v ≠ .list items) (e : Fault) : ¬ StuckAt v key e := by
    rintro ⟨_⟩
    exact hlist _ rfl
  cases v with
  | list items => exact contract_descend_list items key
  | object members =>
      refine ⟨?_, free (by simp)⟩
      rw [Record.get]
      cases hfound : Record.get? members key with
      | some w => exact Or.inl (.member hfound)
      | none =>
          refine Or.inr ⟨rfl, ?_⟩
          rintro u ⟨found⟩
          simp [hfound] at found
  | _ =>
      refine ⟨Or.inr ⟨rfl, ?_⟩, free (by simp)⟩
      rintro u ⟨⟩

theorem walk_cons (v : Value) (key : String) (rest : List String) :
    walk v (key :: rest) = (do walk (← descend v key) rest) := by
  cases v with
  | null => cases rest <;> rfl
  | _ => rfl

/-- A walk reaches where the segments lead, unless it gets stuck. -/
theorem contract_walk (v : Value) (rest : List String) :
    Contract (Stuck v rest) (fun w => Reaches v rest w ∧ ∀ e, ¬ Stuck v rest e) (walk v rest) := by
  induction rest generalizing v with
  | nil => exact ⟨.here v, nofun⟩
  | cons key rest ih =>
      rw [walk_cons]
      refine ((contract_descend v key).mono fun _ => .here).bind ?_
      rintro w ⟨first | ⟨rfl, nowhere⟩, hfree⟩
      · refine ((ih w).mono fun _ => .later hfree first).imp ?_
        rintro u ⟨later, hnot⟩
        refine ⟨.step first later, ?_⟩
        rintro e (stuck | ⟨_, first', stuck⟩)
        · exact hfree e stuck
        · obtain rfl := first.unique first'
          exact hnot e stuck
      · -- nothing is below null, whatever segments are left
        have hnull : walk .null rest = .ok .null := by cases rest <;> rfl
        rw [hnull]
        refine ⟨.lost nowhere, ?_⟩
        rintro e (stuck | ⟨_, first, _⟩)
        · exact hfree e stuck
        · exact nowhere _ first

theorem exists_starts (path : String) (ctx : Context) : ∃ v rest, Starts path ctx v rest := by
  by_cases hne : path = ""
  · exact ⟨_, _, .nowhere hne⟩
  cases hroot : root? path with
  | some r =>
      obtain ⟨first, rest, hparts⟩ := exists_segments_eq path
      rw [root?, hparts, List.head?_cons, Option.bind_some] at hroot
      exact ⟨_, _, .root hne hparts hroot⟩
  | none => cases hwhole : ctx.answers.get? path with
    | some v => exact ⟨_, _, .answer hne hroot hwhole⟩
    | none => exact ⟨_, _, .answers hne hroot hwhole⟩

theorem Starts.resolve_eq (h : Starts path ctx v rest) : resolve path ctx = walk v rest := by
  rw [resolve]
  cases h with
  | nowhere empty => rw [if_pos empty, walk]
  | root nonempty parts named =>
      rw [if_neg nonempty, parts]
      simp only [named]
  | _ nonempty unrooted whole =>
      obtain ⟨first, rest, hparts⟩ := exists_segments_eq path
      rw [root?, hparts, List.head?_cons, Option.bind_some] at unrooted
      rw [if_neg nonempty, hparts]
      simp only [unrooted, whole, walk]

/-- The value at a path is where the path leads.  There is one unless the path gets stuck on the
way, and then the fault is that of reading the numeral at which it does. -/
theorem resolve_exact (path : String) (ctx : Context) :
    ∃ v rest, Starts path ctx v rest ∧
      (∀ w, resolve path ctx = .ok w ↔ Reaches v rest w ∧ ∀ e, ¬ Stuck v rest e) ∧
      ∀ e, resolve path ctx = .error e ↔ Stuck v rest e := by
  obtain ⟨v, rest, hstarts⟩ := exists_starts path ctx
  have hwalk := contract_walk v rest
  rw [← hstarts.resolve_eq] at hwalk
  refine ⟨v, rest, hstarts, fun w => ?_, fun e => ?_⟩
  · exact hwalk.eq_ok_iff (fun _ h => h.2) fun _ _ hu hw => hu.1.unique hw.1
  · exact hwalk.eq_error_iff (fun _ h => h.2) fun _ _ => Stuck.unique

/-- An answer that is a list of two texts. -/
def tagged : Context := ⟨[], none, [("tags", .list [.text "a", .text "b"])]⟩

/-- Not every path has a value or leads to null.  A superscript is a numeral, but the place of no
item. -/
theorem not_forall_exists_resolve : ¬ ∀ path ctx, ∃ w, resolve path ctx = .ok w := by
  intro h
  obtain ⟨w, hw⟩ := h "answers.tags.²" tagged
  have hfault : resolve "answers.tags.²" tagged = .error (.notDecimal "²") := by rfl
  rw [hfault] at hw
  exact nomatch hw

theorem Starts.mem_segments (h : Starts path ctx v rest) (hkey : key ∈ rest) :
    key ∈ segments path := by
  cases h with
  | root _ parts _ =>
      rw [parts]
      exact List.mem_cons_of_mem _ hkey
  | answers _ _ _ => exact hkey
  | _ => exact absurd hkey List.not_mem_nil

theorem Stuck.exists_unreadable (h : Stuck v rest e) : ∃ key ∈ rest, Integer.Unreadable key e := by
  induction h with
  | here first =>
      obtain ⟨unread⟩ := first
      exact ⟨_, List.mem_cons_self, unread⟩
  | later _ _ _ ih =>
      obtain ⟨key, hkey, unread⟩ := ih
      exact ⟨key, List.mem_cons_of_mem _ hkey, unread⟩

/-- A path all of whose numerals are read has a value in every context. -/
theorem exists_resolve (h : ∀ key ∈ segments path, ∀ e, ¬ Integer.Unreadable key e)
    (ctx : Context) : ∃ w, resolve path ctx = .ok w := by
  obtain ⟨v, rest, hstarts⟩ := exists_starts path ctx
  have hwalk := contract_walk v rest
  rw [← hstarts.resolve_eq] at hwalk
  obtain ⟨w, hw, -⟩ | ⟨e, -, hstuck⟩ := hwalk.cases_eq
  · exact ⟨w, hw⟩
  · obtain ⟨key, hkey, unread⟩ := hstuck.exists_unreadable
    exact absurd unread (h key (hstarts.mem_segments hkey) e)

end Path
end ConditionalForms
