import ConditionalForms.Audit.Report
import ConditionalForms.Fill.Visibility
import ConditionalForms.Proofs.Sequence
import ConditionalForms.Proofs.Value.Record

/-!
# What rules read

The report on a form names the answers that the rules of a restriction refer to.  Evaluating the
restriction finds the values at the same paths in its own way.  This module shows that evaluation
reads no answer that is not named: two contexts that agree on the named ones cannot be told apart.

Two things are asked for.  The paths have no blanks at their ends, which a reference leaves out and
evaluation does not, and each of them leads somewhere.  No name of an answer holds a dot, since an
answer named by a whole path comes before the walk along it.

**Definitions.**
* `Path.IsTraced`: a trimmed path into the guardian, the participant or an answer with a name.
* `Context.HasPlainNames`: no name of an answer holds a dot.
* `Context.AgreeOn`: two contexts that differ at most in answers that are not named.

**Results.**
* `Path.IsTraced.cases`: the four ways in which such a path leads to a value.
* `Path.resolve_congr`, `RuleGroup.holds_congr`: contexts that agree on what is referred to give the
  same value, and satisfy the same restrictions.
* `RuleGroup.reads_only_references`: hence a change of an answer that is not referred to shows and
  hides nothing.
-/

namespace ConditionalForms

namespace Path

/-- The root that a path starts from by name. -/
def root? (path : String) : Option Root := (segments path).head?.bind Root.ofName?

/-- A trimmed path into the guardian, the participant or an answer with a name. -/
structure IsTraced (path : String) : Prop where
  trim : Text.trim path = path
  leads : root? path = some .guardian ∨ root? path = some .participant ∨
    referencedField? path ≠ none

theorem splitList_of_notMem {separator : Char} :
    ∀ {cs : List Char}, separator ∉ cs → splitList separator cs = [cs]
  | [], _ => rfl
  | c :: cs, h => by
      have hc : c ≠ separator := fun e => h (e ▸ List.mem_cons_self)
      have hcs : separator ∉ cs := fun hmem => h (List.mem_cons_of_mem _ hmem)
      rw [splitList, if_neg hc, splitList_of_notMem hcs]

theorem segments_of_notMem {path : String} (h : '.' ∉ path.toList) : segments path = [path] := by
  rw [segments, splitList_of_notMem h, List.map_singleton, String.ofList_toList]

theorem splitList_ne_nil (separator : Char) (cs : List Char) : splitList separator cs ≠ [] := by
  cases cs with
  | nil => exact List.cons_ne_nil _ _
  | cons c cs =>
      rw [splitList]
      split
      · exact List.cons_ne_nil _ _
      · split <;> exact List.cons_ne_nil _ _

theorem exists_segments_eq (path : String) : ∃ first rest, segments path = first :: rest := by
  refine List.exists_cons_of_ne_nil fun h => ?_
  exact splitList_ne_nil _ _ (List.map_eq_nil_iff.mp h)

theorem walk_members (members : Record) (name : String) (rest : List String) :
    walk (.object members) (name :: rest) = walk (members.get name) rest := rfl

/-- A traced path leads into the guardian, the participant, or an answer that it refers to: one
named behind the root of the answers, or one named first. -/
theorem IsTraced.cases {path : String} (h : IsTraced path) :
    ∃ first rest, segments path = first :: rest ∧
      (Root.ofName? first = some .guardian ∨ Root.ofName? first = some .participant ∨
        (∃ name tail, Root.ofName? first = some .answers ∧ rest = name :: tail ∧
          referencedField? path = some name) ∨
        Root.ofName? first = none ∧ referencedField? path = some first) := by
  have hleads := h.leads
  rw [root?] at hleads
  rw [referencedField?, h.trim] at hleads ⊢
  cases hsegments : segments path with
  | nil => simp [hsegments] at hleads
  | cons first rest =>
      refine ⟨first, rest, rfl, ?_⟩
      simp only [hsegments, List.head?_cons, Option.bind_some] at hleads
      cases hroot : Root.ofName? first with
      | none =>
          have hne : first ≠ "" := by simpa [hroot] using hleads
          simp [hroot, hne]
      | some root => cases root with
        | guardian => exact Or.inl rfl
        | participant => exact Or.inr (Or.inl rfl)
        | answers => cases rest with
          | nil => simp [hroot] at hleads
          | cons name tail =>
              have hne : name ≠ "" := by simpa [hroot] using hleads
              simp [hroot, hne]

end Path

namespace Context

/-- No name of an answer holds a dot. -/
def HasPlainNames (ctx : Context) : Prop :=
  ∀ m ∈ ctx.answers, ∀ name, m.1 = .text name → '.' ∉ name.toList

/-- The contexts differ at most in answers that are not among the named ones. -/
structure AgreeOn (names : List String) (c d : Context) : Prop where
  guardian : c.guardian = d.guardian
  participant : c.participant = d.participant
  answers : ∀ name ∈ names, c.answers.get? name = d.answers.get? name

variable {ctx c d : Context} {names others : List String} {name : String}

theorem AgreeOn.mono (h : AgreeOn others c d) (hsub : ∀ name ∈ names, name ∈ others) :
    AgreeOn names c d :=
  ⟨h.guardian, h.participant, fun name hname => h.answers name (hsub name hname)⟩

theorem AgreeOn.get_eq (h : AgreeOn names c d) (hname : name ∈ names) :
    c.answers.get name = d.answers.get name := by
  rw [Record.get, Record.get, h.answers name hname]

theorem HasPlainNames.get?_eq_none (h : ctx.HasPlainNames) (hdot : '.' ∈ name.toList) :
    ctx.answers.get? name = none :=
  Record.get?_eq_none fun m hm hkey => h m hm name hkey hdot

theorem HasPlainNames.set (h : ctx.HasPlainNames) (hdot : '.' ∉ name.toList) (v : Value) :
    HasPlainNames { ctx with answers := ctx.answers.set name v } := by
  intro m hm other hother
  rcases Record.key_of_mem_set hm with hkey | ⟨n, hn, hkey⟩
  · rw [hother, Key.text.injEq] at hkey
    rwa [hkey]
  · exact h n hn other (hkey.trans hother)

theorem HasPlainNames.erase (h : ctx.HasPlainNames) (name : String) :
    HasPlainNames { ctx with answers := ctx.answers.erase name } :=
  fun m hm => h m (List.mem_filter.mp hm).1

/-- A change of an answer that is not named leaves the named ones as they are. -/
theorem agreeOn_set (hname : name ∉ names) (v : Value) :
    AgreeOn names ctx { ctx with answers := ctx.answers.set name v } := by
  refine ⟨rfl, rfl, fun other hother => ?_⟩
  have hne : name ≠ other := fun e => hname (e ▸ hother)
  rw [Record.get?_set, if_neg hne]

theorem agreeOn_erase (hname : name ∉ names) :
    AgreeOn names ctx { ctx with answers := ctx.answers.erase name } := by
  refine ⟨rfl, rfl, fun other hother => ?_⟩
  have hne : name ≠ other := fun e => hname (e ▸ hother)
  rw [Record.get?_erase, if_neg hne]

end Context

open Context (AgreeOn)

section Congruence

variable {c d : Context}

/-- Contexts that agree on the answer that a path refers to give the same value at it. -/
theorem Path.resolve_congr {path : String} (h : IsTraced path) (hc : c.HasPlainNames)
    (hd : d.HasPlainNames) (hagree : AgreeOn (referencedField? path).toList c d) :
    resolve path c = resolve path d := by
  obtain ⟨first, rest, hsegments, hcases⟩ := h.cases
  unfold resolve
  rw [hsegments]
  rcases hcases with hroot | hroot | ⟨name, tail, hroot, rfl, href⟩ | ⟨hroot, href⟩
  · simp only [hroot, Context.atRoot, hagree.guardian]
  · simp only [hroot, Context.atRoot, hagree.participant]
  · have hname : c.answers.get name = d.answers.get name := hagree.get_eq (by simp [href])
    simp only [hroot, Context.atRoot, walk_members, hname]
  · have hfirst : first ∈ (referencedField? path).toList := by simp [href]
    -- an answer named by the whole path comes first, but only a path of one segment can name one
    have hwhole : c.answers.get? path = d.answers.get? path := by
      by_cases hdot : '.' ∈ path.toList
      · rw [hc.get?_eq_none hdot, hd.get?_eq_none hdot]
      · rw [segments_of_notMem hdot] at hsegments
        obtain ⟨rfl, -⟩ := List.cons.inj hsegments
        exact hagree.answers path hfirst
    simp only [hroot, walk_members, hwhole, hagree.get_eq hfirst]

theorem Rule.holds_congr {r : Rule} (h : Path.IsTraced r.path) (hc : c.HasPlainNames)
    (hd : d.HasPlainNames) (hagree : AgreeOn (Path.referencedField? r.path).toList c d) :
    r.holds c = r.holds d := by
  rw [holds, holds, Path.resolve_congr h hc hd hagree]

theorem mem_referencesOf {g : RuleGroup} {r : Rule} {name : String} (hr : r ∈ g.rules)
    (hname : name ∈ (Path.referencedField? r.path).toList) : name ∈ referencesOf (some g) :=
  List.mem_filterMap.mpr ⟨r, hr, Option.mem_toList.mp hname⟩

/-- Contexts that agree on the answers that a group refers to satisfy it both or neither, or fail
in the same way. -/
theorem RuleGroup.holds_congr {g : RuleGroup} (h : ∀ r ∈ g.rules, Path.IsTraced r.path)
    (hc : c.HasPlainNames) (hd : d.HasPlainNames) (hagree : AgreeOn (referencesOf (some g)) c d) :
    g.holds c = g.holds d := by
  have hresults : g.rules.mapM (·.holds c) = g.rules.mapM (·.holds d) := by
    refine mapM_congr fun r hr => ?_
    exact Rule.holds_congr (h r hr) hc hd (hagree.mono fun _ => mem_referencesOf hr)
  rw [holds, holds, hresults]

end Congruence

/-- A restriction reads the answers that it refers to and no others: where they are the same it is
satisfied both times or neither time, or fails both times, and no other answer that is entered or
taken back changes whether its field is shown. -/
theorem RuleGroup.reads_only_references (g : RuleGroup)
    (h : ∀ r ∈ g.rules, Path.IsTraced r.path) :
    (∀ c d : Context, c.HasPlainNames → d.HasPlainNames → AgreeOn (referencesOf (some g)) c d →
      g.holds c = g.holds d) ∧
    ∀ (f : Field) (ctx : Context) (name : String), f.logic = some g → ctx.HasPlainNames →
      '.' ∉ name.toList → name ∉ referencesOf f.logic →
      (∀ v, f.isShown { ctx with answers := ctx.answers.set name v } = f.isShown ctx) ∧
        f.isShown { ctx with answers := ctx.answers.erase name } = f.isShown ctx := by
  constructor
  · intro c d hc hd hagree
    exact holds_congr h hc hd hagree
  · intro f ctx name hlogic hplain hdot hname
    rw [hlogic] at hname
    simp only [Field.isShown, hlogic, allows]
    constructor
    · intro v
      exact (holds_congr h hplain (hplain.set hdot v) (Context.agreeOn_set hname v)).symm
    · exact (holds_congr h hplain (hplain.erase name) (Context.agreeOn_erase hname)).symm

/-- The rules of a question about the bus.  They look into the school that was named, at the
participant and at an answer. -/
def busRules : RuleGroup :=
  ⟨.any,
    [⟨"answers.school.name", .contains, .text "Elm"⟩, ⟨"participant.group", .isEmpty, .null⟩,
      ⟨"needs-transport", .equals, .text "yes"⟩]⟩

/-- A participant at a school with a bus. -/
def atElmPark : Context :=
  ⟨[], some [("group", .text "foxes")],
    [("school", .object [("name", .text "Elm Park")]), ("needs-transport", .text "no")]⟩

theorem isTraced_busRules : ∀ r ∈ busRules.rules, Path.IsTraced r.path := by
  intro r hr
  simp only [busRules, List.mem_cons, List.not_mem_nil, or_false] at hr
  rcases hr with rfl | rfl | rfl
  · exact ⟨by decide +kernel, Or.inr (Or.inr (by decide +kernel))⟩
  · exact ⟨by decide +kernel, Or.inr (Or.inl (by decide +kernel))⟩
  · exact ⟨by decide +kernel, Or.inr (Or.inr (by decide +kernel))⟩

theorem hasPlainNames_atElmPark : atElmPark.HasPlainNames := by
  intro m hm name hkey
  simp only [atElmPark, List.mem_cons, List.not_mem_nil, or_false] at hm
  rcases hm with rfl | rfl
  all_goals
    obtain rfl := Key.text.inj hkey
    decide

/-- An answer about allergies does not take the question about the bus away. -/
theorem reads_only_references_busRules :
    (∀ r ∈ busRules.rules, Path.IsTraced r.path) ∧ "allergies" ∉ referencesOf (some busRules) ∧
      Field.isShown { Field.plain "f-bus" "bus" "Bus" with logic := some busRules }
        { atElmPark with answers := atElmPark.answers.set "allergies" (.text "nuts") } =
          .ok true := by
  have hreferences : referencesOf (some busRules) = ["school", "needs-transport"] := by
    decide +kernel
  have hname : "allergies" ∉ referencesOf (some busRules) := by
    rw [hreferences]
    decide
  have hshown : busRules.holds atElmPark = .ok true := by decide +kernel
  obtain ⟨_, hchange⟩ := RuleGroup.reads_only_references busRules isTraced_busRules
  obtain ⟨hset, _⟩ := hchange { Field.plain "f-bus" "bus" "Bus" with logic := some busRules }
    atElmPark "allergies" rfl hasPlainNames_atElmPark (by decide) hname
  exact ⟨isTraced_busRules, hname, (hset _).trans hshown⟩

end ConditionalForms
