import ConditionalForms.Proofs.Fill.Cursor
import Mathlib.Order.RelClasses

/-!
# Moving over the shown steps

The three moves of a session are told by the list of shown steps alone: forward to the least one
ahead, back to the greatest one behind, and, where a session has to settle, to one of the two or
nowhere.  The scans that find them visit the steps nearest first, so that a scan over the positions
in order stops at the least shown one, and a scan in reverse order at the greatest.  Both moves are
one, in opposite directions.

**Definitions.**
* `MovesTo`: where a move in some direction leads.
* `SettlesAt`: where settling leads.
* `Form.IsNavigatedBy`: the moves over a form are those along some positions.

**Results.**
* `mem_and_first_of_find?`: what a search in an ordered list finds.
* `MovesTo.unique`, `MovesTo.undo`: a move has one result, and is undone by the opposite one.
* `Form.exists_nextShown`, `Form.exists_previousShown`, `Form.exists_settle`: the moves over a form.
* `Form.run_next`: moving forward again and again.
* `Form.isNavigatedBy_of_shownSteps`: every form is navigated by its shown steps.
-/

namespace ConditionalForms

/-- A move along some positions in a direction, from any integer: to the nearest one beyond it, or
nowhere when none is beyond it. -/
inductive MovesTo (r : Int → Int → Prop) (shown : List Nat) (i : Int) : Int → Prop where
  | move {v : Nat} (mem : v ∈ shown) (beyond : r i v)
      (nearest : ∀ u ∈ shown, r i u → u = v ∨ r v u) : MovesTo r shown i v
  | stay (last : ∀ u ∈ shown, ¬ r i u) : MovesTo r shown i i

/-- Settling among some positions, from a place: there if it is one of them, otherwise where a move
forward leads, and where a move back leads if nothing is ahead. -/
inductive SettlesAt (shown : List Nat) (c : Nat) : Int → Prop where
  | here (mem : c ∈ shown) : SettlesAt shown c c
  | ahead {j : Int} (hidden : c ∉ shown) (forward : MovesTo (· < ·) shown c j) (moved : j ≠ c) :
      SettlesAt shown c j
  | behind {j : Int} (hidden : c ∉ shown) (last : ∀ u ∈ shown, ¬ c < u)
      (back : MovesTo (· > ·) shown c j) : SettlesAt shown c j

/-- What a search in a list finds comes first of all that it could have found. -/
theorem mem_and_first_of_find? {α : Type} {r : α → α → Prop} {p : α → Bool} {xs : List α} {x : α}
    (hr : xs.Pairwise r) (h : xs.find? p = some x) :
    x ∈ xs ∧ p x = true ∧ ∀ y ∈ xs, p y = true → y = x ∨ r x y := by
  induction hr with
  | nil => cases h
  | @cons z xs hz _ ih =>
      rw [List.find?_cons] at h
      cases hp : p z with
      | true =>
          obtain rfl : z = x := by simpa [hp] using h
          refine ⟨List.mem_cons_self, hp, ?_⟩
          intro y hy _
          rcases List.mem_cons.mp hy with rfl | hy
          · exact Or.inl rfl
          · exact Or.inr (hz y hy)
      | false =>
          obtain ⟨hx, hpx, hfirst⟩ := ih (by simpa [hp] using h)
          refine ⟨List.mem_cons_of_mem z hx, hpx, ?_⟩
          intro y hy hpy
          rcases List.mem_cons.mp hy with rfl | hy
          · simp [hp] at hpy
          · exact hfirst y hy hpy

section Moves

variable {r : Int → Int → Prop} {shown : List Nat} {i j k : Int} {v : Nat}

theorem MovesTo.unique [Std.Asymm r] (hj : MovesTo r shown i j) (hk : MovesTo r shown i k) :
    j = k := by
  cases hj with
  | @move v hv hiv hnearest => cases hk with
    | @move w hw hiw hnearest' =>
        rcases hnearest w hw hiw with rfl | hvw
        · rfl
        · rcases hnearest' v hv hiv with rfl | hwv
          · rfl
          · exact absurd hwv (asymm hvw)
    | stay hlast => exact absurd hiv (hlast v hv)
  | stay hlast => cases hk with
    | @move w hw hiw => exact absurd hiw (hlast w hw)
    | stay => rfl

/-- A move from one of the positions to another is undone by the opposite move. -/
theorem MovesTo.undo [IsStrictTotalOrder Int r] (hv : v ∈ shown) (h : MovesTo r shown v j)
    (hne : j ≠ v) : MovesTo (Function.swap r) shown j v := by
  cases h with
  | @move w hw hvw hnearest =>
      refine .move hv hvw ?_
      intro u hu huw
      rcases trichotomous (r := r) (u : Int) v with huv | huv | hvu
      · exact Or.inr huv
      · exact Or.inl (Int.ofNat_inj.mp huv)
      · rcases hnearest u hu hvu with rfl | hwu
        · exact absurd huw (irrefl (u : Int))
        · exact absurd huw (asymm hwu)
  | stay => exact absurd rfl hne

/-- In an ordered list, a move forward leads from each item to the next one. -/
theorem movesTo_getElem? (hsorted : shown.Pairwise (· < ·)) {n v w : Nat}
    (hv : shown[n]? = some v) (hw : shown[n + 1]? = some w) : MovesTo (· < ·) shown v w := by
  obtain ⟨hn, rfl⟩ := List.getElem?_eq_some_iff.mp hv
  obtain ⟨hn', rfl⟩ := List.getElem?_eq_some_iff.mp hw
  have hlt := List.pairwise_iff_getElem.mp hsorted
  refine .move (List.getElem_mem hn') (Int.ofNat_lt.mpr (hlt n (n + 1) hn hn' n.lt_succ_self)) ?_
  intro u hu hafter
  obtain ⟨m, hm, rfl⟩ := List.getElem_of_mem hu
  rcases Nat.lt_trichotomy m (n + 1) with hlow | rfl | hhigh
  · -- the items up to the first one are not ahead of it
    rcases Nat.lt_or_ge m n with hbefore | hge
    · have := hlt m n hm hn hbefore
      omega
    · obtain rfl : m = n := by omega
      omega
  · exact Or.inl rfl
  · exact Or.inr (Int.ofNat_lt.mpr (hlt (n + 1) m hn' hm hhigh))

/-- In an ordered list, no move forward leads from the last item anywhere. -/
theorem movesTo_getLast? (hsorted : shown.Pairwise (· < ·)) {v : Nat}
    (hv : shown[shown.length - 1]? = some v) : MovesTo (· < ·) shown v v := by
  obtain ⟨hn, rfl⟩ := List.getElem?_eq_some_iff.mp hv
  refine .stay ?_
  intro u hu hafter
  obtain ⟨m, hm, rfl⟩ := List.getElem_of_mem hu
  rcases Nat.lt_or_ge m (shown.length - 1) with hlt | hge
  · have := List.pairwise_iff_getElem.mp hsorted m _ hm hn hlt
    omega
  · obtain rfl : m = shown.length - 1 := by omega
    omega

end Moves

namespace Form

variable {form : Form} {sub : Submission} {shown : List Nat}

theorem showsStep_of_shownSteps (h : form.shownSteps sub = .ok shown) {v : Nat}
    (hv : v < form.steps.length) : form.showsStep sub v = .ok (decide (v ∈ shown)) :=
  test_of_keep h (List.mem_range.mpr hv)

theorem mem_shownSteps_iff (h : form.shownSteps sub = .ok shown) {v : Nat} :
    v ∈ shown ↔ form.showsStep sub v = .ok true := by
  rw [mem_of_keep h, List.mem_range]
  exact and_iff_right_of_imp lt_length_of_showsStep

theorem lt_length_of_mem_shownSteps (h : form.shownSteps sub = .ok shown) {v : Nat}
    (hv : v ∈ shown) : v < form.steps.length :=
  lt_length_of_showsStep ((mem_shownSteps_iff h).mp hv)

theorem shownSteps_eq_filter (h : form.shownSteps sub = .ok shown) :
    shown = (List.range form.steps.length).filter (· ∈ shown) := by
  refine Except.ok.inj (h.symm.trans (keep_eq_filter fun v hv => ?_))
  exact showsStep_of_shownSteps h (List.mem_range.mp hv)

/-- The shown steps are listed in order. -/
theorem pairwise_shownSteps (h : form.shownSteps sub = .ok shown) : shown.Pairwise (· < ·) := by
  rw [shownSteps_eq_filter h]
  exact List.pairwise_lt_range.filter _

/-- A search for a shown step among the positions beyond an integer, nearest first, is a move. -/
theorem exists_search (h : form.shownSteps sub = .ok shown) {r : Int → Int → Prop} {i : Int}
    {positions : List Nat} (hr : positions.Pairwise fun (u v : Nat) => r u v)
    (hmem : ∀ u : Nat, u ∈ positions ↔ u < form.steps.length ∧ r i u) :
    ∃ j, (do match ← firstOf? (form.showsStep sub) positions with
      | some v => return (v : Int)
      | none => return i) = Except.ok j ∧ MovesTo r shown i j := by
  have hbeyond : ∀ u ∈ shown, r i u → u ∈ positions := fun u hu hiu =>
    (hmem u).mpr ⟨lt_length_of_mem_shownSteps h hu, hiu⟩
  rw [firstOf?_eq_find? fun v hv => showsStep_of_shownSteps h ((hmem v).mp hv).1]
  cases hfind : positions.find? (· ∈ shown) with
  | none =>
      refine ⟨i, rfl, .stay fun u hu hiu => ?_⟩
      exact List.find?_eq_none.mp hfind u (hbeyond u hu hiu) (decide_eq_true hu)
  | some v =>
      obtain ⟨hv, hshown, hfirst⟩ := mem_and_first_of_find? hr hfind
      refine ⟨v, rfl, .move (of_decide_eq_true hshown) ((hmem v).mp hv).2 fun u hu hiu => ?_⟩
      exact hfirst u (hbeyond u hu hiu) (decide_eq_true hu)

theorem exists_nextShown (h : form.shownSteps sub = .ok shown) (i : Int) :
    ∃ j, form.nextShown sub i = .ok j ∧ MovesTo (· < ·) shown i j := by
  have hsorted : (form.stepsAfter i).Pairwise fun (u v : Nat) => (u : Int) < v :=
    (List.pairwise_lt_range' 1).imp Int.ofNat_lt.mpr
  exact exists_search h hsorted fun u => mem_stepsAfter

theorem exists_previousShown (h : form.shownSteps sub = .ok shown) (i : Int) :
    ∃ j, form.previousShown sub i = .ok j ∧ MovesTo (· > ·) shown i j := by
  have hsorted : (form.stepsBefore i).Pairwise fun (u v : Nat) => (u : Int) > v :=
    List.pairwise_reverse.mpr (List.pairwise_lt_range.imp Int.ofNat_lt.mpr)
  exact exists_search h hsorted fun u => mem_stepsBefore

theorem exists_settle (h : form.shownSteps sub = .ok shown) (hne : form.steps ≠ []) (i : Int) :
    ∃ j, form.settle sub i = .ok j ∧ SettlesAt shown (form.nearestStep i) j := by
  have hnear := nearestStep_lt hne i
  rw [settle_eq hne]
  generalize form.nearestStep i = c at hnear ⊢
  rw [showsStep_of_shownSteps h hnear, ok_bind]
  by_cases hmem : c ∈ shown
  · exact ⟨c, by simp [hmem], .here hmem⟩
  obtain ⟨ahead, hahead, hforward⟩ := exists_nextShown h c
  obtain ⟨behind, hbehind, hback⟩ := exists_previousShown h c
  simp only [hmem, decide_false, Bool.false_eq_true, if_false, hahead, ok_bind, hbehind]
  cases hforward with
  | @move v hv hlt hnearest =>
      have hne : (v : Int) ≠ c := hlt.ne'
      exact ⟨v, by rw [if_neg hne]; rfl, .ahead hmem (.move hv hlt hnearest) hne⟩
  | stay hlast =>
      refine ⟨behind, by rw [if_pos rfl], .behind hmem (fun u hu hlt => ?_) hback⟩
      exact hlast u hu (Int.ofNat_lt.mpr hlt)

theorem nextShown_of_movesTo (h : form.shownSteps sub = .ok shown) {i j : Int}
    (hj : MovesTo (· < ·) shown i j) : form.nextShown sub i = .ok j := by
  obtain ⟨k, hk, hforward⟩ := exists_nextShown h i
  rw [hk, hforward.unique hj]

theorem previousShown_of_movesTo (h : form.shownSteps sub = .ok shown) {i j : Int}
    (hj : MovesTo (· > ·) shown i j) : form.previousShown sub i = .ok j := by
  obtain ⟨k, hk, hback⟩ := exists_previousShown h i
  rw [hk, hback.unique hj]

/-- Moving forward again and again visits the shown steps one by one, and stays at the last. -/
theorem run_next (h : form.shownSteps sub = .ok shown) {first : Nat}
    (hfirst : shown.head? = some first) (n : Nat) {v : Nat}
    (hv : shown[min n (shown.length - 1)]? = some v) :
    (⟨form, sub, first⟩ : Session).run (List.replicate n .next) = ⟨form, sub, v⟩ := by
  induction n generalizing v with
  | zero =>
      rw [Nat.zero_min, ← List.head?_eq_getElem?, hfirst] at hv
      obtain rfl := Option.some.inj hv
      rfl
  | succ n ih =>
      have hsorted := pairwise_shownSteps h
      have hpos : 0 < shown.length := by
        have := (List.getElem?_eq_some_iff.mp hv).1
        omega
      obtain ⟨u, hu⟩ : ∃ u, shown[min n (shown.length - 1)]? = some u :=
        ⟨_, List.getElem?_eq_getElem (by omega)⟩
      have hmove : MovesTo (· < ·) shown u v := by
        rcases Nat.lt_or_ge n (shown.length - 1) with hlt | hge
        · rw [Nat.min_eq_left (by omega)] at hu hv
          exact movesTo_getElem? hsorted hu hv
        · rw [Nat.min_eq_right (by omega)] at hu hv
          obtain rfl := Option.some.inj (hu.symm.trans hv)
          exact movesTo_getLast? hsorted hu
      have hnext := nextShown_of_movesTo h hmove
      have ih := ih hu
      rw [Session.run] at ih ⊢
      rw [List.replicate_succ', List.foldl_append, ih, List.foldl_cons, List.foldl_nil,
        Session.perform, hnext]
      rfl

/-- The moves over a form are those along some positions. -/
structure IsNavigatedBy (form : Form) (sub : Submission) (shown : List Nat) : Prop where
  /-- The positions stand in order, and are those of the shown steps. -/
  sorted : shown.Pairwise (· < ·)
  mem_iff : ∀ v, v ∈ shown ↔ form.showsStep sub v = .ok true
  /-- From every integer, each move gives a result, the one along the positions. -/
  next : ∀ i, ∃ j, form.nextShown sub i = .ok j ∧ MovesTo (· < ·) shown i j
  previous : ∀ i, ∃ j, form.previousShown sub i = .ok j ∧ MovesTo (· > ·) shown i j
  settle_empty : form.steps = [] → ∀ i, form.settle sub i = .ok 0
  settle : form.steps ≠ [] → ∀ i, ∃ j, form.settle sub i = .ok j ∧
    SettlesAt shown (min (max i 0) ((form.steps.length : Int) - 1)).toNat j
  /-- A session that starts at the first position and moves forward `n` times stands at the position
  that comes `n` places later, or at the last one. -/
  enumerates : ∀ first, shown.head? = some first → ∀ n v,
    shown[min n (shown.length - 1)]? = some v →
      (⟨form, sub, first⟩ : Session).run (List.replicate n .next) = ⟨form, sub, v⟩
  /-- Moves from one of the positions to another are undone by the opposite moves. -/
  undone_back : ∀ v ∈ shown, ∀ w : Int, form.nextShown sub v = .ok w → w ≠ v →
    form.previousShown sub w = .ok v
  undone_on : ∀ v ∈ shown, ∀ w : Int, form.previousShown sub v = .ok w → w ≠ v →
    form.nextShown sub w = .ok v

/-- Every form is navigated by its shown steps, whenever it can be told which these are. -/
theorem isNavigatedBy_of_shownSteps (h : form.shownSteps sub = .ok shown) :
    form.IsNavigatedBy sub shown where
  sorted := pairwise_shownSteps h
  mem_iff _ := mem_shownSteps_iff h
  next := exists_nextShown h
  previous := exists_previousShown h
  settle_empty := settle_of_empty
  settle := exists_settle h
  enumerates _ hfirst n _ hv := run_next h hfirst n hv
  undone_back v hv w hnext hne := by
    obtain ⟨j, hj, hforward⟩ := exists_nextShown h v
    obtain rfl := Except.ok.inj (hnext.symm.trans hj)
    exact previousShown_of_movesTo h (hforward.undo hv hne)
  undone_on v hv w hprevious hne := by
    obtain ⟨j, hj, hback⟩ := exists_previousShown h v
    obtain rfl := Except.ok.inj (hprevious.symm.trans hj)
    exact nextShown_of_movesTo h (hback.undo hv hne)

/-- The registration form, filled in for one participant who needs no transport, is navigated by
three of its four steps; a move back from the last of them skips the one about transport. -/
theorem isNavigatedBy_registration :
    (Session.registering [] 0).shownSteps = .ok [0, 1, 3] ∧
      (Session.registering [] 0).form.IsNavigatedBy (Session.registering [] 0).submission
        [0, 1, 3] ∧
      (Session.registering [] 0).form.previousShown (Session.registering [] 0).submission 3 =
        .ok 1 := by
  have hshown : (Session.registering [] 0).shownSteps = .ok [0, 1, 3] := by cbv
  have hmoves : (Session.registering [] 0).form.IsNavigatedBy (Session.registering [] 0).submission
      [0, 1, 3] := isNavigatedBy_of_shownSteps hshown
  have hnext : (Session.registering [] 0).form.nextShown (Session.registering [] 0).submission 1 =
      .ok 3 := by cbv
  have hmem : 1 ∈ [0, 1, 3] := by simp
  exact ⟨hshown, hmoves, hmoves.undone_back 1 hmem 3 hnext (by omega)⟩

end Form

end ConditionalForms
