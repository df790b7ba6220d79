import ConditionalForms.Sequence
import Mathlib.Data.List.Forall2

/-!
# What passes over lists give

Every pass either ends at a fault or looks at as much of its list as its result shows.  The lemmas
of this module read a result that was given back into facts about the items.

**Definitions.**
* `those`: the items that a property holds of.

**Results.**
* `bind_eq_ok`: a sequence of two computations succeeds iff both of them do.
* `mapFrom_eq_zipIdx`, `forall₂_of_mapFrom`, `forall₂_of_mapM`: the results of a pass stand beside
  the items.
* `forall₂_zipIdx_of_mapFrom`, `forall₂_zipIdx_zipIdx`: they do so with their positions.
* `mapM_congr`, `keep_congr`: passes that look at every item in the same way are the same.
* `map_flatten_of_mapM`: what a pass gives altogether.
* `filter_flatten_of_mapM`, `keep_filter`: a part of what a pass gives comes from a part of the
  items.
* `firstOf?_eq_some`, `firstOf?_eq_none`: a search gives the first item that passes, or finds that
  no item does.
* `mem_of_keep`, `keep_eq_those`, `anyOf_iff`: exactly the items that pass are kept, and found.
* `forall₂_of_getElem?`: lists stand beside each other if they do at every position.
* `countP_flatten_of_unique`: what is found in only one of some lists.
* `keep_eq_filter`, `anyOf_eq_any`, `firstOf?_eq_find?`: passes with a test that fails for no item.
-/

namespace ConditionalForms

variable {α β : Type}

theorem bind_eq_ok {x : Except Fault α} {f : α → Except Fault β} {b : β} :
    (x >>= f) = .ok b ↔ ∃ a, x = .ok a ∧ f a = .ok b := by
  cases x with
  | error e => simp [bind, Except.bind]
  | ok a => simp [bind, Except.bind]

@[simp] theorem pure_eq_ok {a b : α} : (pure a : Except Fault α) = .ok b ↔ a = b := by
  simp [pure, Except.pure]

theorem map_eq_ok {x : Except Fault α} {f : α → β} {b : β} :
    f <$> x = .ok b ↔ ∃ a, x = .ok a ∧ f a = b := by
  cases x with
  | error e => simp [Functor.map, Except.map]
  | ok a => simp [Functor.map, Except.map]

@[simp] theorem map_ok (f : α → β) (a : α) : f <$> (Except.ok a : Except Fault α) = .ok (f a) := rfl

@[simp] theorem ok_bind (a : α) (f : α → Except Fault β) : (Except.ok a >>= f) = f a := rfl

open scoped Classical in
/-- The items that a property holds of, in order. -/
noncomputable def those (P : α → Prop) (xs : List α) : List α := xs.filter fun x => P x

section Those

variable {P Q : α → Prop} {x : α} {xs ys : List α}

theorem mem_those : x ∈ those P xs ↔ x ∈ xs ∧ P x := by simp [those]

theorem those_append : those P (xs ++ ys) = those P xs ++ those P ys := List.filter_append ..

theorem those_flatMap {ys : List β} {g : β → List α} :
    those P (ys.flatMap g) = ys.flatMap fun y => those P (g y) :=
  List.filter_flatMap

theorem those_cons_of_pos (h : P x) : those P (x :: xs) = x :: those P xs :=
  List.filter_cons_of_pos (by simpa using h)

theorem those_cons_of_neg (h : ¬ P x) : those P (x :: xs) = those P xs :=
  List.filter_cons_of_neg (by simpa using h)

theorem those_eq_nil_iff : those P xs = [] ↔ ∀ x ∈ xs, ¬ P x := by
  simp [those, List.filter_eq_nil_iff]

theorem those_eq_nil (h : ∀ x ∈ xs, ¬ P x) : those P xs = [] := those_eq_nil_iff.mpr h

theorem those_singleton_of_pos (h : P x) : those P [x] = [x] := those_cons_of_pos h

theorem those_singleton_of_neg (h : ¬ P x) : those P [x] = [] := those_cons_of_neg h

/-- Items that add nothing need not be gone through. -/
theorem flatMap_those {g : α → List β} (h : ∀ x ∈ xs, ¬ P x → g x = []) :
    (those P xs).flatMap g = xs.flatMap g := by
  induction xs with
  | nil => rfl
  | cons x xs ih =>
      obtain ⟨hx, hxs⟩ := List.forall_mem_cons.mp h
      by_cases hP : P x
      · rw [those_cons_of_pos hP, List.flatMap_cons, List.flatMap_cons, ih hxs]
      · rw [those_cons_of_neg hP, List.flatMap_cons, ih hxs, hx hP, List.nil_append]

theorem those_congr (h : ∀ x ∈ xs, (P x ↔ Q x)) : those P xs = those Q xs :=
  List.filter_congr fun x hx => decide_eq_decide.mpr (h x hx)

end Those

theorem mapFrom_eq_zipIdx {f : Nat → α → Except Fault β} {g : Nat → α → β} :
    ∀ {xs : List α} {start : Nat}, (∀ i, ∀ x ∈ xs, f i x = .ok (g i x)) →
      mapFrom f start xs = .ok ((xs.zipIdx start).map fun p => g p.2 p.1)
  | [], _, _ => rfl
  | x :: xs, start, h => by
      have ih : mapFrom f (start + 1) xs = .ok ((xs.zipIdx (start + 1)).map fun p => g p.2 p.1) :=
        mapFrom_eq_zipIdx fun i y hy => h i y (List.mem_cons_of_mem _ hy)
      simp [mapFrom, h start x List.mem_cons_self, ih]

theorem mapFrom_eq_self {f : Nat → α → Except Fault α} {xs : List α} {start : Nat}
    (h : ∀ i, ∀ x ∈ xs, f i x = .ok x) : mapFrom f start xs = .ok xs := by
  rw [mapFrom_eq_zipIdx h, List.zipIdx_map_fst]

/-- A pass that does not look at positions. -/
theorem mapFrom_eq_mapM {γ : Type} {f : Nat → γ → Except Fault β} {g : α → Except Fault β}
    {xs : List α} {zs : List γ} (h : List.Forall₂ (fun x z => ∀ i, f i z = g x) xs zs) :
    ∀ start, mapFrom f start zs = xs.mapM g := by
  induction h with
  | nil => exact fun _ => rfl
  | @cons x z xs zs hz _ ih =>
      intro start
      rw [mapFrom, hz, ih, List.mapM_cons]

theorem forall₂_of_mapM {g : α → Except Fault β} :
    ∀ {xs : List α} {ys : List β}, xs.mapM g = .ok ys →
      List.Forall₂ (fun x y => g x = .ok y) xs ys
  | [], ys, h => by
      simp only [List.mapM_nil, pure_eq_ok] at h
      subst h
      exact .nil
  | x :: xs, ys, h => by
      simp only [List.mapM_cons, bind_eq_ok, pure_eq_ok] at h
      obtain ⟨y, hy, rest, hrest, rfl⟩ := h
      exact .cons hy (forall₂_of_mapM hrest)

/-- A pass that fails for no item gives a result for every item. -/
theorem exists_mapM_of_forall {g : α → Except Fault β} {R : α → β → Prop} :
    ∀ {xs : List α}, (∀ x ∈ xs, ∃ y, g x = .ok y ∧ R x y) →
      ∃ ys, xs.mapM g = .ok ys ∧ List.Forall₂ R xs ys
  | [], _ => ⟨[], rfl, .nil⟩
  | x :: xs, h => by
      obtain ⟨y, hy, hxy⟩ := h x List.mem_cons_self
      obtain ⟨ys, hys, hall⟩ := exists_mapM_of_forall fun z hz => h z (List.mem_cons_of_mem _ hz)
      exact ⟨y :: ys, by simp [List.mapM_cons, hy, hys], .cons hxy hall⟩

theorem mapM_eq_map {g : α → Except Fault β} {k : α → β} :
    ∀ {xs : List α}, (∀ x ∈ xs, g x = .ok (k x)) → xs.mapM g = .ok (xs.map k)
  | [], _ => rfl
  | x :: xs, h => by
      have ih : xs.mapM g = .ok (xs.map k) :=
        mapM_eq_map fun y hy => h y (List.mem_cons_of_mem _ hy)
      simp [List.mapM_cons, h x List.mem_cons_self, ih]

theorem mapM_congr {g k : α → Except Fault β} :
    ∀ {xs : List α}, (∀ x ∈ xs, g x = k x) → xs.mapM g = xs.mapM k
  | [], _ => rfl
  | x :: xs, h => by
      have ih : xs.mapM g = xs.mapM k := mapM_congr fun y hy => h y (List.mem_cons_of_mem _ hy)
      rw [List.mapM_cons, List.mapM_cons, h x List.mem_cons_self, ih]

/-- Two passes whose results have something in common, item by item. -/
theorem map_eq_of_mapM {γ : Type} {g k : α → Except Fault β} {f : β → γ} :
    ∀ {xs : List α} {ys zs : List β}, xs.mapM g = .ok ys → xs.mapM k = .ok zs →
      (∀ x ∈ xs, ∀ y z, g x = .ok y → k x = .ok z → f y = f z) → ys.map f = zs.map f
  | [], ys, zs, hys, hzs, _ => by
      simp only [List.mapM_nil, pure_eq_ok] at hys hzs
      rw [← hys, ← hzs]
  | x :: xs, ys, zs, hys, hzs, h => by
      simp only [List.mapM_cons, bind_eq_ok, pure_eq_ok] at hys hzs
      obtain ⟨y, hy, ys, hys, rfl⟩ := hys
      obtain ⟨z, hz, zs, hzs, rfl⟩ := hzs
      have ih : ys.map f = zs.map f :=
        map_eq_of_mapM hys hzs fun w hw => h w (List.mem_cons_of_mem _ hw)
      rw [List.map_cons, List.map_cons, ih, h x List.mem_cons_self y z hy hz]

/-- What is kept of the joined results of a pass is what some of the items gave, if these are the
items that what is kept comes from. -/
theorem filter_flatten_of_mapM {g : α → Except Fault (List β)} {p : β → Bool} {q : α → Bool}
    (h : ∀ x ys, g x = .ok ys → ys.filter p = if q x then ys else []) :
    ∀ {xs : List α} {yss : List (List β)}, xs.mapM g = .ok yss →
      ∃ kept, (xs.filter q).mapM g = .ok kept ∧ yss.flatten.filter p = kept.flatten
  | [], yss, hyss => by
      simp only [List.mapM_nil, pure_eq_ok] at hyss
      subst hyss
      exact ⟨[], rfl, rfl⟩
  | x :: xs, yss, hyss => by
      simp only [List.mapM_cons, bind_eq_ok, pure_eq_ok] at hyss
      obtain ⟨ys, hys, rest, hrest, rfl⟩ := hyss
      obtain ⟨kept, hkept, hfilter⟩ := filter_flatten_of_mapM h hrest
      rw [List.flatten_cons, List.filter_append, h x ys hys, hfilter]
      cases hq : q x with
      | true =>
          refine ⟨ys :: kept, ?_, rfl⟩
          rw [List.filter_cons_of_pos hq, List.mapM_cons, hys, hkept]
          rfl
      | false =>
          refine ⟨kept, ?_, rfl⟩
          rw [List.filter_cons_of_neg (by simp [hq]), hkept]

/-- What the joined results of a pass have to show is what each item has to. -/
theorem map_flatten_of_mapM {γ : Type} {g : α → Except Fault (List β)} {k : β → γ}
    {spec : α → List γ} {xs : List α} {yss : List (List β)} (h : xs.mapM g = .ok yss)
    (hspec : ∀ x ∈ xs, ∀ ys, g x = .ok ys → ys.map k = spec x) :
    yss.flatten.map k = xs.flatMap spec := by
  induction xs generalizing yss with
  | nil =>
      simp only [List.mapM_nil, pure_eq_ok] at h
      rw [← h]
      rfl
  | cons x xs ih =>
      simp only [List.mapM_cons, bind_eq_ok, pure_eq_ok] at h
      obtain ⟨ys, hys, rest, hrest, rfl⟩ := h
      have htail := ih hrest fun z hz => hspec z (List.mem_cons_of_mem x hz)
      rw [List.flatten_cons, List.map_append, htail, hspec x List.mem_cons_self ys hys,
        List.flatMap_cons]

theorem mapM_fmap {γ : Type} (g : α → Except Fault β) (k : β → γ) :
    ∀ xs : List α, xs.mapM (fun x => k <$> g x) = List.map k <$> xs.mapM g
  | [] => rfl
  | x :: xs => by
      rw [List.mapM_cons, List.mapM_cons, mapM_fmap g k xs]
      cases g x with
      | error e => rfl
      | ok y => cases xs.mapM g <;> rfl

/-- A pass that keeps something of every item. -/
theorem mapM_pair {γ : Type} (g : α → Except Fault β) (k : α → γ) :
    ∀ xs : List α, xs.mapM (fun x => (k x, ·) <$> g x) = (xs.map k).zip <$> xs.mapM g
  | [] => rfl
  | x :: xs => by
      rw [List.mapM_cons, List.mapM_cons, mapM_pair g k xs]
      cases g x with
      | error e => rfl
      | ok y => cases xs.mapM g <;> rfl

/-- What a function gives for the items and their positions stands beside the items. -/
theorem forall₂_zipIdx (g : Nat → α → β) :
    ∀ (xs : List α) (start : Nat),
      List.Forall₂ (fun x y => ∃ i, y = g i x) xs ((xs.zipIdx start).map fun p => g p.2 p.1)
  | [], _ => .nil
  | x :: xs, start => by
      rw [List.zipIdx_cons, List.map_cons]
      exact .cons ⟨start, rfl⟩ (forall₂_zipIdx g xs (start + 1))

/-- The results of a pass stand beside the items that they come from. -/
theorem forall₂_of_mapFrom {f : Nat → α → Except Fault β} :
    ∀ {xs : List α} {ys : List β} {start : Nat}, mapFrom f start xs = .ok ys →
      List.Forall₂ (fun x y => ∃ i, f i x = .ok y) xs ys
  | [], ys, start, h => by
      simp only [mapFrom, Except.ok.injEq] at h
      subst h
      exact .nil
  | x :: xs, ys, start, h => by
      simp only [mapFrom, bind_eq_ok, pure_eq_ok] at h
      obtain ⟨y, hy, rest, hrest, rfl⟩ := h
      exact .cons ⟨start, hy⟩ (forall₂_of_mapFrom hrest)

/-- The results of a pass stand beside the items and their positions. -/
theorem forall₂_zipIdx_of_mapFrom {f : Nat → α → Except Fault β} {xs : List α}
    {ys : List β} {start : Nat} (h : mapFrom f start xs = .ok ys) :
    List.Forall₂ (fun p y => f p.2 p.1 = .ok y) (xs.zipIdx start) ys := by
  induction xs generalizing start ys with
  | nil =>
      obtain rfl := Except.ok.inj h
      exact .nil
  | cons x xs ih =>
      simp only [mapFrom, bind_eq_ok, pure_eq_ok] at h
      obtain ⟨y, hy, rest, hrest, rfl⟩ := h
      exact .cons hy (ih hrest)

/-- Positions on one side are positions on both. -/
theorem forall₂_zipIdx_zipIdx {R : α × Nat → β → Prop} {xs : List α} {ys : List β}
    {start : Nat} (h : List.Forall₂ R (xs.zipIdx start) ys) :
    List.Forall₂ (fun p q => p.2 = q.2 ∧ R p q.1) (xs.zipIdx start) (ys.zipIdx start) := by
  induction xs generalizing start ys with
  | nil =>
      cases h
      exact .nil
  | cons x xs ih => cases h with
    | cons hxy hrest => exact .cons ⟨rfl, hxy⟩ (ih hrest)

theorem forall₂_map_eq {γ : Type} {f : α → γ} {g : β → γ} {xs : List α} {ys : List β}
    (h : List.Forall₂ (fun x y => f x = g y) xs ys) : xs.map f = ys.map g := by
  induction h with
  | nil => rfl
  | cons hxy _ ih => rw [List.map_cons, List.map_cons, hxy, ih]

/-- Related items give the same at every position. -/
theorem zipIdx_map_eq_of_forall₂ {γ : Type} {R : α → β → Prop} {f : α → Nat → γ} {g : β → Nat → γ}
    {xs : List α} {ys : List β} (h : List.Forall₂ R xs ys)
    (hfg : ∀ x y, R x y → ∀ i, g y i = f x i) (start : Nat) :
    ((ys.zipIdx start).map fun p => g p.1 p.2) = (xs.zipIdx start).map fun p => f p.1 p.2 := by
  induction h generalizing start with
  | nil => rfl
  | cons hxy _ ih =>
      rw [List.zipIdx_cons, List.zipIdx_cons, List.map_cons, List.map_cons, ih, hfg _ _ hxy]

theorem forall₂_imp_of_mem {P : α → Prop} {R S : α → β → Prop} {xs : List α} {ys : List β}
    (h : List.Forall₂ R xs ys) (hP : ∀ x ∈ xs, P x) (hS : ∀ x y, P x → R x y → S x y) :
    List.Forall₂ S xs ys :=
  ((List.forall₂_and_left _ _).mpr ⟨hP, h⟩).imp fun x y hxy => hS x y hxy.1 hxy.2

theorem forall₂_trans {γ : Type} {R : α → β → Prop} {S : β → γ → Prop} {T : α → γ → Prop}
    {xs : List α} {ys : List β} {zs : List γ} (h : List.Forall₂ R xs ys)
    (hz : List.Forall₂ S ys zs) (hT : ∀ a b c, R a b → S b c → T a c) : List.Forall₂ T xs zs := by
  induction h generalizing zs with
  | nil =>
      cases hz
      exact .nil
  | cons hab _ ih => cases hz with
    | cons hbc hrest => exact .cons (hT _ _ _ hab hbc) (ih hrest)

theorem isEmpty_eq_of_forall₂ {R : α → β → Prop} {xs : List α} {ys : List β}
    (h : List.Forall₂ R xs ys) : xs.isEmpty = ys.isEmpty := by
  cases h <;> rfl

theorem getElem?_of_forall₂ {R : α → β → Prop} {xs : List α} {ys : List β}
    (h : List.Forall₂ R xs ys) (i : Nat) : Option.Rel R xs[i]? ys[i]? := by
  induction h generalizing i with
  | nil => exact .none
  | cons hxy _ ih => cases i with
    | zero => exact .some hxy
    | succ i => exact ih i

theorem exists_getElem?_of_forall₂ {R : α → β → Prop} {xs : List α} {ys : List β} {i : Nat} {x : α}
    (h : List.Forall₂ R xs ys) (hx : xs[i]? = some x) : ∃ y, ys[i]? = some y ∧ R x y := by
  have hi := getElem?_of_forall₂ h i
  rw [hx] at hi
  generalize ys[i]? = y? at hi ⊢
  cases hi with
  | some hxy => exact ⟨_, rfl, hxy⟩

theorem forall₂_of_getElem? {R : α → β → Prop} {xs : List α} {ys : List β}
    (hlength : xs.length = ys.length)
    (h : ∀ (i : Nat) x y, xs[i]? = some x → ys[i]? = some y → R x y) : List.Forall₂ R xs ys :=
  List.forall₂_iff_get.mpr ⟨hlength, fun i _ _ => h i _ _ (by simp) (by simp)⟩

theorem exists_left_of_forall₂ {R : α → β → Prop} {xs : List α} {ys : List β} {y : β}
    (h : List.Forall₂ R xs ys) (hy : y ∈ ys) : ∃ x ∈ xs, R x y := by
  induction h with
  | nil => simp at hy
  | @cons x z xs zs hz _ ih =>
      rcases List.mem_cons.mp hy with rfl | hy
      · exact ⟨x, List.mem_cons_self, hz⟩
      · obtain ⟨w, hw, hR⟩ := ih hy
        exact ⟨w, List.mem_cons_of_mem _ hw, hR⟩

theorem exists_right_of_forall₂ {R : α → β → Prop} {xs : List α} {ys : List β} {x : α}
    (h : List.Forall₂ R xs ys) (hx : x ∈ xs) : ∃ y ∈ ys, R x y :=
  exists_left_of_forall₂ h.flip hx

/-- What says of related items that something else relates them says it of the lists. -/
theorem forall₂_iff_of_forall₂ {R S : α → β → Prop} {P : α → Prop} {xs : List α} {ys : List β}
    (h : List.Forall₂ R xs ys) (hS : ∀ x y, R x y → (S x y ↔ P x)) :
    List.Forall₂ S xs ys ↔ ∀ x ∈ xs, P x := by
  induction h with
  | nil => simp
  | cons hxy _ ih => rw [List.forall₂_cons, List.forall_mem_cons, ih, hS _ _ hxy]

/-- If only one of some lists has items that pass, all of them are there. -/
theorem countP_flatten_of_unique {p : α → Bool} {xss : List (List α)} {xs : List α} {i : Nat}
    (hi : xss[i]? = some xs) (h : ∀ j ys, j ≠ i → xss[j]? = some ys → ys.countP p = 0) :
    xss.flatten.countP p = xs.countP p := by
  induction xss generalizing i with
  | nil => simp at hi
  | cons ys yss ih =>
      rw [List.flatten_cons, List.countP_append]
      cases i with
      | zero =>
          obtain rfl : ys = xs := by simpa using hi
          have hrest : yss.flatten.countP p = 0 := by
            rw [List.countP_flatten, List.sum_eq_zero_iff_forall_eq_nat, List.forall_mem_map]
            intro zs hzs
            obtain ⟨j, hj⟩ := List.mem_iff_getElem?.mp hzs
            exact h (j + 1) zs (by simp) hj
          rw [hrest, Nat.add_zero]
      | succ i =>
          rw [ih hi fun j zs hj => h (j + 1) zs (by simpa using hj), h 0 ys (by simp) rfl,
            Nat.zero_add]

theorem exists_of_mem_mapFrom {f : Nat → α → Except Fault β} {xs : List α} {ys : List β}
    {start : Nat} {y : β} (h : mapFrom f start xs = .ok ys) (hy : y ∈ ys) :
    ∃ x ∈ xs, ∃ i, f i x = .ok y :=
  exists_left_of_forall₂ (forall₂_of_mapFrom h) hy

/-- A search that stops at an item found nothing in front of it. -/
theorem firstOf?_eq_some {test : α → Except Fault Bool} {x : α} :
    ∀ {xs : List α}, firstOf? test xs = .ok (some x) →
      ∃ front rest, xs = front ++ x :: rest ∧ test x = .ok true ∧
        ∀ y ∈ front, test y = .ok false
  | [], h => by simp [firstOf?] at h
  | y :: ys, h => by
      simp only [firstOf?, bind_eq_ok] at h
      obtain ⟨passes, hy, h⟩ := h
      cases passes with
      | true =>
          simp only [if_true, pure_eq_ok, Option.some.injEq] at h
          subst h
          exact ⟨[], ys, rfl, hy, by simp⟩
      | false =>
          obtain ⟨front, rest, rfl, hx, hfront⟩ := firstOf?_eq_some (by simpa using h)
          refine ⟨y :: front, rest, rfl, hx, ?_⟩
          intro z hz
          rcases List.mem_cons.mp hz with rfl | hz
          · exact hy
          · exact hfront z hz

/-- A search that ends without an item looked at all of them. -/
theorem firstOf?_eq_none {test : α → Except Fault Bool} :
    ∀ {xs : List α}, firstOf? test xs = .ok none → ∀ x ∈ xs, test x = .ok false
  | [], _, x, hx => by simp at hx
  | y :: ys, h, x, hx => by
      simp only [firstOf?, bind_eq_ok] at h
      obtain ⟨passes, hy, h⟩ := h
      cases passes with
      | true => simp at h
      | false =>
          rcases List.mem_cons.mp hx with rfl | hx
          · exact hy
          · exact firstOf?_eq_none (by simpa using h) x hx

theorem exists_of_anyOf {test : α → Except Fault Bool} :
    ∀ {xs : List α}, anyOf test xs = .ok true → ∃ x ∈ xs, test x = .ok true
  | [], h => by simp [anyOf] at h
  | y :: ys, h => by
      simp only [anyOf, bind_eq_ok] at h
      obtain ⟨passes, hy, h⟩ := h
      cases passes with
      | true => exact ⟨y, List.mem_cons_self, hy⟩
      | false =>
          obtain ⟨x, hx, hp⟩ := exists_of_anyOf (by simpa using h)
          exact ⟨x, List.mem_cons_of_mem _ hx, hp⟩

/-- A search for some item that ends without one looked at all of them. -/
theorem forall_of_anyOf {test : α → Except Fault Bool} {xs : List α}
    (h : anyOf test xs = .ok false) : ∀ x ∈ xs, test x = .ok false := by
  induction xs with
  | nil => simp
  | cons y ys ih =>
      simp only [anyOf, bind_eq_ok] at h
      obtain ⟨passes, hy, h⟩ := h
      cases passes with
      | true => simp at h
      | false => exact List.forall_mem_cons.mpr ⟨hy, ih (by simpa using h)⟩

theorem anyOf_iff {test : α → Except Fault Bool} {xs : List α} {b : Bool}
    (h : anyOf test xs = .ok b) : b = true ↔ ∃ x ∈ xs, test x = .ok true := by
  cases b with
  | true => exact iff_of_true rfl (exists_of_anyOf h)
  | false =>
      refine iff_of_false (by simp) ?_
      rintro ⟨x, hx, hpasses⟩
      rw [forall_of_anyOf h x hx] at hpasses
      simp at hpasses

theorem keep_congr {test other : α → Except Fault Bool} :
    ∀ {xs : List α}, (∀ x ∈ xs, test x = other x) → keep test xs = keep other xs
  | [], _ => rfl
  | x :: xs, h => by
      have ih : keep test xs = keep other xs :=
        keep_congr fun y hy => h y (List.mem_cons_of_mem _ hy)
      rw [keep, keep, ih, h x List.mem_cons_self]

/-- What is kept of some of the items is the part of what is kept of all. -/
theorem keep_filter {test : α → Except Fault Bool} (p : α → Bool) :
    ∀ {xs ys : List α}, keep test xs = .ok ys → keep test (xs.filter p) = .ok (ys.filter p)
  | [], ys, h => by
      obtain rfl := Except.ok.inj h
      rfl
  | x :: xs, ys, h => by
      simp only [keep, bind_eq_ok, pure_eq_ok] at h
      obtain ⟨passes, hx, rest, hrest, rfl⟩ := h
      have ih : keep test (xs.filter p) = .ok (rest.filter p) := keep_filter p hrest
      cases hp : p x with
      | true =>
          rw [List.filter_cons_of_pos hp, keep, hx, ih]
          cases passes with
          | true => simp [hp]
          | false => simp
      | false =>
          rw [List.filter_cons_of_neg (by simp [hp]), ih]
          cases passes with
          | true => simp [hp]
          | false => simp

/-- What is kept are the items that pass. -/
theorem mem_of_keep {test : α → Except Fault Bool} {x : α} :
    ∀ {xs ys : List α}, keep test xs = .ok ys → (x ∈ ys ↔ x ∈ xs ∧ test x = .ok true)
  | [], ys, h => by
      simp only [keep, Except.ok.injEq] at h
      subst h
      simp
  | z :: zs, ys, h => by
      simp only [keep, bind_eq_ok, pure_eq_ok] at h
      obtain ⟨passes, hz, rest, hrest, rfl⟩ := h
      have ih := mem_of_keep (x := x) hrest
      cases passes with
      | true =>
          simp only [if_true, List.mem_cons, ih]
          constructor
          · rintro (rfl | ⟨hx, hp⟩)
            · exact ⟨Or.inl rfl, hz⟩
            · exact ⟨Or.inr hx, hp⟩
          · rintro ⟨rfl | hx, hp⟩
            · exact Or.inl rfl
            · exact Or.inr ⟨hx, hp⟩
      | false =>
          simp only [Bool.false_eq_true, if_false, List.mem_cons, ih]
          constructor
          · rintro ⟨hx, hp⟩
            exact ⟨Or.inr hx, hp⟩
          · rintro ⟨rfl | hx, hp⟩
            · rw [hz] at hp
              simp at hp
            · exact ⟨hx, hp⟩

/-- What is kept are the items that pass, in order. -/
theorem keep_eq_those {test : α → Except Fault Bool} {xs ys : List α}
    (h : keep test xs = .ok ys) : ys = those (fun x => test x = .ok true) xs := by
  induction xs generalizing ys with
  | nil => exact (Except.ok.inj h).symm
  | cons x xs ih =>
      simp only [keep, bind_eq_ok, pure_eq_ok] at h
      obtain ⟨passes, hx, rest, hrest, rfl⟩ := h
      cases passes with
      | true =>
          rw [those_cons_of_pos (P := fun x => test x = .ok true) hx, ih hrest]
          rfl
      | false =>
          rw [those_cons_of_neg (by simp [hx]), ih hrest]
          rfl

/-- The test failed for none of the items that something was kept of. -/
theorem test_of_keep [DecidableEq α] {test : α → Except Fault Bool} {xs ys : List α} {x : α}
    (h : keep test xs = .ok ys) (hx : x ∈ xs) : test x = .ok (decide (x ∈ ys)) := by
  have hpasses : ∃ passes, test x = .ok passes := by
    induction xs generalizing ys with
    | nil => cases hx
    | cons y xs ih =>
        simp only [keep, bind_eq_ok] at h
        obtain ⟨passes, hy, rest, hrest, -⟩ := h
        rcases List.mem_cons.mp hx with rfl | hx
        · exact ⟨passes, hy⟩
        · exact ih hrest hx
  obtain ⟨passes, hpasses⟩ := hpasses
  have hmem : x ∈ ys ↔ passes = true := by
    rw [mem_of_keep h, hpasses, Except.ok.injEq]
    exact and_iff_right hx
  cases passes with
  | true => rw [hpasses, decide_eq_true (hmem.mpr rfl)]
  | false => rw [hpasses, decide_eq_false (by simp [hmem])]

/-- A test that fails for no item can be put into a function. -/
theorem exists_passes_of_forall {test : α → Except Fault Bool} {xs : List α}
    (h : ∀ x ∈ xs, ∃ b, test x = .ok b) : ∃ p : α → Bool, ∀ x ∈ xs, test x = .ok (p x) := by
  refine ⟨fun x => decide (test x = .ok true), fun x hx => ?_⟩
  obtain ⟨b, hb⟩ := h x hx
  cases b <;> simp [hb]

section Total

variable {test : α → Except Fault Bool} {p : α → Bool} {xs : List α}

theorem keep_eq_filter (h : ∀ x ∈ xs, test x = .ok (p x)) : keep test xs = .ok (xs.filter p) := by
  induction xs with
  | nil => rfl
  | cons x xs ih =>
      obtain ⟨hx, hxs⟩ := List.forall_mem_cons.mp h
      rw [keep, hx, ih hxs, List.filter_cons]
      rfl

theorem anyOf_eq_any (h : ∀ x ∈ xs, test x = .ok (p x)) : anyOf test xs = .ok (xs.any p) := by
  induction xs with
  | nil => rfl
  | cons x xs ih =>
      obtain ⟨hx, hxs⟩ := List.forall_mem_cons.mp h
      rw [anyOf, hx, ih hxs, List.any_cons]
      cases p x <;> rfl

theorem firstOf?_eq_find? (h : ∀ x ∈ xs, test x = .ok (p x)) :
    firstOf? test xs = .ok (xs.find? p) := by
  induction xs with
  | nil => rfl
  | cons x xs ih =>
      obtain ⟨hx, hxs⟩ := List.forall_mem_cons.mp h
      rw [firstOf?, hx, ih hxs, List.find?_cons]
      cases p x <;> rfl

end Total

end ConditionalForms
