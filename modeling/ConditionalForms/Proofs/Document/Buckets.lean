import ConditionalForms.Document.Load
import Mathlib.Data.List.Nodup
import Mathlib.Data.List.Perm.Basic

/-!
# Sorting by buckets

Records without steps are put into buckets by their order numbers.  The buckets are sorted, and so
are the records in each of them, apart from those in the others.  Altogether this is one stable sort
of all records, cut where one bucket ends and the next begins; and there is but one way to cut it.

**Definitions.**
* `IsStableSort`: a list in ascending order of keys, and in its old order among equal ones.
* `Flat.IsBucketing`: the buckets of some records.

**Results.**
* `IsStableSort.unique`: there is one stable sort.
* `Flat.isBucketing_sortedBuckets`: sorting bucket by bucket is a stable sort of all records.
* `Flat.IsBucketing.unique`: there is one way to put records into buckets.
-/

namespace ConditionalForms

/-- The second list has the items of the first one in ascending order of their keys.  Items with one
key stay in the order in which they were. -/
structure IsStableSort {α : Type} (key : α → Int) (xs ys : List α) : Prop where
  perm : ys.Perm xs
  sorted : ys.Pairwise fun x y => key x ≤ key y
  stable : ∀ k, (ys.filter fun x => key x = k) = xs.filter fun x => key x = k

section StableSort

variable {α β : Type} {key : α → Int} {xs ys zs : List α}

/-- The items with every key are all items. -/
theorem perm_of_filter_eq
    (h : ∀ k, (ys.filter fun x => key x = k) = xs.filter fun x => key x = k) : ys.Perm xs := by
  classical
  rw [List.perm_iff_count]
  intro x
  have hcount := congrArg (List.count x) (h (key x))
  rwa [List.count_filter (by simp), List.count_filter (by simp)] at hcount

theorem key_trans (key : α → Int) (x y z : α) (hxy : decide (key x ≤ key y) = true)
    (hyz : decide (key y ≤ key z) = true) : decide (key x ≤ key z) = true := by
  simp only [decide_eq_true_eq] at *
  omega

theorem key_total (key : α → Int) (x y : α) :
    (decide (key x ≤ key y) || decide (key y ≤ key x)) = true := by
  simp only [Bool.or_eq_true, decide_eq_true_eq]
  omega

theorem pairwise_mergeSort_key (key : α → Int) (xs : List α) :
    (xs.mergeSort fun x y => decide (key x ≤ key y)).Pairwise fun x y => key x ≤ key y :=
  (List.pairwise_mergeSort (key_trans key) (key_total key) xs).imp of_decide_eq_true

/-- Sorting keeps the order of the items with a key. -/
theorem filter_mergeSort (key : α → Int) (xs : List α) (k : Int) :
    ((xs.mergeSort fun x y => decide (key x ≤ key y)).filter fun x => key x = k) =
      xs.filter fun x => key x = k := by
  have hone : (xs.filter fun x => key x = k).Pairwise fun x y => decide (key x ≤ key y) = true := by
    refine List.Pairwise.imp_of_mem ?_ (List.pairwise_of_forall fun _ _ => trivial)
    intro x y hx hy _
    simp only [List.mem_filter, decide_eq_true_eq] at *
    omega
  have hsublist := (List.sublist_mergeSort (key_trans key) (key_total key) hone
    List.filter_sublist).filter fun x => key x = k
  simp only [List.filter_filter, Bool.and_self] at hsublist
  exact (hsublist.eq_of_length ((List.mergeSort_perm xs _).filter _).length_eq.symm).symm

/-- A list in ascending order is determined by its items with each key. -/
theorem eq_of_filter_eq (hys : ys.Pairwise fun x y => key x ≤ key y)
    (hzs : zs.Pairwise fun x y => key x ≤ key y)
    (h : ∀ k, (ys.filter fun x => key x = k) = zs.filter fun x => key x = k) : ys = zs := by
  induction ys generalizing zs with
  | nil => exact (perm_of_filter_eq h).nil_eq
  | cons y ys ih => cases zs with
    | nil => exact (perm_of_filter_eq h).eq_nil
    | cons z zs =>
        obtain ⟨hy, hys_tail⟩ := List.pairwise_cons.mp hys
        obtain ⟨hz, hzs_tail⟩ := List.pairwise_cons.mp hzs
        have hmem := fun x => (perm_of_filter_eq h).mem_iff (a := x)
        have hzy : key z ≤ key y := by
          rcases List.mem_cons.mp ((hmem y).mp List.mem_cons_self) with rfl | hmem
          · exact Int.le_refl _
          · exact hz y hmem
        have hyz : key y ≤ key z := by
          rcases List.mem_cons.mp ((hmem z).mpr List.mem_cons_self) with rfl | hmem
          · exact Int.le_refl _
          · exact hy z hmem
        have hheads := h (key y)
        rw [List.filter_cons_of_pos (by simp), List.filter_cons_of_pos (by simp; omega)] at hheads
        obtain ⟨rfl, -⟩ := List.cons.inj hheads
        refine congrArg (List.cons y) (ih hys_tail hzs_tail fun k => ?_)
        by_cases hk : key y = k
        · simpa [hk] using h k
        · simpa [hk] using h k

namespace IsStableSort

/-- There is one stable sort. -/
theorem unique (hys : IsStableSort key xs ys) (hzs : IsStableSort key xs zs) : ys = zs :=
  eq_of_filter_eq hys.sorted hzs.sorted fun k => (hys.stable k).trans (hzs.stable k).symm

theorem of_filter (hsorted : ys.Pairwise fun x y => key x ≤ key y)
    (h : ∀ k, (ys.filter fun x => key x = k) = xs.filter fun x => key x = k) :
    IsStableSort key xs ys :=
  ⟨perm_of_filter_eq h, hsorted, h⟩

theorem of_sorted (h : xs.Pairwise fun x y => key x ≤ key y) : IsStableSort key xs xs :=
  of_filter h fun _ => rfl

/-- Only the keys of the items count. -/
theorem congr {other : α → Int} (h : IsStableSort key xs ys) (hkey : ∀ x ∈ ys, key x = other x) :
    IsStableSort other xs ys where
  perm := h.perm
  sorted := h.sorted.imp_of_mem fun hx hy hxy => by rwa [← hkey _ hx, ← hkey _ hy]
  stable k := by
    have hys : ∀ x ∈ ys, decide (key x = k) = decide (other x = k) := fun x hx => by rw [hkey x hx]
    have hxs : ∀ x ∈ xs, decide (key x = k) = decide (other x = k) := fun x hx =>
      hys x (h.perm.mem_iff.mpr hx)
    rw [← List.filter_congr hys, ← List.filter_congr hxs, h.stable k]

theorem map {f : β → α} {us vs : List β} (h : IsStableSort (fun u => key (f u)) us vs) :
    IsStableSort key (us.map f) (vs.map f) where
  perm := h.perm.map f
  sorted := List.pairwise_map.mpr h.sorted
  stable k := by
    rw [List.filter_map, List.filter_map]
    exact congrArg (List.map f) (h.stable k)

end IsStableSort

end StableSort

namespace Flat

/-- Different buckets in ascending order, none of them empty. -/
structure IsCut (groups : List (Int × List (Int × Record))) : Prop where
  ascending : groups.Pairwise fun g h => g.1 < h.1
  nonempty : ∀ g ∈ groups, g.2 ≠ []
  bucket : ∀ g ∈ groups, ∀ x ∈ g.2, bucketOf x.1 = g.1

/-- The buckets of some numbered records: altogether they hold the records stably sorted by their
numbers. -/
structure IsBucketing (xs : List (Int × Record)) (groups : List (Int × List (Int × Record))) :
    Prop extends IsCut groups where
  sort : IsStableSort Prod.fst xs (groups.flatMap Prod.snd)

/-- The buckets that some records are collected in. -/
structure Collects (xs : List (Int × Record)) (groups : List (Int × List (Int × Record))) :
    Prop where
  distinct : (groups.map Prod.fst).Nodup
  nonempty : ∀ g ∈ groups, g.2 ≠ []
  items : ∀ g ∈ groups, g.2 = xs.filter fun x => bucketOf x.1 = g.1
  covered : ∀ x ∈ xs, bucketOf x.1 ∈ groups.map Prod.fst

section Collect

variable {x : Int × Record} {xs : List (Int × Record)} {groups : List (Int × List (Int × Record))}
  {g : Int × List (Int × Record)}

theorem mem_keys_addToBucket {b : Int} :
    b ∈ (addToBucket x groups).map Prod.fst ↔ b = bucketOf x.1 ∨ b ∈ groups.map Prod.fst := by
  induction groups with
  | nil => simp [addToBucket]
  | cons g groups ih =>
      rw [addToBucket]
      split
      · rename_i hb
        simp [hb]
      · rw [List.map_cons, List.mem_cons, ih, List.map_cons, List.mem_cons]
        tauto

theorem nodup_keys_addToBucket (h : (groups.map Prod.fst).Nodup) :
    ((addToBucket x groups).map Prod.fst).Nodup := by
  induction groups with
  | nil => simp [addToBucket]
  | cons g groups ih =>
      rw [addToBucket]
      split
      · exact h
      · rename_i hb
        obtain ⟨hg, hgroups⟩ := List.nodup_cons.mp h
        refine List.nodup_cons.mpr ⟨?_, ih hgroups⟩
        rw [mem_keys_addToBucket]
        rintro (heq | hmem)
        · exact hb heq.symm
        · exact hg hmem

/-- Only the bucket of the record changes. -/
theorem mem_addToBucket (h : (groups.map Prod.fst).Nodup) (hg : g ∈ addToBucket x groups) :
    g ∈ groups ∧ g.1 ≠ bucketOf x.1 ∨
      g = (bucketOf x.1, [x]) ∧ bucketOf x.1 ∉ groups.map Prod.fst ∨
      ∃ xs, (bucketOf x.1, xs) ∈ groups ∧ g = (bucketOf x.1, xs ++ [x]) := by
  induction groups with
  | nil =>
      obtain rfl := List.mem_singleton.mp hg
      exact Or.inr (Or.inl ⟨rfl, by simp⟩)
  | cons g' groups ih =>
      obtain ⟨hkey, hgroups⟩ := List.nodup_cons.mp h
      rw [addToBucket] at hg
      split at hg
      · rename_i hb
        rcases List.mem_cons.mp hg with rfl | hg
        · exact Or.inr (Or.inr ⟨g'.2, by simp [hb], by rw [hb]⟩)
        · refine Or.inl ⟨List.mem_cons_of_mem _ hg, fun heq => hkey ?_⟩
          rw [← hb, ← heq]
          exact List.mem_map_of_mem hg
      · rename_i hb
        rcases List.mem_cons.mp hg with rfl | hg
        · exact Or.inl ⟨List.mem_cons_self, Ne.symm hb⟩
        · rcases ih hgroups hg with ⟨hmem, hne⟩ | ⟨rfl, hnew⟩ | ⟨xs, hxs, rfl⟩
          · exact Or.inl ⟨List.mem_cons_of_mem _ hmem, hne⟩
          · exact Or.inr (Or.inl ⟨rfl, by simpa [hb] using hnew⟩)
          · exact Or.inr (Or.inr ⟨xs, List.mem_cons_of_mem _ hxs, rfl⟩)

/-- One more record is collected. -/
theorem Collects.addToBucket (h : Collects xs groups) (x : Int × Record) :
    Collects (xs ++ [x]) (addToBucket x groups) where
  distinct := nodup_keys_addToBucket h.distinct
  nonempty g hg := by
    rcases mem_addToBucket h.distinct hg with ⟨hmem, -⟩ | ⟨rfl, -⟩ | ⟨ys, -, rfl⟩
    · exact h.nonempty g hmem
    · simp
    · simp
  items g hg := by
    rw [List.filter_append]
    rcases mem_addToBucket h.distinct hg with ⟨hmem, hne⟩ | ⟨rfl, hnew⟩ | ⟨ys, hys, rfl⟩
    · rw [← h.items g hmem, List.filter_cons_of_neg (by simpa using hne.symm), List.filter_nil,
        List.append_nil]
    · have hnone : (xs.filter fun y => bucketOf y.1 = bucketOf x.1) = [] := by
        rw [List.filter_eq_nil_iff]
        intro y hy heq
        simp only [decide_eq_true_eq] at heq
        exact hnew (heq ▸ h.covered y hy)
      simp [hnone]
    · simp [← h.items _ hys]
  covered y hy := by
    rw [mem_keys_addToBucket]
    rcases List.mem_append.mp hy with hy | hy
    · exact Or.inr (h.covered y hy)
    · rw [List.mem_singleton.mp hy]
      exact Or.inl rfl

/-- Some more records are collected. -/
theorem Collects.foldl (h : Collects xs groups) (ys : List (Int × Record)) :
    Collects (xs ++ ys) (ys.foldl (fun groups y => Flat.addToBucket y groups) groups) := by
  induction ys generalizing xs groups with
  | nil => rwa [List.append_nil]
  | cons y ys ih =>
      have hrest := ih (h.addToBucket y)
      rwa [List.append_assoc, List.singleton_append] at hrest

theorem collects_collectBuckets (xs : List (Int × Record)) : Collects xs (collectBuckets xs) := by
  have hnone : Collects [] [] := ⟨.nil, nofun, nofun, nofun⟩
  exact hnone.foldl xs

/-- What comes from one bucket only comes from all of them. -/
theorem flatMap_eq_of_key {α : Type} {f : Int × List (Int × Record) → List α}
    (h : (groups.map Prod.fst).Nodup) (hg : g ∈ groups)
    (hf : ∀ g' ∈ groups, g'.1 ≠ g.1 → f g' = []) : groups.flatMap f = f g := by
  induction groups with
  | nil => simp at hg
  | cons g' groups ih =>
      obtain ⟨hkey, hgroups⟩ := List.nodup_cons.mp h
      obtain ⟨hf', hrest⟩ := List.forall_mem_cons.mp hf
      rw [List.flatMap_cons]
      rcases List.mem_cons.mp hg with rfl | hg
      · have hnone : groups.flatMap f = [] := by
          rw [List.flatMap_eq_nil_iff]
          intro g' hg'
          refine hrest g' hg' fun heq => hkey ?_
          rw [← heq]
          exact List.mem_map_of_mem hg'
        rw [hnone, List.append_nil]
      · rw [hf' fun heq => hkey ?_, ih hgroups hg hrest, List.nil_append]
        rw [heq]
        exact List.mem_map_of_mem hg

end Collect

theorem lt_of_bucketOf_lt {m n : Int} (h : bucketOf m < bucketOf n) : m < n := by
  simp only [bucketOf, orderStride] at h
  omega

section Sorted

variable {xs : List (Int × Record)} {groups : List (Int × List (Int × Record))}

/-- A number is found in its own bucket only. -/
theorem Collects.filter_number (h : Collects xs groups) (k : Int) {g : Int × List (Int × Record)}
    (hg : g ∈ groups) :
    (g.2.filter fun x => x.1 = k) =
      if g.1 = bucketOf k then xs.filter fun x => x.1 = k else [] := by
  rw [h.items g hg, List.filter_filter]
  split
  · rename_i hk
    refine List.filter_congr fun x _ => ?_
    by_cases hx : x.1 = k
    · simp [hx, hk]
    · simp [hx]
  · rename_i hk
    rw [List.filter_eq_nil_iff]
    intro x _ hx
    simp only [Bool.and_eq_true, decide_eq_true_eq] at hx
    obtain ⟨rfl, hx⟩ := hx
    exact hk hx.symm

theorem Collects.flatMap_filter_number (h : Collects xs groups) (k : Int) :
    (groups.flatMap fun g => g.2.filter fun x => x.1 = k) = xs.filter fun x => x.1 = k := by
  by_cases hk : bucketOf k ∈ groups.map Prod.fst
  · obtain ⟨g, hg, hgk⟩ := List.mem_map.mp hk
    rw [flatMap_eq_of_key h.distinct hg, h.filter_number k hg, if_pos hgk]
    intro g' hg' hne
    rw [h.filter_number k hg', if_neg (hgk ▸ hne)]
  · have hnone : (xs.filter fun x => x.1 = k) = [] := by
      rw [List.filter_eq_nil_iff]
      intro x hx heq
      rw [← of_decide_eq_true heq] at hk
      exact hk (h.covered x hx)
    rw [hnone, List.flatMap_eq_nil_iff]
    intro g hg
    rw [h.filter_number k hg, hnone, ite_self]

/-- The buckets in ascending order, each of them sorted. -/
theorem Collects.isBucketing (h : Collects xs groups)
    (hsorted : groups.Pairwise fun g g' => g.1 ≤ g'.1) :
    IsBucketing xs (groups.map fun g => (g.1, g.2.mergeSort fun x y => decide (x.1 ≤ y.1))) := by
  have hbucket : ∀ g ∈ groups, ∀ x ∈ g.2.mergeSort fun x y => decide (x.1 ≤ y.1),
      bucketOf x.1 = g.1 := by
    intro g hg x hx
    rw [List.mem_mergeSort, h.items g hg, List.mem_filter] at hx
    exact of_decide_eq_true hx.2
  have hascending : groups.Pairwise fun g g' => g.1 < g'.1 := by
    have hdistinct : groups.Pairwise fun g g' => g.1 ≠ g'.1 := List.pairwise_map.mp h.distinct
    refine (hsorted.and hdistinct).imp fun hg => ?_
    omega
  refine ⟨⟨List.pairwise_map.mpr hascending, ?_, List.forall_mem_map.mpr hbucket⟩, ?_⟩
  · refine List.forall_mem_map.mpr fun g hg hnil => h.nonempty g hg ?_
    have hlength := congrArg List.length hnil
    rw [List.length_mergeSort] at hlength
    exact List.length_eq_zero_iff.mp hlength
  · rw [List.flatMap_map]
    refine .of_filter (List.pairwise_flatMap.mpr ⟨?_, hascending.imp_of_mem ?_⟩) fun k => ?_
    · exact fun g _ => pairwise_mergeSort_key Prod.fst g.2
    · intro g g' hg hg' hlt x hx y hy
      rw [← hbucket g hg x hx, ← hbucket g' hg' y hy] at hlt
      exact Int.le_of_lt (lt_of_bucketOf_lt hlt)
    · rw [List.filter_flatMap, ← h.flatMap_filter_number k]
      exact congrArg (groups.flatMap ·) (funext fun g => filter_mergeSort Prod.fst g.2 k)

/-- Collecting records in buckets, sorting the buckets and sorting each of them is to sort all
records stably and to cut the result where a bucket ends. -/
theorem isBucketing_sortedBuckets (xs : List (Int × Record)) :
    IsBucketing xs (sortedBuckets xs) := by
  have hperm := List.mergeSort_perm (collectBuckets xs) fun g h => decide (g.1 ≤ h.1)
  have hcollects := collects_collectBuckets xs
  have hsorted : Collects xs ((collectBuckets xs).mergeSort fun g h => decide (g.1 ≤ h.1)) := {
    distinct := (hperm.map Prod.fst).symm.nodup hcollects.distinct
    nonempty := fun g hg => hcollects.nonempty g (hperm.mem_iff.mp hg)
    items := fun g hg => hcollects.items g (hperm.mem_iff.mp hg)
    covered := fun x hx => (hperm.map Prod.fst).mem_iff.mpr (hcollects.covered x hx) }
  exact hsorted.isBucketing (pairwise_mergeSort_key Prod.fst _)

theorem IsCut.of_cons {g : Int × List (Int × Record)} (h : IsCut (g :: groups)) : IsCut groups :=
  ⟨h.ascending.of_cons, fun g' hg' => h.nonempty g' (List.mem_cons_of_mem _ hg'),
    fun g' hg' => h.bucket g' (List.mem_cons_of_mem _ hg')⟩

/-- The first bucket has all records that belong into it. -/
theorem IsCut.filter_head {g : Int × List (Int × Record)} (h : IsCut (g :: groups)) :
    (((g :: groups).flatMap Prod.snd).filter fun x => bucketOf x.1 = g.1) = g.2 := by
  have hrest : ((groups.flatMap Prod.snd).filter fun x => bucketOf x.1 = g.1) = [] := by
    rw [List.filter_eq_nil_iff]
    intro x hx heq
    obtain ⟨g', hg', hxg⟩ := List.mem_flatMap.mp hx
    have hlt := List.rel_of_pairwise_cons h.ascending hg'
    rw [← h.bucket g' (List.mem_cons_of_mem _ hg') x hxg, of_decide_eq_true heq] at hlt
    exact Int.lt_irrefl _ hlt
  rw [List.flatMap_cons, List.filter_append, hrest, List.append_nil, List.filter_eq_self]
  intro x hx
  exact decide_eq_true (h.bucket g List.mem_cons_self x hx)

/-- There is one way to cut records into buckets. -/
theorem IsCut.eq_of_flatMap_eq {others : List (Int × List (Int × Record))} (h : IsCut groups)
    (hothers : IsCut others) (heq : groups.flatMap Prod.snd = others.flatMap Prod.snd) :
    groups = others := by
  induction groups generalizing others with
  | nil => cases others with
    | nil => rfl
    | cons o others =>
        have ho := (List.flatMap_eq_nil_iff.mp heq.symm) o List.mem_cons_self
        exact absurd ho (hothers.nonempty o List.mem_cons_self)
  | cons g groups ih => cases others with
    | nil =>
        have hg := (List.flatMap_eq_nil_iff.mp heq) g List.mem_cons_self
        exact absurd hg (h.nonempty g List.mem_cons_self)
    | cons o others =>
        obtain ⟨x, xs, hx⟩ := List.exists_cons_of_ne_nil (h.nonempty g List.mem_cons_self)
        obtain ⟨y, ys, hy⟩ := List.exists_cons_of_ne_nil (hothers.nonempty o List.mem_cons_self)
        have hfirst : g.1 = o.1 := by
          rw [← h.bucket g List.mem_cons_self x (by simp [hx]),
            ← hothers.bucket o List.mem_cons_self y (by simp [hy])]
          simp only [List.flatMap_cons, hx, hy, List.cons_append, List.cons.injEq] at heq
          rw [heq.1]
        have hsecond : g.2 = o.2 := by
          rw [← h.filter_head, ← hothers.filter_head, heq, hfirst]
        obtain rfl : g = o := Prod.ext hfirst hsecond
        rw [List.flatMap_cons, List.flatMap_cons, List.append_cancel_left_eq] at heq
        rw [ih h.of_cons hothers.of_cons heq]

/-- There is one way to put records into buckets. -/
theorem IsBucketing.unique {others : List (Int × List (Int × Record))} (h : IsBucketing xs groups)
    (hothers : IsBucketing xs others) : groups = others :=
  h.toIsCut.eq_of_flatMap_eq hothers.toIsCut (h.sort.unique hothers.sort)

/-- The buckets hold the records that they are made of. -/
theorem mem_of_mem_buckets {g : Int × List Record} {r : Record} (hg : g ∈ buckets xs)
    (hr : r ∈ g.2) : ∃ x ∈ xs, x.2 = r := by
  obtain ⟨sorted, hsorted, rfl⟩ := List.mem_map.mp hg
  obtain ⟨x, hx, rfl⟩ := List.mem_map.mp hr
  have hmem : x ∈ (sortedBuckets xs).flatMap Prod.snd := List.mem_flatMap.mpr ⟨sorted, hsorted, hx⟩
  exact ⟨x, (isBucketing_sortedBuckets xs).sort.perm.mem_iff.mp hmem, rfl⟩

end Sorted

end Flat

end ConditionalForms
