import ConditionalForms.Audit.Cycle
import Mathlib.Data.List.Chain
import Mathlib.Data.List.Nodup
import Mathlib.Data.List.Perm.Subperm
import Mathlib.Data.List.TakeWhile

/-!
# What the search for cycles finds

The search finds a cycle exactly if there is one.  A name that it has left leads only to names that
it has left, and none of these lies on a cycle; this holds again each time that a name is left, and
a name on the trail that is met again closes a cycle.  The trail never outgrows the edges, so that
the search is not cut short.

**Definitions.**
* `Edges.Leads`: there is an edge from the first name to the second.
* `Edges.IsCycle`: names with an edge from each to the next, the last of which is the first again.
* `Edges.Settled`: the names that were left lead to such names only and lie on no cycle.

**Results.**
* `Edges.explore_sound`: what one search from a name gives.
* `Edges.isCycle_of_findCycle?`: what is found is a cycle.
* `Edges.findCycle?_eq_none_iff`: nothing is found exactly if no name leads back to itself.
-/

namespace ConditionalForms
namespace Edges

open Relation (TransGen ReflTransGen)

variable {edges : Edges} {names trail seen : List String} {a b name : String} {fuel : Nat}

/-- There is an edge from the first name to the second. -/
def Leads (edges : Edges) (a b : String) : Prop := (a, b) ∈ edges

theorem mem_targets : b ∈ edges.targets a ↔ edges.Leads a b := by
  simp [targets, Leads]

theorem mem_sources_of_leads (h : edges.Leads a b) : a ∈ edges.sources := by
  rw [sources, List.mem_eraseDups]
  exact List.mem_map.mpr ⟨(a, b), h, rfl⟩

/-- Different names with an edge from each to the next, and from the last one to the first, which is
named again at the end. -/
inductive IsCycle (edges : Edges) : List String → Prop
  | mk {v : String} {vs : List String} (distinct : (v :: vs).Nodup)
      (chain : List.IsChain edges.Leads (v :: vs ++ [v])) : IsCycle edges (v :: vs ++ [v])

/-- A name on a cycle leads back to itself. -/
theorem IsCycle.exists_transGen (h : edges.IsCycle names) : ∃ v, TransGen edges.Leads v v := by
  obtain ⟨-, hchain⟩ := h
  rename_i v vs
  cases vs with
  | nil => exact ⟨v, .single (List.isChain_pair.mp hchain)⟩
  | cons w ws =>
      obtain ⟨hfirst, hrest⟩ := List.isChain_cons_cons.mp hchain
      have hback : ReflTransGen edges.Leads w v := by
        refine List.relationReflTransGen_of_exists_isChain_cons (ws ++ [v]) hrest ?_
        simp
      exact ⟨v, .head' hfirst hback⟩

/-- The names that were seen and are off the trail lead only to such names, and none of them lies on
a cycle. -/
structure Settled (edges : Edges) (seen trail : List String) : Prop where
  closed : ∀ a ∈ seen, a ∉ trail → ∀ b, edges.Leads a b → b ∈ seen ∧ b ∉ trail
  acyclic : ∀ a ∈ seen, a ∉ trail → ¬ TransGen edges.Leads a a

theorem Settled.of_reflTransGen (h : edges.Settled seen trail) (ha : a ∈ seen) (hoff : a ∉ trail)
    (hab : ReflTransGen edges.Leads a b) : b ∈ seen ∧ b ∉ trail := by
  induction hab with
  | refl => exact ⟨ha, hoff⟩
  | tail _ hbc ih => exact h.closed _ ih.1 ih.2 _ hbc

/-- A name is entered: it stands at the end of the trail. -/
theorem Settled.enter (h : edges.Settled seen trail) (hname : name ∉ seen) :
    edges.Settled (name :: seen) (trail ++ [name]) := by
  have hbefore : ∀ a ∈ name :: seen, a ∉ trail ++ [name] → a ∈ seen ∧ a ∉ trail := by
    intro a ha hoff
    simp only [List.mem_append, List.mem_singleton, not_or] at hoff
    exact ⟨(List.mem_cons.mp ha).resolve_left hoff.2, hoff.1⟩
  constructor
  · intro a ha hoff b hab
    obtain ⟨ha, hoff⟩ := hbefore a ha hoff
    obtain ⟨hb, hboff⟩ := h.closed a ha hoff b hab
    refine ⟨List.mem_cons_of_mem _ hb, ?_⟩
    simp only [List.mem_append, List.mem_singleton, not_or]
    refine ⟨hboff, ?_⟩
    rintro rfl
    exact hname hb
  · intro a ha hoff
    obtain ⟨ha, hoff⟩ := hbefore a ha hoff
    exact h.acyclic a ha hoff

/-- A name is left once all names that it leads to were left. -/
theorem Settled.leave (h : edges.Settled seen (trail ++ [name]))
    (htargets : ∀ b, edges.Leads name b → b ∈ seen ∧ b ∉ trail ++ [name]) :
    edges.Settled seen trail := by
  have hbelow : ∀ b, b ∉ trail ++ [name] → b ∉ trail := by
    intro b hoff hb
    exact hoff (List.mem_append_left _ hb)
  have hoff_of_ne : ∀ a, a ≠ name → a ∉ trail → a ∉ trail ++ [name] := by
    intro a hne hoff
    simp [hne, hoff]
  constructor
  · intro a ha hoff b hab
    by_cases hne : a = name
    · subst hne
      exact ⟨(htargets b hab).1, hbelow b (htargets b hab).2⟩
    · obtain ⟨hb, hboff⟩ := h.closed a ha (hoff_of_ne a hne hoff) b hab
      exact ⟨hb, hbelow b hboff⟩
  · intro a ha hoff hcycle
    by_cases hne : a = name
    · subst hne
      -- The way around starts at a name that was left, and never comes back onto the trail.
      obtain ⟨b, hab, hba⟩ := TransGen.head'_iff.mp hcycle
      obtain ⟨hb, hboff⟩ := htargets b hab
      exact (h.of_reflTransGen hb hboff hba).2 (by simp)
    · exact h.acyclic a ha (hoff_of_ne a hne hoff) hcycle

/-- The trail on which a name is entered: different names, each with an edge to the next. -/
structure IsTrail (edges : Edges) (trail : List String) (name : String) : Prop where
  chain : List.IsChain edges.Leads (trail ++ [name])
  distinct : (trail ++ [name]).Nodup

theorem IsTrail.start (edges : Edges) (name : String) : edges.IsTrail [] name := by
  constructor
  · simp
  · simp

theorem IsTrail.extend (h : edges.IsTrail trail name) (hb : edges.Leads name b)
    (hoff : b ∉ trail ++ [name]) : edges.IsTrail (trail ++ [name]) b := by
  constructor
  · rw [List.isChain_append]
    refine ⟨h.chain, List.isChain_singleton b, ?_⟩
    intro x hx y hy
    obtain rfl : name = x := by simpa using hx
    obtain rfl : b = y := by simpa using hy
    exact hb
  · rw [List.nodup_append]
    refine ⟨h.distinct, List.nodup_singleton b, ?_⟩
    intro x hx y hy
    obtain rfl := List.mem_singleton.mp hy
    rintro rfl
    exact hoff hx

theorem leads_of_mem_trail (h : List.IsChain edges.Leads (trail ++ [name])) :
    ∀ a ∈ trail, ∃ b, edges.Leads a b := by
  induction trail with
  | nil => simp
  | cons x trail ih =>
      rw [List.cons_append, List.isChain_cons] at h
      intro a ha
      rcases List.mem_cons.mp ha with rfl | ha
      · cases trail with
        | nil => exact ⟨name, h.1 name rfl⟩
        | cons y trail => exact ⟨y, h.1 y rfl⟩
      · exact ih h.2 a ha

/-- A trail has no more names than there are edges. -/
theorem IsTrail.length_le (h : edges.IsTrail trail name) : trail.length ≤ edges.length := by
  have hsub : trail ⊆ edges.map Prod.fst := by
    intro a ha
    obtain ⟨b, hab⟩ := leads_of_mem_trail h.chain a ha
    exact List.mem_map.mpr ⟨(a, b), hab, rfl⟩
  have hdistinct : trail.Nodup := (List.nodup_append.mp h.distinct).1
  simpa using (hdistinct.subperm hsub).length_le

/-- An edge from the end of a trail back onto it closes a cycle. -/
theorem IsTrail.isCycle (h : edges.IsTrail trail name) (hb : edges.Leads name b)
    (hon : b ∈ trail ++ [name]) :
    edges.IsCycle ((trail ++ [name]).dropWhile (· ≠ b) ++ [b]) := by
  have hsuffix := List.dropWhile_suffix (l := trail ++ [name]) (· ≠ b)
  obtain ⟨vs, hvs⟩ : ∃ vs, (trail ++ [name]).dropWhile (· ≠ b) = b :: vs := by
    have hne : (trail ++ [name]).dropWhile (· ≠ b) ≠ [] := by
      intro hnil
      simpa using List.dropWhile_eq_nil_iff.mp hnil b hon
    obtain ⟨v, vs, hvs⟩ := List.exists_cons_of_ne_nil hne
    have hhead := List.head_dropWhile_not (· ≠ b) hne
    simp only [hvs, List.head_cons] at hhead
    obtain rfl : v = b := by simpa using hhead
    exact ⟨vs, hvs⟩
  rw [hvs] at hsuffix ⊢
  refine .mk (h.distinct.sublist hsuffix.sublist) ?_
  rw [List.isChain_append]
  refine ⟨h.chain.suffix hsuffix, List.isChain_singleton b, ?_⟩
  intro x hx y hy
  obtain rfl : b = y := by simpa using hy
  have hlast : (b :: vs).getLast? = (trail ++ [name]).getLast? := by
    obtain ⟨front, hfront⟩ := hsuffix
    rw [← hfront, List.getLast?_append_of_ne_nil _ (List.cons_ne_nil b vs)]
  rw [hlast] at hx
  obtain rfl : name = x := by simpa using hx
  exact hb

/-- Goes from the end of a trail to a name, unless a cycle was found already. -/
def visit (edges : Edges) (fuel : Nat) (trail : List String) (state : Search) (next : String) :
    Search :=
  match state with
  | .cycle names => .cycle names
  | .clear seen =>
      if seen.contains next then
        if trail.contains next then .cycle (trail.dropWhile (· ≠ next) ++ [next])
        else .clear seen
      else explore edges fuel seen trail next

theorem explore_succ (edges : Edges) (fuel : Nat) (seen trail : List String) (name : String) :
    explore edges (fuel + 1) seen trail name =
      (edges.targets name).foldl (edges.visit fuel (trail ++ [name])) (.clear (name :: seen)) := rfl

/-- How a search from some names at the end of a trail ends: with a cycle, or with these names left
and all names seen before still seen. -/
def EndsWell (edges : Edges) (seen trail : List String) (entered : List String) : Search → Prop
  | .cycle names => edges.IsCycle names
  | .clear after =>
      seen ⊆ after ∧ (∀ b ∈ entered, b ∈ after ∧ b ∉ trail) ∧ edges.Settled after trail

theorem foldl_cycle {step : Search → String → Search}
    (hcycle : ∀ names next, step (.cycle names) next = .cycle names) (nexts : List String) :
    nexts.foldl step (.cycle names) = .cycle names := by
  induction nexts with
  | nil => rfl
  | cons b nexts ih => rw [List.foldl_cons, hcycle, ih]

/-- A run over names that ends well for each of them ends well. -/
theorem endsWell_foldl {step : Search → String → Search}
    (hcycle : ∀ names next, step (.cycle names) next = .cycle names) :
    ∀ {nexts : List String} {seen : List String},
      (∀ after, seen ⊆ after → edges.Settled after trail → ∀ b ∈ nexts,
        edges.EndsWell after trail [b] (step (.clear after) b)) →
      edges.Settled seen trail → edges.EndsWell seen trail nexts (nexts.foldl step (.clear seen))
  | [], seen, _, hseen => ⟨List.Subset.refl _, by simp, hseen⟩
  | b :: nexts, seen, hstep, hseen => by
      have hfirst := hstep seen (List.Subset.refl _) hseen b List.mem_cons_self
      rw [List.foldl_cons]
      cases hb : step (.clear seen) b with
      | cycle names =>
          rw [hb] at hfirst
          rw [foldl_cycle hcycle]
          exact hfirst
      | clear after =>
          rw [hb] at hfirst
          obtain ⟨hsub, hentered, hafter⟩ := hfirst
          have hrest : edges.EndsWell after trail nexts (nexts.foldl step (.clear after)) :=
            endsWell_foldl hcycle (fun later hlater hsettled c hc =>
              hstep later (List.Subset.trans hsub hlater) hsettled c (List.mem_cons_of_mem _ hc))
              hafter
          cases hend : nexts.foldl step (.clear after) with
          | cycle names =>
              rw [hend] at hrest
              exact hrest
          | clear last =>
              rw [hend] at hrest
              obtain ⟨hmore, hlast, hsettled⟩ := hrest
              refine ⟨List.Subset.trans hsub hmore, ?_, hsettled⟩
              intro c hc
              rcases List.mem_cons.mp hc with rfl | hc
              · obtain ⟨hin, hoff⟩ := hentered c (List.mem_singleton_self c)
                exact ⟨hmore hin, hoff⟩
              · exact hlast c hc

/-- What goes well for a new name goes well for a name that may be seen already. -/
theorem endsWell_visit (htrail : edges.IsTrail trail name) (hb : edges.Leads name b)
    (hseen : edges.Settled seen (trail ++ [name]))
    (hnew : b ∉ seen →
      edges.EndsWell seen (trail ++ [name]) [b] (explore edges fuel seen (trail ++ [name]) b)) :
    edges.EndsWell seen (trail ++ [name]) [b]
      (edges.visit fuel (trail ++ [name]) (.clear seen) b) := by
  rw [visit]
  by_cases hmem : b ∈ seen
  · rw [if_pos (List.contains_iff_mem.mpr hmem)]
    by_cases hback : b ∈ trail ++ [name]
    · rw [if_pos (List.contains_iff_mem.mpr hback)]
      exact htrail.isCycle hb hback
    · rw [if_neg (by simpa using hback)]
      refine ⟨List.Subset.refl _, ?_, hseen⟩
      intro c hc
      obtain rfl := List.mem_singleton.mp hc
      exact ⟨hmem, hback⟩
  · rw [if_neg (by simpa using hmem)]
    exact hnew hmem

/-- What goes well for all names that a name leads to goes well for the name. -/
theorem EndsWell.leave {state : Search} (hoff : name ∉ trail)
    (h : edges.EndsWell (name :: seen) (trail ++ [name]) (edges.targets name) state) :
    edges.EndsWell seen trail [name] state := by
  cases state with
  | cycle names => exact h
  | clear after =>
      obtain ⟨hsub, htargets, hafter⟩ := h
      refine ⟨fun a ha => hsub (List.mem_cons_of_mem _ ha), ?_, ?_⟩
      · intro b hb
        obtain rfl := List.mem_singleton.mp hb
        exact ⟨hsub List.mem_cons_self, hoff⟩
      · exact hafter.leave fun b hb => htargets b (mem_targets.mpr hb)

/-- A search from a name at the end of a trail ends well, if there is fuel for all edges that are
not on the trail. -/
theorem explore_sound (htrail : edges.IsTrail trail name)
    (hfuel : edges.length < trail.length + fuel) (hon : trail ⊆ seen) (hname : name ∉ seen)
    (hseen : edges.Settled seen trail) :
    edges.EndsWell seen trail [name] (explore edges fuel seen trail name) := by
  induction fuel generalizing seen trail name with
  | zero =>
      have hle := htrail.length_le
      omega
  | succ fuel ih =>
      have honNow : trail ++ [name] ⊆ name :: seen := by
        intro a ha
        rcases List.mem_append.mp ha with ha | ha
        · exact List.mem_cons_of_mem _ (hon ha)
        · exact List.mem_cons.mpr (Or.inl (List.mem_singleton.mp ha))
      refine EndsWell.leave (fun hmem => hname (hon hmem)) ?_
      rw [explore_succ]
      refine endsWell_foldl (fun _ _ => rfl) ?_ (hseen.enter hname)
      intro after hsub hafter b hb
      have hlead := mem_targets.mp hb
      refine endsWell_visit htrail hlead hafter fun hnew => ?_
      have honAfter : trail ++ [name] ⊆ after := List.Subset.trans honNow hsub
      refine ih (htrail.extend hlead fun hback => hnew (honAfter hback)) ?_ honAfter hnew hafter
      rw [List.length_append, List.length_singleton]
      omega

/-- The whole search ends with a cycle, or with all names left that edges start at. -/
theorem search_sound (edges : Edges) : edges.EndsWell [] [] edges.sources edges.search := by
  refine endsWell_foldl (fun _ _ => rfl) ?_ ⟨by simp, by simp⟩
  intro after _ hafter name _
  dsimp only
  by_cases hname : name ∈ after
  · rw [if_pos (List.contains_iff_mem.mpr hname)]
    refine ⟨List.Subset.refl _, ?_, hafter⟩
    intro b hb
    obtain rfl := List.mem_singleton.mp hb
    exact ⟨hname, List.not_mem_nil⟩
  · rw [if_neg (by simpa using hname)]
    exact explore_sound (IsTrail.start edges name) (by simp) (List.nil_subset _) hname hafter

/-- What is found is a cycle. -/
theorem isCycle_of_findCycle? (h : edges.findCycle? = some names) : edges.IsCycle names := by
  have hsearch := edges.search_sound
  unfold findCycle? at h
  cases hend : edges.search with
  | cycle found =>
      rw [hend] at h hsearch
      obtain rfl := Option.some.inj h
      exact hsearch
  | clear seen =>
      rw [hend] at h
      simp at h

/-- No cycle is found exactly if there is none. -/
theorem findCycle?_eq_none_iff :
    edges.findCycle? = none ↔ ∀ a, ¬ TransGen edges.Leads a a := by
  constructor
  · intro h a hcycle
    have hsearch := edges.search_sound
    unfold findCycle? at h
    cases hend : edges.search with
    | cycle found => simp [hend] at h
    | clear seen =>
        rw [hend] at hsearch
        obtain ⟨-, hentered, hsettled⟩ := hsearch
        obtain ⟨b, hab, -⟩ := TransGen.head'_iff.mp hcycle
        obtain ⟨hseen, hoff⟩ := hentered a (mem_sources_of_leads hab)
        exact hsettled.acyclic a hseen hoff hcycle
  · intro h
    cases hfound : edges.findCycle? with
    | none => rfl
    | some names =>
        obtain ⟨v, hv⟩ := (isCycle_of_findCycle? hfound).exists_transGen
        exact absurd hv (h v)

end Edges
end ConditionalForms
