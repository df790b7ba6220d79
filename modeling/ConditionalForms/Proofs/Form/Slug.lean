import ConditionalForms.Proofs.Form.Name
import Mathlib.Data.List.Destutter

/-!
# Slugs

The slug of a label is made in one pass over the trimmed label.  The same comes of three passes, one
behind the other.  The first leaves out what is neither blank nor in a slug, the second puts a dash
for every run of blanks, and the third one for every run of dashes.  Their order matters: the first
pass may join two runs of blanks, and the second one makes new dashes.

None of the passes changes a text that is already made of small letters, digits and single dashes.
So these texts are the slugs, and each of them is its own slug.

**Definitions.**
* `Name.IsTidy`: small letters, digits and dashes, and no two dashes next to each other.
* `Name.dashRuns`: a dash for every run of characters of a kind.
* `Name.passes`: the three passes.

**Results.**
* `Name.slug_eq_passes`: the slug is what the three passes leave of the trimmed label.
* `Name.isTidy_slug`, `Name.IsTidy.slug_eq`: slugs are tidy, and tidy texts are their own slugs.
* `Name.slug_is_projection`: hence a slug is its own slug, and no other text is.
-/

namespace ConditionalForms
namespace Name

/-- Two characters that are not both dashes. -/
def NotBothDashes (c d : Char) : Prop := ¬ (c = '-' ∧ d = '-')

instance : DecidableRel NotBothDashes := fun _ _ => inferInstanceAs (Decidable (¬ (_ ∧ _)))

/-- The text is made of small letters, digits and dashes, and no two dashes stand next to each
other. -/
structure IsTidy (s : String) : Prop where
  chars : ∀ c ∈ s.toList, ('a' ≤ c ∧ c ≤ 'z') ∨ ('0' ≤ c ∧ c ≤ '9') ∨ c = '-'
  dashes : s.toList.IsChain NotBothDashes

/-- A dash for a character in `p`, and any other character as it is. -/
def dashFor (p : Char → Bool) (c : Char) : Char := if p c then '-' else c

/-- Puts a dash for every run of characters in `p`. -/
def dashRuns (p : Char → Bool) : List Char → List Char
  | [] => []
  | c :: cs =>
      if p c ∧ cs.head?.any p then dashRuns p cs else dashFor p c :: dashRuns p cs

/-- A dash, as a kind of characters. -/
def isDash (c : Char) : Bool := c == '-'

/-- What the three passes leave: no characters but blanks and those of slugs, then no blanks, then
no two dashes next to each other. -/
def passes (cs : List Char) : List Char :=
  dashRuns isDash (dashRuns Text.isBlank (cs.filter fun c => Text.isBlank c || isSlugChar c))

variable {p : Char → Bool} {c : Char} {cs ds : List Char}

/-! ### One pass and three passes -/

theorem flatMap_slugPart (cs : List Char) :
    cs.flatMap slugPart =
      (cs.filter fun c => Text.isBlank c || isSlugChar c).map (dashFor Text.isBlank) := by
  induction cs with
  | nil => rfl
  | cons c cs ih =>
      rw [List.flatMap_cons, ih, slugPart]
      cases hblank : Text.isBlank c with
      | true => simp [hblank, dashFor]
      | false => cases hslug : isSlugChar c <;> simp [hblank, hslug, dashFor]

/-- A pass drops a character only if the run goes on behind it. -/
theorem dashRuns_cons (p : Char → Bool) (c : Char) (cs : List Char) :
    (∃ d ds, cs = d :: ds ∧ p c = true ∧ p d = true ∧ dashRuns p (c :: cs) = dashRuns p cs) ∨
      dashRuns p (c :: cs) = dashFor p c :: dashRuns p cs := by
  by_cases hrun : p c ∧ cs.head?.any p
  · left
    cases cs with
    | nil => cases hrun.2
    | cons d ds => exact ⟨d, ds, rfl, hrun.1, hrun.2, if_pos hrun⟩
  · exact Or.inr (if_neg hrun)

theorem head?_dashRuns (p : Char → Bool) (cs : List Char) :
    (dashRuns p cs).head? = cs.head?.map (dashFor p) := by
  induction cs with
  | nil => rfl
  | cons c cs ih =>
      rcases dashRuns_cons p c cs with ⟨d, ds, rfl, hc, hd, hdrop⟩ | hkeep
      · rw [hdrop, ih]
        simp [dashFor, hc, hd]
      · rw [hkeep]
        rfl

/-- Once dashes are joined, a dash for every blank is as good as a dash for every run of blanks. -/
theorem dashRuns_map_dashFor (p : Char → Bool) (cs : List Char) :
    dashRuns isDash (cs.map (dashFor p)) = dashRuns isDash (dashRuns p cs) := by
  induction cs with
  | nil => rfl
  | cons c cs ih =>
      rw [List.map_cons]
      rcases dashRuns_cons p c cs with ⟨d, ds, rfl, hc, hd, hdrop⟩ | hkeep
      · have hjoin : dashRuns isDash ('-' :: '-' :: ds.map (dashFor p)) =
            dashRuns isDash ('-' :: ds.map (dashFor p)) := rfl
        rw [hdrop, ← ih]
        simpa [dashFor, hc, hd] using hjoin
      · have hhead : (cs.map (dashFor p)).head? = (dashRuns p cs).head? := by
          rw [head?_dashRuns, List.head?_map]
        rw [hkeep, dashRuns, dashRuns, hhead, ih]

theorem dashFor_isDash (c : Char) : dashFor isDash c = c := by
  unfold dashFor
  split
  · rename_i hc
    exact (beq_iff_eq.mp hc).symm
  · rfl

theorem singleDashes_eq_dashRuns (cs : List Char) : singleDashes cs = dashRuns isDash cs := by
  induction cs with
  | nil => rfl
  | cons c cs ih =>
      rw [singleDashes, dashRuns, ih, dashFor_isDash]
      cases cs <;> simp [isDash]

/-- The slug is what the three passes leave of the trimmed label. -/
theorem slug_eq_passes (label : String) :
    slug label =
      String.ofList (passes (Text.trimList Text.isBlank (label.toList.flatMap lower))) := by
  rw [slug, singleDashes_eq_dashRuns, flatMap_slugPart, dashRuns_map_dashFor, passes]

/-! ### What the passes leave alone -/

theorem dashRuns_eq_self (h : ∀ c ∈ cs, p c = false) : dashRuns p cs = cs := by
  induction cs with
  | nil => rfl
  | cons c cs ih =>
      obtain ⟨hc, hcs⟩ := List.forall_mem_cons.mp h
      simp [dashRuns, dashFor, hc, ih hcs]

/-- Joining dashes leaves out every dash that stands behind another. -/
theorem dashRuns_isDash_eq_destutter (cs : List Char) :
    dashRuns isDash cs = cs.destutter NotBothDashes := by
  cases cs with
  | nil => rfl
  | cons c cs =>
      rw [List.destutter_cons']
      induction cs generalizing c with
      | nil => simp [dashRuns, dashFor_isDash]
      | cons d cs ih =>
          by_cases hpair : c = '-' ∧ d = '-'
          · obtain ⟨rfl, rfl⟩ := hpair
            rw [List.destutter'_cons_neg _ (by simp [NotBothDashes]), ← ih]
            rfl
          · have hkept : ¬ (isDash c = true ∧ (d :: cs).head?.any isDash = true) := by
              simpa [isDash] using hpair
            rw [List.destutter'_cons_pos _ hpair, dashRuns, if_neg hkept, ih, dashFor_isDash]

/-- A slug is tidy. -/
theorem isTidy_slug (label : String) : IsTidy (slug label) := by
  constructor
  · exact fun c hc => isSlugChar_iff.mp (isSlugChar_of_mem_slug hc)
  · rw [slug_eq_passes, String.toList_ofList, passes, dashRuns_isDash_eq_destutter]
    exact List.isChain_destutter _ _

theorem lower_of_isSlugChar (h : isSlugChar c = true) : lower c = [c] := by
  have hne (d : Char) (hd : isSlugChar d = false) : c ≠ d := by
    rintro rfl
    rw [h] at hd
    cases hd
  have hlower : c.toLower = c := by
    rcases toLower_cases c with hsame | ⟨hlow, hhigh, -⟩
    · exact hsame
    rcases isSlugChar_iff.mp h with hsmall | hdigit | rfl
    · have : 97 ≤ c.toNat := hsmall.1
      omega
    · have : c.toNat ≤ 57 := hdigit.2
      omega
    · exact absurd hlow (by decide)
  rw [lower, if_neg (hne _ (by decide)), if_neg (hne _ (by decide)), hlower]

theorem flatMap_lower_eq_self (h : ∀ c ∈ cs, isSlugChar c = true) : cs.flatMap lower = cs := by
  induction cs with
  | nil => rfl
  | cons c cs ih =>
      obtain ⟨hc, hcs⟩ := List.forall_mem_cons.mp h
      rw [List.flatMap_cons, lower_of_isSlugChar hc, ih hcs, List.singleton_append]

/-- No pass changes a tidy text. -/
theorem IsTidy.slug_eq {s : String} (h : IsTidy s) : slug s = s := by
  have hslug : ∀ c ∈ s.toList, isSlugChar c = true := fun c hc => isSlugChar_iff.mpr (h.chars c hc)
  have hblank : ∀ c ∈ s.toList, Text.isBlank c = false :=
    fun c hc => isBlank_of_isSlugChar (hslug c hc)
  have hkept : s.toList.filter (fun c => Text.isBlank c || isSlugChar c) = s.toList :=
    List.filter_eq_self.mpr fun c hc => by simp [hslug c hc]
  rw [slug_eq_passes, flatMap_lower_eq_self hslug, Text.trimList_eq_self hblank, passes, hkept,
    dashRuns_eq_self hblank, dashRuns_isDash_eq_destutter, List.destutter_of_isChain _ _ h.dashes,
    String.ofList_toList]

/-- The slug of any text is tidy and its own slug, and the texts that are their own slugs are the
tidy ones. -/
theorem slug_is_projection (s : String) :
    IsTidy (slug s) ∧ slug (slug s) = slug s ∧ (slug s = s ↔ IsTidy s) := by
  refine ⟨isTidy_slug s, (isTidy_slug s).slug_eq, fun h => ?_, IsTidy.slug_eq⟩
  rw [← h]
  exact isTidy_slug s

example : slug " T--Shirt /- size" = "t-shirt-size" := by decide +kernel

end Name
end ConditionalForms
