import ConditionalForms.Proofs.Audit.Usage
import ConditionalForms.Proofs.Rule.Resolution

/-!
# Names as paths

A rule can point at an answer by its name behind the root of the answers.  The name alone will do as
well, since a path that starts from no root starts at the answers.  Only a name that is also the name
of a root does not: alone it stands for what the context holds at the root.

Any other path that starts from no root leads where it leads behind the root of the answers, with one
exception.  The name of an answer may hold dots.  An answer that the whole path names comes first for
the path alone, while behind the root each segment is a step of its own.

**Definitions.**
* `Path.PointsAt`: a path leads to the answer under a name and refers to it, in every context.

**Results.**
* `Path.resolve_behind_answers`: behind the root of the answers, every segment of a path is a step
  from the answers.
* `Path.resolve_of_unrooted`: alone, a path that starts from no root leads to the answer that it
  names, or else to the same.
* `Path.IsBareName.pointsAt_behind_answers`: behind this root, a bare name points at its answer.
* `Path.IsBareName.pointsAt_self_iff`: alone, it does exactly if it is not the name of a root.
-/

namespace ConditionalForms

namespace Path

variable {path name : String} {root : Root}

/-- A path points at an answer: in every context the value at the path is the answer under the name,
null if there is none, and the name is what the path refers to. -/
structure PointsAt (path name : String) : Prop where
  resolve_eq : ∀ ctx : Context, resolve path ctx = .ok (ctx.answers.get name)
  reference_eq : referencedField? path = some name

theorem splitList_append {separator : Char} {rest : List Char} :
    ∀ {cs : List Char}, separator ∉ cs →
      splitList separator (cs ++ separator :: rest) = cs :: splitList separator rest
  | [], _ => by rw [List.nil_append, splitList, if_pos rfl]
  | c :: cs, h => by
      have hc : c ≠ separator := fun e => h (e ▸ List.mem_cons_self)
      have hcs : separator ∉ cs := fun hmem => h (List.mem_cons_of_mem _ hmem)
      rw [List.cons_append, splitList, if_neg hc, splitList_append hcs]

/-- The root of the answers is one more segment of a path. -/
theorem segments_behind_answers (path : String) :
    segments ("answers." ++ path) = "answers" :: segments path := by
  have hlist : ("answers." ++ path).toList = "answers".toList ++ '.' :: path.toList := by
    rw [String.toList_append]
    rfl
  have hdot : '.' ∉ "answers".toList := by decide
  rw [segments, hlist, splitList_append hdot, List.map_cons, String.ofList_toList, segments]

/-- Behind the root of the answers, every segment of a path is a step from the answers. -/
theorem resolve_behind_answers (path : String) (ctx : Context) :
    resolve ("answers." ++ path) ctx = walk (.object ctx.answers) (segments path) := by
  have hne : "answers." ++ path ≠ "" := by
    intro hempty
    have hlength := congrArg String.length hempty
    rw [String.length_append] at hlength
    exact absurd hlength (by simp)
  have hstarts : Starts ("answers." ++ path) ctx (ctx.atRoot .answers) (segments path) :=
    .root hne (segments_behind_answers path) rfl
  exact hstarts.resolve_eq

/-- A path that starts from no root leads to the answer that it names as a whole.  If there is none
it leads where it leads behind the root of the answers, be it to a value, to null or to a fault, and
so does any such path without a dot. -/
theorem resolve_of_unrooted (hne : path ≠ "") (hunrooted : root? path = none) (ctx : Context) :
    (∀ v, ctx.answers.get? path = some v → resolve path ctx = .ok v) ∧
      (ctx.answers.get? path = none → resolve path ctx = resolve ("answers." ++ path) ctx) ∧
      ('.' ∉ path.toList → resolve path ctx = resolve ("answers." ++ path) ctx) := by
  have hnamed : ∀ v, ctx.answers.get? path = some v → resolve path ctx = .ok v :=
    fun v => resolve_of_get? hunrooted hne
  have hwalked (hnone : ctx.answers.get? path = none) :
      resolve path ctx = resolve ("answers." ++ path) ctx := by
    have hstarts : Starts path ctx (.object ctx.answers) (segments path) :=
      .answers hne hunrooted hnone
    rw [hstarts.resolve_eq, resolve_behind_answers]
  refine ⟨hnamed, hwalked, fun hdot => ?_⟩
  cases hanswer : ctx.answers.get? path with
  | none => exact hwalked hanswer
  | some v =>
      rw [hnamed v hanswer, resolve_behind_answers, segments_of_notMem hdot, walk_members,
        Record.get, hanswer]
      rfl

/-- The answers hold the name of a school under a name with a dot, and a school with another name
and a town. -/
def twoSchools : Context :=
  ⟨[], none, Record.ofNames [("school.name", .text "Elm Park"),
    ("school", .object (Record.ofNames [("name", .text "Hill"), ("town", .text "Leeds")]))]⟩

theorem resolve_twoSchools :
    (root? "school.name" = none ∧ resolve "school.name" twoSchools = .ok (.text "Elm Park") ∧
        resolve ("answers." ++ "school.name") twoSchools = .ok (.text "Hill")) ∧
      (root? "school.town" = none ∧
        resolve "school.town" twoSchools = resolve ("answers." ++ "school.town") twoSchools) ∧
      (root? "school" = none ∧
        resolve "school" twoSchools = resolve ("answers." ++ "school") twoSchools) := by
  have hname : root? "school.name" = none := by decide
  have htown : root? "school.town" = none := by decide
  have hschool : root? "school" = none := by decide
  refine ⟨⟨hname, ?_, rfl⟩, ⟨htown, ?_⟩, hschool, ?_⟩
  · exact (resolve_of_unrooted (by decide) hname twoSchools).1 _ rfl
  · exact (resolve_of_unrooted (by decide) htown twoSchools).2.1 rfl
  · exact (resolve_of_unrooted (by decide) hschool twoSchools).2.2 (by decide)

theorem trim_behind_answers (htrim : Text.trim path = path) (hne : path ≠ "") :
    Text.trim ("answers." ++ path) = "answers." ++ path :=
  Text.trim_append rfl rfl htrim hne

namespace IsBareName

theorem segments_eq (h : IsBareName name) : segments name = [name] := segments_of_notMem h.noDot

theorem root?_eq (h : IsBareName name) : root? name = Root.ofName? name := by
  rw [root?, h.segments_eq]
  rfl

/-- Behind the root of the answers, a name points at its answer. -/
theorem pointsAt_behind_answers (h : IsBareName name) : PointsAt ("answers." ++ name) name := by
  constructor
  · intro ctx
    rw [resolve_behind_answers, h.segments_eq]
    rfl
  · have hroot : Root.ofName? "answers" = some .answers := rfl
    rw [referencedField?, trim_behind_answers h.trim h.ne, segments_behind_answers, h.segments_eq]
    simp [hroot, h.ne]

/-- The name of a root points at no answer: it stands for what the context holds at the root. -/
theorem resolve_of_root (h : IsBareName name) (hroot : Root.ofName? name = some root) :
    (∀ ctx : Context, resolve name ctx = .ok (ctx.atRoot root)) ∧ referencedField? name = none := by
  constructor
  · intro ctx
    have hstarts : Starts name ctx (ctx.atRoot root) [] := .root h.ne h.segments_eq hroot
    rw [hstarts.resolve_eq, walk]
  · rw [referencedField?, h.trim, h.segments_eq]
    cases root <;> simp [hroot]

/-- A name by itself points at its answer exactly if it is not the name of a root. -/
theorem pointsAt_self_iff (h : IsBareName name) :
    PointsAt name name ↔ Root.ofName? name = none := by
  constructor
  · intro hpoints
    cases hroot : Root.ofName? name with
    | none => rfl
    | some root =>
        obtain ⟨_, hnone⟩ := h.resolve_of_root hroot
        have hname := hpoints.reference_eq
        rw [hnone] at hname
        contradiction
  · intro hroot
    have hunrooted : root? name = none := h.root?_eq.trans hroot
    refine ⟨fun ctx => ?_, (referencedField?_eq_self_iff hunrooted).mpr h⟩
    cases hanswer : ctx.answers.get? name with
    | some v => rw [resolve_of_get? hunrooted h.ne hanswer, Record.get, hanswer, Option.getD_some]
    | none =>
        have hstarts : Starts name ctx (.object ctx.answers) (segments name) :=
          .answers h.ne hunrooted hanswer
        rw [hstarts.resolve_eq, h.segments_eq]
        rfl

end IsBareName

end Path
end ConditionalForms
