import Mathlib.Data.List.Chain
import ObjcPlan.DepFile.Discovery
import ObjcPlan.Proofs.Lexical

/-! What the inputs of a compilation are narrowed to. A declared input is kept exactly if the source
or a listed dependency has its components (`OrderedSet.mem_restrict`). For paths without `.` and
without a `..` behind a name these are the components that resolution leaves
(`Path.IsPlain.resolved`), so a header that the compiler reports under such a path is kept
(`Discovery.refine_keeps_as_spelled`). Under another path it is dropped. -/

namespace ObjcPlan

namespace Path

variable {p q : Path}

/-- Whether there is nothing to resolve in a path: no `.`, and no `..` that cancels a name. -/
structure IsPlain (p : Path) : Prop where
  no_current : .current ∉ p.components
  no_return : p.components.IsChain fun before c => c = .parent → before.name? = none

theorem foldl_resolveStep_of_plain {components : List Component}
    (no_current : .current ∉ components)
    (no_return : components.IsChain fun before c => c = .parent → before.name? = none) :
    components.foldl resolveStep [] = components.reverse := by
  -- the last component meets what the others resolve to, which are these themselves
  induction components using List.reverseRecOn with
  | nil => rfl
  | append_singleton front c ih =>
    obtain ⟨before, _, last⟩ := List.isChain_append.mp no_return
    rw [List.mem_append, not_or] at no_current
    rw [List.foldl_append, ih no_current.1 before, List.reverse_append]
    show resolveStep front.reverse c = c :: front.reverse
    cases c with
    | current => exact absurd List.mem_cons_self no_current.2
    | parent =>
      cases top : front.reverse with
      | nil => rfl
      | cons under rest =>
        have isLast : under ∈ front.getLast? := by
          rw [← List.head?_reverse, top]
          rfl
        cases under with
        | name text => cases last _ isLast .parent rfl rfl
        | _ => rfl
    | _ => rfl

theorem IsPlain.resolved (plain : p.IsPlain) : p.resolved = p.components := by
  rw [Path.resolved, foldl_resolveStep_of_plain plain.no_current plain.no_return,
    List.reverse_reverse]

theorem IsPlain.components_eq (plain : p.IsPlain) (plain' : q.IsPlain)
    (same : p.lexical = q.lexical) : p.components = q.components := by
  rw [← plain.resolved, ← plain'.resolved]
  exact lexical_eq_iff.mp same

end Path

namespace OrderedSet

variable {α : Type} [Identity α]

theorem mem_restrict {s : OrderedSet α} {values : List α} {a : α} :
    a ∈ (s.restrict values).toList ↔
      a ∈ s.toList ∧ ∃ b ∈ values, Identity.key b = Identity.key a := by
  simp only [restrict, Identity.common, List.mem_filter, decide_eq_true_iff, List.mem_map]

theorem sublist_restrict (s : OrderedSet α) (values : List α) :
    (s.restrict values).toList.Sublist s.toList :=
  List.filter_sublist

end OrderedSet

namespace Discovery

variable {contents : String} {rules : List Rule}

theorem inputs_of_parse (parsed : DepFile.parse contents = .ok rules) (declared : OrderedSet Path)
    (source : Path) : inputs ⟨true⟩ contents declared source =
      .ok (declared.restrict (source :: rules.flatMap Rule.dependencies)) := by
  simp only [inputs, parsed]
  rfl

theorem refine_of_parse (parsed : DepFile.parse contents = .ok rules) (action : Action)
    (source : Path) : refine ⟨true⟩ action source contents =
      .ok { action with
        inputs := action.inputs.restrict (source :: rules.flatMap Rule.dependencies) } := by
  simp only [refine, inputs_of_parse parsed, if_true]

/-- Narrowing keeps the declared inputs with the components of the source or of a listed dependency,
in their order, and changes nothing else. So it keeps a header that is listed under a path with
nothing to resolve, if it is declared under such a path. -/
theorem refine_keeps_as_spelled (parsed : DepFile.parse contents = .ok rules) (action : Action)
    (source : Path) :
    let read := source :: rules.flatMap Rule.dependencies
    ∃ kept : OrderedSet Path,
      inputs ⟨true⟩ contents action.inputs source = .ok kept ∧
      refine ⟨true⟩ action source contents = .ok { action with inputs := kept } ∧
      kept.toList.Sublist action.inputs.toList ∧
      (∀ header ∈ action.inputs.toList, header ∈ kept.toList ↔
        ∃ path ∈ read, path.components = header.components) ∧
      ∀ header ∈ action.inputs.toList, ∀ path ∈ read, path.lexical = header.lexical →
        path.IsPlain → header.IsPlain → header ∈ kept.toList := by
  intro read
  have kept (header : Path) (declared : header ∈ action.inputs.toList) :
      header ∈ (action.inputs.restrict read).toList ↔
        ∃ path ∈ read, path.components = header.components := by
    rw [OrderedSet.mem_restrict, and_iff_right declared]
    rfl
  refine ⟨action.inputs.restrict read, inputs_of_parse parsed _ source,
    refine_of_parse parsed action source, OrderedSet.sublist_restrict _ read, kept, ?_⟩
  intro header declared path listed same plain plain'
  exact (kept header declared).mpr ⟨path, listed, plain.components_eq plain' same⟩

def sample : Action :=
  { Action.new "ObjcCompile" "clang" with
    inputs := .ofList ["lib/a.m", "lib/a.h", "../b.h", "lib/c.h"] }

/-- A report with a continued line and a dependency that is not declared. -/
theorem refine_keeps_as_spelled_sample :
    ∃ kept, refine ⟨true⟩ sample "lib/a.m" "a.o: lib/a.m \\\n  ../b.h lib//a.h /usr/c.h\n" =
        .ok { sample with inputs := kept } ∧
      (∀ header : Path, header = "lib/a.h" ∨ header = "../b.h" → header ∈ kept.toList) ∧
      (⟨"lib/c.h"⟩ : Path) ∉ kept.toList := by
  have parsed : DepFile.parse "a.o: lib/a.m \\\n  ../b.h lib//a.h /usr/c.h\n" =
      .ok [⟨"a.o", ["lib/a.m", "../b.h", "lib//a.h", "/usr/c.h"]⟩] := by decide
  obtain ⟨kept, _, narrowed, _, exact, plainly⟩ :=
    refine_keeps_as_spelled parsed sample "lib/a.m"
  refine ⟨kept, narrowed, ?_, ?_⟩
  · rintro header (rfl | rfl)
    · exact plainly "lib/a.h" (by decide) "lib//a.h" (by decide)
        (by decide) ⟨by decide, by decide⟩ ⟨by decide, by decide⟩
    · exact (exact _ (by decide)).mpr ⟨"../b.h", by decide, rfl⟩
  · rw [exact _ (by decide)]
    decide

/-- A header is dropped though the compiler reports it, with `./` in front or through a directory
and back. -/
theorem refine_drops_read :
    let declared : OrderedSet Path := .ofList ["a.m", "a.h", "b.h"]
    let contents := "a.o: a.m ./a.h dir/../b.h\n"
    ∃ rules, DepFile.parse contents = .ok rules ∧
      (∀ header ∈ declared.toList,
        ∃ path ∈ rules.flatMap Rule.dependencies, path.lexical = header.lexical) ∧
      inputs ⟨true⟩ contents declared "a.m" = .ok (.ofList ["a.m"]) := by
  intro declared contents
  have parsed : DepFile.parse contents = .ok [⟨"a.o", ["a.m", "./a.h", "dir/../b.h"]⟩] := by
    decide
  refine ⟨_, parsed, by decide, ?_⟩
  rw [inputs_of_parse parsed]
  decide

end Discovery

end ObjcPlan
