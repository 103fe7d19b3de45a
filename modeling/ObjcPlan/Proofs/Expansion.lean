import ObjcPlan.Proofs.Definitions
import ObjcPlan.Proofs.IncludeDirectories
import ObjcPlan.Proofs.Resolution

/-! How often the cpu is put into what a compilation gets. The definitions of a library have it in
place when they are offered, and it is put in again in each compilation that gets them. If it has no
`$` itself, the second time changes nothing, there or in any dependent, and no definition and no
option of a user is left with the variable (`Options.expands_once`). -/

namespace ObjcPlan

open Argument Identity

/-- Whether the argument is a definition or an option of a user, and not one that the plan sets. -/
def Argument.IsUsers (a : Argument) : Prop :=
  a.origin ≠ .fixed ∧ a.origin ≠ .operand

theorem not_hasVariable_append {front text : String} (plain : '$' ∉ front.toList)
    (absent : ¬ HasVariable text) : ¬ HasVariable (front ++ text) := by
  rw [HasVariable, String.toList_append]
  exact fun inside => absent (Text.infix_of_infix_append plain inside)

namespace Compilation

variable {c : Compilation} {e : CompileEntry} {a : Argument}

theorem mem_userSourced (mem : a ∈ c.sourced e) (ofUser : a.IsUsers) : a ∈ c.userSourced := by
  have notPlanned {l : List Argument} (planned : Planned l) : a ∉ l := fun mem =>
    (planned a mem).elim ofUser.1 ofUser.2
  rw [sourced, List.mem_append, List.mem_append] at mem
  rcases mem with (before | among) | behind
  · exact absurd before (notPlanned (planned_leading _))
  · exact among
  · exact absurd behind (notPlanned planned_trailing)

/-- The cpu is put into every definition and every option of a user. -/
theorem exists_expand_of_mem (mem : a ∈ c.sourced e) (ofUser : a.IsUsers) :
    ∃ front ∈ ["-D", ""], ∃ value, a.text = front ++ c.expand value := by
  have option {copts : List String} {text : String} (mem : text ∈ c.userCopts copts) :
      ∃ front ∈ ["-D", ""], ∃ value, text = front ++ c.expand value := by
    obtain ⟨copt, _, rfl⟩ := List.mem_map.mp mem
    exact ⟨"", by simp, copt, String.empty_append.symm⟩
  have users := mem_userSourced mem ofUser
  simp only [userSourced, listed, List.mem_append, List.mem_map, List.mem_flatMap,
    exists_exists_and_eq_and] at users
  rcases users with (((⟨define, _, rfl⟩ | ⟨copt, _, rfl⟩) | ⟨text, ⟨group, _, isOption⟩, rfl⟩) |
    ⟨text, isOption, rfl⟩) | ⟨text, _, rfl⟩
  · exact ⟨"-D", by simp, define, rfl⟩
  · exact ⟨"", by simp, copt, String.empty_append.symm⟩
  · exact option isOption
  · exact option isOption
  · exact absurd rfl ofUser.1

end Compilation

namespace Library

variable {t : Library} {facts : Facts} {l : AnalyzedLibrary} {define : String}

/-- The definitions that a library offers, and that its dependents offer again, have the cpu in
place. -/
theorem Feeds.define_mem (feeds : t.Feeds facts l) (mem : define ∈ t.defines) :
    expandMakeVariables define facts.cpu ∈ l.providers.define.toList := by
  have offered := feeds.contains_of_contains .define
    (OrderedSet.contains_ofList_of_mem (List.mem_map_of_mem mem))
  obtain ⟨held, isHeld, same⟩ := OrderedSet.contains_iff.mp offered
  obtain rfl : expandMakeVariables define facts.cpu = held := same
  exact isHeld

end Library

namespace Compilation

variable {c : Compilation} {e : CompileEntry} {values : List String}

/-- Definitions in which the cpu is in place are written as they are offered. -/
theorem sublist_definitions (expanded : ∀ value ∈ values, c.expand value = value) :
    ((c.providers.define.restrict values).toList.map ("-D" ++ ·)).Sublist
      (definitions (c.sourced e)) := by
  have same : (c.providers.define.restrict values).toList.map ("-D" ++ ·) =
      (c.providers.define.restrict values).toList.map fun value => "-D" ++ c.expand value := by
    refine List.map_congr_left fun value mem => ?_
    obtain ⟨_, given, isGiven, same⟩ := OrderedSet.mem_restrict.mp mem
    obtain rfl : given = value := same
    rw [expanded given isGiven]
  rw [definitions_sourced, same]
  exact (OrderedSet.sublist_restrict _ _).map _

end Compilation

namespace Options

/-- A cpu that is accepted and has no `$` is put into a text once and for all: the variable is gone,
and to put it in again changes nothing. So it is put in once, as far as a compilation can tell: in
its arguments no definition and no option of a user has the variable, and the definitions of the
library and of each that it depends on, directly or not, are written as they were offered, which is
with the cpu in place. -/
theorem expands_once {o : Options} (valid : o.validate = .ok ()) (literal : '$' ∉ o.cpu.toList) :
    let expand (value : String) := expandMakeVariables value o.cpu
    (∀ value, ¬ HasVariable (expand value) ∧ expand (expand value) = expand value) ∧
    ∀ facts : Facts, facts.cpu = o.cpu → ∀ (u : Library) dependencies l,
      u.analyze dependencies facts = .ok l → ∀ e ∈ l.compiles,
        let arguments := (u.compilation l.providers facts).sourced e
        e.action.arguments = arguments.map text ∧
        (∀ a ∈ arguments, a.IsUsers → ¬ HasVariable a.text) ∧
        definitions arguments =
          l.providers.define.toList.map (fun define => "-D" ++ expand define) ∧
        ∀ t : Library, t.Feeds facts l →
          let own := l.providers.define.restrict (t.defines.map expand)
          (∀ define ∈ t.defines, expand define ∈ own.toList) ∧
          (own.toList.map ("-D" ++ ·)).Sublist (definitions arguments) := by
  intro expand
  obtain ⟨target, isTarget⟩ := (isValid_of_validate valid).target
  have supported := splitCpu?_of_target isTarget
  have gone := not_hasVariable_expandMakeVariables supported literal
  have again := expandMakeVariables_expandMakeVariables supported literal
  refine ⟨fun value => ⟨gone value, again value⟩, ?_⟩
  intro facts cpu u dependencies l analyzed e mem arguments
  have expand_eq (value : String) :
      (u.compilation l.providers facts).expand value = expand value := by
    show expandMakeVariables value facts.cpu = _
    rw [cpu]
  refine ⟨(Library.plannedFor_of_analyze analyzed).arguments_eq mem, fun a isArgument ofUser => ?_,
    ?_, fun t feeds => ⟨fun define isOwn => ?_, ?_⟩⟩
  · obtain ⟨front, isFront, value, whole⟩ := Compilation.exists_expand_of_mem isArgument ofUser
    have plain : '$' ∉ front.toList := by
      rcases List.mem_pair.mp isFront with rfl | rfl <;> decide
    rw [whole, expand_eq]
    exact not_hasVariable_append plain (gone value)
  · simp only [arguments, Compilation.definitions_sourced, expand_eq]
    rfl
  · have offered := feeds.define_mem isOwn
    rw [cpu] at offered
    exact OrderedSet.mem_restrict.mpr ⟨offered, _, List.mem_map_of_mem isOwn, rfl⟩
  · have expanded : ∀ value ∈ t.defines.map expand,
        (u.compilation l.providers facts).expand value = value := by
      intro value isValue
      obtain ⟨define, _, rfl⟩ := List.mem_map.mp isValue
      rw [expand_eq]
      exact again define
    exact Compilation.sublist_definitions expanded

end Options

/-- A library that takes over a definition with the variable in it. -/
def Variants.dependent : Library where
  label := Shared.core.label
  srcs := ["b.m"]
  deps := [Variants.library.label]

theorem Variants.dependent_accepted (policy : Validation.Policy) :
    Validation.check policy dependent = .ok [] := by
  obtain ⟨_ | _⟩ := policy <;> decide

theorem Options.expands_once_inherited :
    ({} : Options).validate = .ok () ∧ '$' ∉ ({} : Options).cpu.toList ∧
    ∃ facts l l', Facts.resolve {} (.xcode Toolchain.defaultRoot) = .ok facts ∧
      Variants.library.analyze [] facts = .ok l ∧
      Variants.dependent.analyze [l.asDependency] facts = .ok l' ∧
      ∃ e ∈ l'.compiles, "-DARCH=ios_x86_64" ∈ e.action.arguments := by
  obtain ⟨facts, resolved⟩ := Outlets.exists_facts
  have cpu : facts.cpu = ({} : Options).cpu := (Facts.configured_of_resolve resolved).1
  obtain ⟨l, analyzed⟩ := Library.exists_analyze (Variants.accepted ⟨facts.disableResources⟩) []
  obtain ⟨l', analyzed'⟩ := Library.exists_analyze
    (Variants.dependent_accepted ⟨facts.disableResources⟩) [l.asDependency]
  obtain ⟨e, mem⟩ := (Library.plannedFor_of_analyze analyzed').exists_compile (by decide)
  have valid : ({} : Options).validate = .ok () := by decide
  have literal : '$' ∉ ({} : Options).cpu.toList := by decide
  refine ⟨valid, literal, facts, l, l', resolved, analyzed, analyzed', e, mem, ?_⟩
  have feeds : Variants.library.Feeds facts l' :=
    .dependent (.own analyzed) List.mem_cons_self analyzed'
  obtain ⟨arguments, _, _, inherits⟩ :=
    (expands_once valid literal).2 facts cpu Variants.dependent _ l' analyzed' e mem
  obtain ⟨offered, written⟩ := inherits Variants.library feeds
  have isDefinition : "-D" ++ expandMakeVariables "ARCH=$(TARGET_CPU)" "ios_x86_64" ∈
      definitions ((Variants.dependent.compilation l'.providers facts).sourced e) :=
    written.subset (List.mem_map_of_mem (offered _ (by decide)))
  rw [Variants.expand_arch] at isDefinition
  obtain ⟨a, isArgument, same⟩ := List.mem_map.mp isDefinition
  rw [arguments]
  exact List.mem_map.mpr ⟨a, List.mem_of_mem_filter isArgument, same⟩

end ObjcPlan
