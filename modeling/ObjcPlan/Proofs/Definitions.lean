import ObjcPlan.Proofs.Arguments
import ObjcPlan.Proofs.Containment
import ObjcPlan.Proofs.MakeVariables

/-! The definitions that a compilation gets. The cpu is put into those of planned libraries before
they are merged, and into all of them when they are written. So a definition is written twice if it
comes from a foreign library with the variable in it, and else only once
(`Library.analyze_defines`). -/

namespace ObjcPlan

open Argument Identity

namespace Identity

variable {α β : Type} [Identity α] [Identity β]

/-- Dropping repeated values before they are mapped makes no difference to those dropped after. -/
theorem fresh_map_fresh {f : α → β} {seen : List (Key α)} {seen' : List (Key β)}
    (respects : ∀ a b, key a = key b → key (f a) = key (f b))
    (old : ∀ a, key a ∈ seen → key (f a) ∈ seen') (values : List α) :
    fresh seen' ((fresh seen values).map f) = fresh seen' (values.map f) := by
  induction values generalizing seen seen' with
  | nil => rfl
  | cons a rest ih =>
    rw [List.map_cons]
    by_cases isOld : key a ∈ seen
    · rw [fresh_cons_of_mem isOld, fresh_cons_of_mem (old a isOld)]
      exact ih old
    · rw [fresh_cons_of_notMem isOld, List.map_cons]
      by_cases isOld' : key (f a) ∈ seen'
      · rw [fresh_cons_of_mem isOld', fresh_cons_of_mem isOld']
        refine ih fun b mem => ?_
        rcases List.mem_cons.mp mem with same | mem
        · exact respects b a same ▸ isOld'
        · exact old b mem
      · rw [fresh_cons_of_notMem isOld', fresh_cons_of_notMem isOld', ih fun b mem => ?_]
        rcases List.mem_cons.mp mem with same | mem
        · exact respects b a same ▸ List.mem_cons_self
        · exact List.mem_cons_of_mem _ (old b mem)

theorem fresh_eq_self_iff {values : List α} :
    fresh [] values = values ↔ values.Pairwise fun a b => key a ≠ key b := by
  constructor
  · intro same
    rw [← same]
    exact pairwise_fresh [] values
  · exact fun distinct => fresh_eq_self distinct (by simp)

end Identity

namespace Compilation

/-- The definitions are those of the merged set, with the cpu in place. -/
theorem definitions_sourced (c : Compilation) (e : CompileEntry) :
    definitions (c.sourced e) =
      c.providers.define.toList.map fun define => "-D" ++ c.expand define := by
  rw [definitions, select_sourced rfl rfl]
  simp [userSourced, select_append, select_listed]

end Compilation

/-- Whether the cpu is in place in all definitions that a dependency offers. -/
def Dependency.IsExpanded (d : Dependency) (cpu : String) : Prop :=
  ∀ define ∈ d.contribution .define, expandMakeVariables define cpu = define

theorem ForeignLibrary.isExpanded {info : ForeignLibrary}
    (plain : ∀ define ∈ info.defines, '$' ∉ define.toList) (cpu : String) :
    (Dependency.foreign info).IsExpanded cpu :=
  fun define mem => expandMakeVariables_of_notMem (plain define mem) cpu

namespace Library

variable {o : Options} {toolchain : Toolchain} {facts : Facts} {t : Library}
  {dependencies : List Dependency} {l : AnalyzedLibrary} {warnings : List Diagnostic}

/-- The definitions of a library before they are written, with the cpu in place in its own. -/
def mergedDefines (t : Library) (dependencies : List Dependency) (cpu : String) : List String :=
  (OrderedSet.ofList (t.defines.map (expandMakeVariables · cpu) ++
    dependencies.flatMap (·.contribution .define))).toList

/-- The definitions of a library and its dependencies with the cpu in place, each once. -/
def expandedDefines (t : Library) (dependencies : List Dependency) (cpu : String) : List String :=
  (OrderedSet.ofList ((t.defines ++ dependencies.flatMap (·.contribution .define)).map
    (expandMakeVariables · cpu))).toList

theorem define_of_analyze (analyzed : t.analyze dependencies facts = .ok l) :
    l.providers.define.toList = t.mergedDefines dependencies facts.cpu := by
  have own : ((t.ownProviders facts).get .define).toList =
      fresh [] (t.defines.map (expandMakeVariables · facts.cpu)) :=
    OrderedSet.toList_ofList _
  have merged : l.providers.get .define = .ofList
      (((t.ownProviders facts).get .define).toList ++
        dependencies.flatMap (·.contribution .define)) := by
    rw [providers_of_analyze analyzed, ProviderSet.merge, ProviderSet.get_ofFn]
    rfl
  show (l.providers.get .define).toList = _
  rw [merged, own, mergedDefines, OrderedSet.toList_ofList, OrderedSet.toList_ofList]
  exact fresh_append_congr (fresh_fresh (by simp) _) rfl

theorem definitions_of_analyze (analyzed : t.analyze dependencies facts = .ok l)
    (e : CompileEntry) : definitions ((t.compilation l.providers facts).sourced e) =
      ((t.mergedDefines dependencies facts.cpu).map (expandMakeVariables · facts.cpu)).map
        ("-D" ++ ·) := by
  rw [Compilation.definitions_sourced, ← define_of_analyze analyzed, List.map_map]
  rfl

section

variable {cpu : String} (again : ∀ define,
  expandMakeVariables (expandMakeVariables define cpu) cpu = expandMakeVariables define cpu)

include again

/-- To put the cpu in before repeated definitions are dropped makes a difference only where two that
were kept come to the same. -/
theorem map_mergedDefines_eq_iff :
    (t.mergedDefines dependencies cpu).map (expandMakeVariables · cpu) =
        t.expandedDefines dependencies cpu ↔
      ((t.mergedDefines dependencies cpu).map (expandMakeVariables · cpu)).Nodup := by
  have expanded : t.expandedDefines dependencies cpu =
      fresh [] ((t.mergedDefines dependencies cpu).map (expandMakeVariables · cpu)) := by
    rw [expandedDefines, mergedDefines, OrderedSet.toList_ofList, OrderedSet.toList_ofList,
      fresh_map_fresh (fun a b same => congrArg (expandMakeVariables · cpu) same) (by simp)]
    simp [Function.comp_def, again]
  rw [expanded, eq_comm]
  exact fresh_eq_self_iff

theorem mem_mergedDefines_expanded (offered : ∀ d ∈ dependencies, d.IsExpanded cpu) :
    ∀ define ∈ t.mergedDefines dependencies cpu, expandMakeVariables define cpu = define := by
  intro define mem
  rcases List.mem_append.mp (OrderedSet.mem_of_mem_ofList mem) with own | inherited
  · obtain ⟨define, _, rfl⟩ := List.mem_map.mp own
    exact again define
  · obtain ⟨d, isDependency, offers⟩ := List.mem_flatMap.mp inherited
    exact offered d isDependency define offers

end

/-- The definitions in the arguments of a compilation are the merged ones, in which the cpu is in
place but for those of foreign libraries, once more with the cpu put in. Unless the cpu has a `$`
itself, this is what putting it into all definitions comes to, each written once, exactly if no two
of the merged ones come to the same. So it is if the cpu is in place in all definitions that the
dependencies offer, as it then is in those that the library offers. -/
theorem analyze_defines (resolved : Facts.resolve o toolchain = .ok facts)
    (accepted : Validation.check ⟨facts.disableResources⟩ t = .ok warnings)
    (dependencies : List Dependency) :
    let expand (define : String) := expandMakeVariables define facts.cpu
    let merged := t.mergedDefines dependencies facts.cpu
    let expanded := t.expandedDefines dependencies facts.cpu
    let apart := ∀ a ∈ merged, ∀ b ∈ merged, expand a = expand b → a = b
    ∃ l, t.analyze dependencies facts = .ok l ∧
      (∀ e ∈ l.compiles,
        let arguments := (t.compilation l.providers facts).sourced e
        e.action.arguments = arguments.map text ∧
        definitions arguments = (merged.map expand).map ("-D" ++ ·) ∧
        ('$' ∉ facts.cpu.toList →
          (definitions arguments = expanded.map ("-D" ++ ·) ↔ apart) ∧
          ((definitions arguments).Nodup ↔ apart))) ∧
      ('$' ∉ facts.cpu.toList → (∀ d ∈ dependencies, d.IsExpanded facts.cpu) →
        apart ∧ l.asDependency.IsExpanded facts.cpu) := by
  intro expand merged expanded apart
  obtain ⟨l, analyzed⟩ := exists_analyze accepted dependencies
  obtain ⟨_, _, target, supported⟩ := Facts.configured_of_resolve resolved
  have again (literal : '$' ∉ facts.cpu.toList) :=
    expandMakeVariables_expandMakeVariables supported literal
  have prefixed : Function.Injective ("-D" ++ · : String → String) :=
    fun a b same => String.append_right_inj _ |>.mp same
  have nodup : (merged.map expand).Nodup ↔ apart :=
    List.nodup_map_iff_inj_on (OrderedSet.distinct _)
  refine ⟨l, analyzed, fun e mem => ⟨?_, definitions_of_analyze analyzed e, ?_⟩, ?_⟩
  · exact (plannedFor_of_analyze analyzed).arguments_eq mem
  · intro literal
    rw [definitions_of_analyze analyzed]
    constructor
    · rw [(List.map_injective_iff.mpr prefixed).eq_iff, map_mergedDefines_eq_iff (again literal)]
      exact nodup
    · rw [List.nodup_map_iff prefixed]
      exact nodup
  · intro literal offered
    have fixed := mem_mergedDefines_expanded (t := t) (again literal) offered
    constructor
    · intro a mem b mem' same
      rwa [show expand a = a from fixed a mem, show expand b = b from fixed b mem'] at same
    · intro define mem
      exact fixed define (define_of_analyze analyzed ▸ mem)

end Library

namespace Variants

def library : Library where
  label := Refused.app.label
  srcs := ["a.m"]
  defines := ["ARCH=$(TARGET_CPU)", "B"]

def plain : ForeignLibrary where
  label := Shared.zlib.label
  defines := ["B", "C=2"]

/-- A foreign library with the variable in a definition. -/
def templated : ForeignLibrary where
  label := ⟨"ssl", "ssl", by decide, by decide⟩
  defines := ["ARCH=$(TARGET_CPU)"]

theorem expand_arch :
    expandMakeVariables "ARCH=$(TARGET_CPU)" "ios_x86_64" = "ARCH=ios_x86_64" := by
  have front : '$' ∉ "ARCH=".toList := by decide
  have empty : '$' ∉ "".toList := by decide
  have cut := expandMakeVariables_variable front "" "ios_x86_64"
  rwa [expandMakeVariables_of_notMem empty] at cut

theorem accepted (policy : Validation.Policy) : Validation.check policy library = .ok [] := by
  obtain ⟨_ | _⟩ := policy <;> decide

end Variants

theorem Library.analyze_defines_once :
    ∃ facts l, Facts.resolve {} (.xcode Toolchain.defaultRoot) = .ok facts ∧
      Validation.check ⟨facts.disableResources⟩ Variants.library = .ok [] ∧
      Variants.library.analyze [.foreign Variants.plain] facts = .ok l ∧
      ∀ e ∈ l.compiles,
        definitions ((Variants.library.compilation l.providers facts).sourced e) =
          ["-DARCH=ios_x86_64", "-DB", "-DC=2"] := by
  obtain ⟨facts, resolved⟩ := Outlets.exists_facts
  have cpu : facts.cpu = "ios_x86_64" := (Facts.configured_of_resolve resolved).1
  have accepted := Variants.accepted ⟨facts.disableResources⟩
  obtain ⟨l, analyzed, written, fixed⟩ :=
    analyze_defines resolved accepted [.foreign Variants.plain]
  have literal : '$' ∉ facts.cpu.toList := by rw [cpu]; decide
  obtain ⟨apart, _⟩ := fixed literal <| List.forall_mem_singleton.mpr <|
    ForeignLibrary.isExpanded (by decide) facts.cpu
  refine ⟨facts, l, resolved, accepted, analyzed, fun e mem => ?_⟩
  obtain ⟨_, _, exact⟩ := written e mem
  have expanded : ["ARCH=$(TARGET_CPU)", "B", "B", "C=2"].map (expandMakeVariables · "ios_x86_64") =
      ["ARCH=ios_x86_64", "B", "B", "C=2"] := by
    simp (disch := decide) only [List.map, Variants.expand_arch, expandMakeVariables_of_notMem]
  rw [(exact literal).1.mpr apart, cpu]
  exact congrArg (fun all => (OrderedSet.ofList all).toList.map ("-D" ++ ·)) expanded

/-- A definition of the library is written once more for a foreign library that has it too. -/
theorem Library.analyze_defines_twice :
    ∃ facts l, Facts.resolve {} (.xcode Toolchain.defaultRoot) = .ok facts ∧
      Validation.check ⟨facts.disableResources⟩ Variants.library = .ok [] ∧
      Variants.library.analyze [.foreign Variants.templated] facts = .ok l ∧
      (Variants.library.expandedDefines [.foreign Variants.templated] facts.cpu).map ("-D" ++ ·) =
        ["-DARCH=ios_x86_64", "-DB"] ∧
      ∃ e ∈ l.compiles,
        let arguments := (Variants.library.compilation l.providers facts).sourced e
        e.action.arguments = arguments.map text ∧
        definitions arguments = ["-DARCH=ios_x86_64", "-DB", "-DARCH=ios_x86_64"] := by
  obtain ⟨facts, resolved⟩ := Outlets.exists_facts
  have cpu : facts.cpu = "ios_x86_64" := (Facts.configured_of_resolve resolved).1
  have accepted := Variants.accepted ⟨facts.disableResources⟩
  obtain ⟨l, analyzed⟩ := exists_analyze accepted [.foreign Variants.templated]
  have planned := plannedFor_of_analyze analyzed
  obtain ⟨e, mem⟩ := planned.exists_compile (by decide)
  refine ⟨facts, l, resolved, accepted, analyzed, ?_, e, mem, planned.arguments_eq mem, ?_⟩
  · have expanded : ["ARCH=$(TARGET_CPU)", "B", "ARCH=$(TARGET_CPU)"].map
        (expandMakeVariables · "ios_x86_64") = ["ARCH=ios_x86_64", "B", "ARCH=ios_x86_64"] := by
      simp (disch := decide) only [List.map, Variants.expand_arch, expandMakeVariables_of_notMem]
    rw [cpu]
    exact congrArg (fun all => (OrderedSet.ofList all).toList.map ("-D" ++ ·)) expanded
  · have own : ["ARCH=$(TARGET_CPU)", "B"].map (expandMakeVariables · "ios_x86_64") =
        ["ARCH=ios_x86_64", "B"] := by
      simp (disch := decide) only [List.map, Variants.expand_arch, expandMakeVariables_of_notMem]
    have merged : Variants.library.mergedDefines [.foreign Variants.templated] "ios_x86_64" =
        ["ARCH=ios_x86_64", "B", "ARCH=$(TARGET_CPU)"] :=
      congrArg (fun own => (OrderedSet.ofList (own ++ ["ARCH=$(TARGET_CPU)"])).toList) own
    rw [definitions_of_analyze analyzed, cpu, merged]
    simp (disch := decide) only [List.map, Variants.expand_arch, expandMakeVariables_of_notMem]
    rfl

end ObjcPlan
