import ObjcPlan.Proofs.Arguments
import ObjcPlan.Proofs.Containment
import ObjcPlan.Proofs.MakeVariables

/-! The options for the modules cache. A compilation gets the one of the plan if the library uses
modules, and none of those that libraries set themselves; those of the configuration are passed on
(`Library.analyze_modules_cache`). -/

namespace ObjcPlan

open Argument Validation

/-- The options of a compilation that set the modules cache. -/
def Argument.cacheSettings (l : List Argument) : List String :=
  (options l).filter setsModulesCache

/-! ### Texts -/

theorem setsModulesCache_eq_false_iff {text : String} :
    setsModulesCache text = false ↔ ¬ modulesCacheOption.toList <+: text.toList := by
  rw [Bool.eq_false_iff, Ne, setsModulesCache_iff]

theorem setsModulesCache_append (front : String)
    (before : ¬ front.toList <+: modulesCacheOption.toList)
    (behind : ¬ modulesCacheOption.toList <+: front.toList) (rest : String) :
    setsModulesCache (front ++ rest) = false :=
  setsModulesCache_eq_false_iff.mpr (not_prefix_append before behind rest)

theorem setsModulesCache_option (rest : String) :
    setsModulesCache (modulesCacheOption ++ "=" ++ rest) = true := by
  rw [setsModulesCache_iff, String.append_assoc, String.toList_append]
  exact List.prefix_append _ _

/-! ### Origins -/

namespace Argument

variable {l m : List Argument} {origin : Origin}

theorem cacheSettings_append : cacheSettings (l ++ m) = cacheSettings l ++ cacheSettings m := by
  rw [cacheSettings, options, select_append, List.filter_append]
  rfl

theorem cacheSettings_listed (isOption : origin ≠ .operand) (texts : List String) :
    cacheSettings (listed origin texts) = texts.filter setsModulesCache := by
  rw [cacheSettings, options, select_listed, if_pos (by simpa using isOption)]

theorem cacheSettings_eq_nil (planned : Planned l)
    (none : ∀ text, ⟨.fixed, text⟩ ∈ l → setsModulesCache text = false) : cacheSettings l = [] := by
  refine List.filter_eq_nil_iff.mpr fun text mem => ?_
  obtain ⟨argument, isOption, rfl⟩ := List.mem_map.mp mem
  obtain ⟨mem, isOption⟩ := List.mem_filter.mp isOption
  rcases planned argument mem with fixed | operand
  · rw [none argument.text (fixed ▸ mem)]
    exact Bool.false_ne_true
  · simp [operand] at isOption

end Argument

namespace Compilation

variable {c : Compilation} {e : CompileEntry}

theorem setsModulesCache_of_isPlanOption {text : String} (planned : IsPlanOption text) :
    setsModulesCache text = false :=
  setsModulesCache_eq_false_iff.mpr (planned.not_prefix (by decide))

theorem setsModulesCache_of_mem_moduleArguments {text : String} (mem : text ∈ c.moduleArguments) :
    setsModulesCache text = false := by
  obtain ⟨_, m, _, rfl | rfl | ⟨name, rfl⟩⟩ := cases_of_mem_moduleArguments mem
  · decide
  · exact setsModulesCache_append "-fmodule-map-file=" (by decide) (by decide) _
  · exact setsModulesCache_append "-fmodule-name=" (by decide) (by decide) _

theorem filter_modulesCacheArguments :
    c.modulesCacheArguments.filter setsModulesCache = c.modulesCacheArguments := by
  unfold modulesCacheArguments
  split
  · simp [setsModulesCache_option]
  · rfl

theorem cacheSettings_leading (language : Language) : cacheSettings (c.leading language) = [] :=
  cacheSettings_eq_nil (planned_leading language) fun _ mem =>
    (cases_of_mem_leading mem).elim setsModulesCache_of_mem_moduleArguments
      setsModulesCache_of_isPlanOption

theorem cacheSettings_trailing : cacheSettings (trailing e) = [] :=
  cacheSettings_eq_nil planned_trailing fun _ mem =>
    setsModulesCache_of_isPlanOption (.inl (mem_plainOptions_of_mem_trailing mem))

section

variable (supported : ∃ target, Options.splitCpu? c.facts.cpu = some target)

include supported

theorem filter_map_expand (copts : List String) :
    (copts.map c.expand).filter setsModulesCache =
      (copts.filter setsModulesCache).map c.expand := by
  obtain ⟨target, supported⟩ := supported
  rw [List.filter_map]
  congr 1
  exact List.filter_congr fun copt _ => setsModulesCache_expand supported copt

/-- An option that was kept does not come to one that sets the cache. -/
theorem setsModulesCache_userCopts (copts : List String) :
    ∀ copt ∈ c.userCopts copts, setsModulesCache copt = false := by
  intro copt mem
  obtain ⟨copt, kept, rfl⟩ := List.mem_map.mp mem
  obtain ⟨target, supported⟩ := supported
  rw [expand, setsModulesCache_expand supported]
  simpa using (List.mem_filter.mp kept).2

theorem filter_userCopts (copts : List String) :
    (c.userCopts copts).filter setsModulesCache = [] :=
  List.filter_eq_nil_iff.mpr fun copt mem => by
    simp [setsModulesCache_userCopts supported copts copt mem]

theorem cacheSettings_userSourced : cacheSettings c.userSourced =
    (c.facts.objccopts.filter setsModulesCache).map c.expand ++ c.modulesCacheArguments := by
  have defines : (c.providers.define.toList.map fun define => "-D" ++ c.expand define).filter
      setsModulesCache = [] := by
    simp [setsModulesCache_append "-D" (by decide) (by decide)]
  have inherited : ((c.providers.dependencyCopts c.library.label).flatMap fun group =>
      c.userCopts group.flags).filter setsModulesCache = [] := by
    rw [List.filter_flatMap]
    simp [filter_userCopts supported]
  simp only [userSourced, cacheSettings_append, cacheSettings_listed, defines, inherited,
    filter_map_expand supported, filter_userCopts supported, filter_modulesCacheArguments, ne_eq,
    reduceCtorEq, not_false_eq_true, List.nil_append, List.append_nil]

theorem cacheSettings_eq : cacheSettings (c.sourced e) =
    (c.facts.objccopts.filter setsModulesCache).map c.expand ++ c.modulesCacheArguments := by
  simp only [sourced, cacheSettings_append, cacheSettings_leading, cacheSettings_trailing,
    cacheSettings_userSourced supported, List.nil_append, List.append_nil]

end

theorem select_own : select (· = .own) (c.sourced e) = c.userCopts c.library.copts := by
  rw [select_sourced rfl rfl]
  simp [userSourced, select_append, select_listed]

theorem select_inherited : select (· = .inherited) (c.sourced e) =
    (c.providers.dependencyCopts c.library.label).flatMap fun group => c.userCopts group.flags := by
  rw [select_sourced rfl rfl]
  simp [userSourced, select_append, select_listed]

end Compilation

namespace Library

variable {o : Options} {toolchain : Toolchain} {facts : Facts} {t : Library}
  {warnings : List Diagnostic}

/-- Whether an option sets the modules cache does not change when the cpu is put in. The options of
the library and of its dependencies that do so are dropped, and the others are passed on with the
cpu. So the options of a compilation that set the cache are those of the configuration and, if the
library uses modules, the one of the plan; and it is the only one exactly if the configuration has
none. -/
theorem analyze_modules_cache (resolved : Facts.resolve o toolchain = .ok facts)
    (accepted : Validation.check ⟨facts.disableResources⟩ t = .ok warnings)
    (dependencies : List Dependency) :
    let expand (copt : String) := expandMakeVariables copt facts.cpu
    let passed (copts : List String) := (copts.filter fun copt => !setsModulesCache copt).map expand
    let ofPlan := if "-fmodules" ∈ t.copts then
        ["-fmodules-cache-path=" ++ (facts.genfilesDir / "_objc_module_cache").text]
      else []
    (∀ copt, setsModulesCache (expand copt) = setsModulesCache copt) ∧
    ∃ l, t.analyze dependencies facts = .ok l ∧ ∀ e ∈ l.compiles,
      let arguments := (t.compilation l.providers facts).sourced e
      let settings := (options arguments).filter setsModulesCache
      e.action.arguments = arguments.map text ∧
      select (· = .own) arguments = passed t.copts ∧
      select (· = .inherited) arguments =
        (l.providers.dependencyCopts t.label).flatMap (fun group => passed group.flags) ∧
      (∀ copt ∈ select (· = .own) arguments ++ select (· = .inherited) arguments,
        setsModulesCache copt = false) ∧
      settings = (facts.objccopts.filter setsModulesCache).map expand ++ ofPlan ∧
      (settings = ofPlan ↔ ∀ copt ∈ facts.objccopts, setsModulesCache copt = false) := by
  intro expand passed ofPlan
  obtain ⟨_, _, supported⟩ := Facts.configured_of_resolve resolved
  obtain ⟨l, analyzed⟩ := exists_analyze accepted dependencies
  have planned := plannedFor_of_analyze analyzed
  refine ⟨?_, l, analyzed, ?_⟩
  · obtain ⟨target, supported⟩ := supported
    exact setsModulesCache_expand supported
  · intro e mem arguments settings
    have exact : settings = (facts.objccopts.filter setsModulesCache).map expand ++ ofPlan :=
      Compilation.cacheSettings_eq supported
    refine ⟨planned.arguments_eq mem, Compilation.select_own, Compilation.select_inherited, ?_,
      exact, ?_⟩
    · rw [Compilation.select_own, Compilation.select_inherited]
      refine List.forall_mem_append.mpr ⟨?_, fun copt mem => ?_⟩
      · exact Compilation.setsModulesCache_userCopts supported _
      · obtain ⟨group, _, mem⟩ := List.mem_flatMap.mp mem
        exact Compilation.setsModulesCache_userCopts supported _ copt mem
    · rw [exact, List.append_left_eq_self]
      simp

end Library

namespace Caches

def library : Library where
  label := Refused.app.label
  srcs := ["a.m"]
  copts := ["-fmodules", "-fmodules-cache-path=mine/$(TARGET_CPU)", "-O1"]

/-- An option that all compilations of a configuration get. -/
def shared : Options where
  objccopts := ["-fmodules-cache-path=shared"]

theorem accepted (policy : Policy) : ∃ warnings, check policy library = .ok warnings := by
  obtain ⟨_ | _⟩ := policy <;> exact exists_of_isOk (by decide)

end Caches

theorem Library.analyze_modules_cache_own :
    ∃ facts l, Facts.resolve {} (.xcode Toolchain.defaultRoot) = .ok facts ∧
      Caches.library.analyze [] facts = .ok l ∧ l.compiles ≠ [] ∧
      ∀ e ∈ l.compiles,
        (options ((Caches.library.compilation l.providers facts).sourced e)).filter
            setsModulesCache =
          ["-fmodules-cache-path=mortar-out/ios_x86_64-fastbuild/genfiles/_objc_module_cache"] := by
  obtain ⟨facts, resolved⟩ := Outlets.exists_facts
  obtain ⟨warnings, accepted⟩ := Caches.accepted ⟨facts.disableResources⟩
  obtain ⟨_, l, analyzed, settings⟩ := analyze_modules_cache resolved accepted []
  obtain ⟨e, mem⟩ := (plannedFor_of_analyze analyzed).exists_compile (by decide)
  refine ⟨facts, l, resolved, analyzed, List.ne_nil_of_mem mem, fun e mem => ?_⟩
  obtain ⟨_, _, _, _, _, alone⟩ := settings e mem
  rw [alone.mpr (by rw [(Facts.configured_of_resolve resolved).2.1]; decide),
    (Facts.outputDirs_of_resolve resolved).2]
  decide

/-- The option of the configuration is passed on beside the one of the plan. -/
theorem Library.analyze_modules_cache_shared :
    ∃ facts warnings l, Facts.resolve Caches.shared (.xcode Toolchain.defaultRoot) = .ok facts ∧
      check ⟨facts.disableResources⟩ Caches.library = .ok warnings ∧
      Caches.library.analyze [] facts = .ok l ∧
      ∃ e ∈ l.compiles,
        let arguments := (Caches.library.compilation l.providers facts).sourced e
        e.action.arguments = arguments.map text ∧
        (options arguments).filter setsModulesCache = ["-fmodules-cache-path=shared",
          "-fmodules-cache-path=mortar-out/ios_x86_64-fastbuild/genfiles/_objc_module_cache"] := by
  obtain ⟨facts, resolved⟩ : ∃ facts, Facts.resolve Caches.shared (.xcode Toolchain.defaultRoot) =
      .ok facts := exists_of_isOk (by decide)
  obtain ⟨warnings, accepted⟩ := Caches.accepted ⟨facts.disableResources⟩
  obtain ⟨l, analyzed⟩ := exists_analyze accepted []
  have planned := plannedFor_of_analyze analyzed
  obtain ⟨e, mem⟩ := planned.exists_compile (by decide)
  obtain ⟨_, objccopts, supported⟩ := Facts.configured_of_resolve resolved
  refine ⟨facts, warnings, l, resolved, accepted, analyzed, e, mem, planned.arguments_eq mem, ?_⟩
  refine (Compilation.cacheSettings_eq supported).trans ?_
  have configured : (facts.objccopts.filter setsModulesCache).map
      (expandMakeVariables · facts.cpu) = ["-fmodules-cache-path=shared"] := by
    have kept : Caches.shared.objccopts.filter setsModulesCache =
        ["-fmodules-cache-path=shared"] := by decide
    rw [objccopts, kept]
    simp (disch := decide) only [List.map, expandMakeVariables_of_notMem]
  have ofPlan : (Caches.library.compilation l.providers facts).modulesCacheArguments =
      ["-fmodules-cache-path=mortar-out/ios_x86_64-fastbuild/genfiles/_objc_module_cache"] := by
    show [modulesCacheOption ++ "=" ++ (facts.genfilesDir / Compilation.modulesCacheDir).text] = _
    rw [(Facts.outputDirs_of_resolve resolved).2]
    decide
  exact congrArg₂ (· ++ ·) configured ofPlan

end ObjcPlan
