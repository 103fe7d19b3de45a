import ObjcPlan.Proofs.Analyses

/-! Where the arguments of a compilation come from. `Compilation.sourced` lists them with their
origins, and these are the arguments of the action (`Compilation.texts_sourced`). Between those that
the plan sets by itself stand the ones of definitions and user options
(`Compilation.select_sourced`). -/

namespace ObjcPlan

/-- Where an argument comes from. -/
inductive Origin
  /-- An option that the plan itself sets. -/
  | fixed
  /-- What the option before it takes. -/
  | operand
  /-- A definition of the library or of a dependency. -/
  | definition
  /-- An option of the configuration. -/
  | configured
  /-- An option of a dependency. -/
  | inherited
  /-- An option of the library. -/
  | own
  deriving DecidableEq

structure Argument where
  origin : Origin
  text : String
  deriving DecidableEq

namespace Argument

variable {keep : Origin → Bool} {origin : Origin} {l m : List Argument}

/-- Arguments of one origin. -/
def listed (origin : Origin) (texts : List String) : List Argument :=
  texts.map (mk origin)

/-- An option of the plan and what it takes. -/
def taking (option operand : String) : List Argument :=
  [⟨.fixed, option⟩, ⟨.operand, operand⟩]

/-- The texts of some origins. -/
def select (keep : Origin → Bool) (l : List Argument) : List String :=
  (l.filter fun argument => keep argument.origin).map text

/-- The texts that are options, and not what an option takes. -/
def options : List Argument → List String :=
  select (· ≠ .operand)

/-- The texts of definitions. -/
def definitions : List Argument → List String :=
  select (· = .definition)

@[simp] theorem map_text_listed (texts : List String) : (listed origin texts).map text = texts := by
  simp [listed, Function.comp_def]

@[simp] theorem map_text_taking (option operand : String) :
    (taking option operand).map text = [option, operand] :=
  rfl

theorem select_append : select keep (l ++ m) = select keep l ++ select keep m := by
  simp [select]

theorem select_listed (texts : List String) :
    select keep (listed origin texts) = if keep origin then texts else [] := by
  cases kept : keep origin <;> simp [select, listed, List.filter_map, Function.comp_def, kept]

/-- Whether the plan sets all of the arguments by itself. -/
def Planned (l : List Argument) : Prop :=
  ∀ argument ∈ l, argument.origin = .fixed ∨ argument.origin = .operand

namespace Planned

theorem append (planned : Planned l) (planned' : Planned m) : Planned (l ++ m) :=
  List.forall_mem_append.mpr ⟨planned, planned'⟩

theorem listed (texts : List String) : Planned (listed .fixed texts) := by
  intro argument mem
  obtain ⟨text, _, rfl⟩ := List.mem_map.mp mem
  exact .inl rfl

theorem taking (option operand : String) : Planned (taking option operand) := by
  simp [Planned, Argument.taking]

theorem flatMap {α : Type} {values : List α} {f : α → List Argument}
    (planned : ∀ a ∈ values, Planned (f a)) : Planned (values.flatMap f) := by
  intro argument mem
  obtain ⟨a, mem', mem⟩ := List.mem_flatMap.mp mem
  exact planned a mem' argument mem

theorem select_eq_nil (planned : Planned l) (fixed : keep .fixed = false)
    (operand : keep .operand = false) : select keep l = [] := by
  have dropped : ∀ argument ∈ l, ¬ keep argument.origin = true := by
    intro argument mem
    rcases planned argument mem with same | same
    · simp [same, fixed]
    · simp [same, operand]
  rw [select, List.filter_eq_nil_iff.mpr dropped]
  rfl

end Planned

end Argument

open Argument

def IncludePath.sourced : IncludePath → List Argument
  | angle path => [⟨.fixed, "-I" ++ path.text⟩]
  | quote path => taking "-iquote" path.text
  | system path => taking "-isystem" path.text

namespace Compilation

variable {c : Compilation} {e : CompileEntry}

/-- What the compilation is for and where it finds its files. -/
def searchSourced (c : Compilation) : List Argument :=
  listed .fixed [c.facts.minimumOsFlag] ++ taking "-arch" c.facts.arch ++
    taking "-isysroot" c.facts.sdkRoot ++
    listed .fixed (c.facts.frameworkRoots.map ("-F" ++ ·)) ++
    c.providers.includePath.toList.flatMap IncludePath.sourced ++
    taking "-iquote" c.facts.genfilesDir.text ++
    c.library.pch.toList.flatMap fun pch => taking "-include" (c.library.label.execPath pch).text

/-- What stands before all definitions. -/
def leading (c : Compilation) (language : Language) : List Argument :=
  listed .fixed (Profile.baseFlags c.facts language) ++ c.searchSourced ++
    listed .fixed c.moduleArguments ++
    listed .fixed (c.facts.coverage.toList.flatMap CoverageMode.compileFlags) ++
    listed .fixed c.facts.bitcode.compileFlag?.toList

/-- The option that the plan adds to those of a library that uses modules. -/
def modulesCacheArguments (c : Compilation) : List String :=
  if "-fmodules" ∈ c.library.copts then
    [Validation.modulesCacheOption ++ "=" ++ (c.facts.genfilesDir / modulesCacheDir).text]
  else []

/-- What definitions and user options make. -/
def userSourced (c : Compilation) : List Argument :=
  listed .definition (c.providers.define.toList.map fun define => "-D" ++ c.expand define) ++
    listed .configured (c.facts.objccopts.map c.expand) ++
    listed .inherited ((c.providers.dependencyCopts c.library.label).flatMap fun group =>
      c.userCopts group.flags) ++
    listed .own (c.userCopts c.library.copts) ++
    listed .fixed c.modulesCacheArguments

/-- What stands behind all user options. -/
def trailing (e : CompileEntry) : List Argument :=
  listed .fixed (if e.language.usesArc then [if e.arc then "-fobjc-arc" else "-fno-objc-arc"]
      else []) ++
    taking "-c" e.source.text ++ taking "-o" e.object.text ++ listed .fixed ["-MD"] ++
    taking "-MF" e.depFile.text

/-- The arguments of a compilation with their origins. -/
def sourced (c : Compilation) (e : CompileEntry) : List Argument :=
  c.leading e.language ++ c.userSourced ++ trailing e

theorem map_text_searchSourced : c.searchSourced.map text = c.searchArguments := by
  have includes : (c.providers.includePath.toList.flatMap IncludePath.sourced).map text =
      c.providers.includePath.toList.flatMap IncludePath.arguments := by
    rw [List.map_flatMap]
    exact List.flatMap_congr fun i _ => by cases i <;> rfl
  have pch : (c.library.pch.toList.flatMap fun pch =>
        taking "-include" (c.library.label.execPath pch).text).map text =
      c.library.pch.toList.flatMap fun pch =>
        ["-include", (c.library.label.execPath pch).text] := by
    rw [List.map_flatMap]
    rfl
  simp only [searchSourced, List.map_append, map_text_listed, map_text_taking, includes, pch]
  rfl

/-- The arguments of the action, once their origins are forgotten. -/
theorem texts_sourced (planned : e ∈ c.plan) : (c.sourced e).map text = e.action.arguments := by
  obtain ⟨source, _, language, object, _, rfl⟩ := mem_plan planned
  simp only [sourced, leading, userSourced, trailing, List.map_append, map_text_listed,
    map_text_taking, map_text_searchSourced]
  simp [entry, arguments, userArguments, modulesCacheArguments]

theorem planned_leading (language : Language) : Planned (c.leading language) := by
  have includes : Planned (c.providers.includePath.toList.flatMap IncludePath.sourced) :=
    .flatMap fun i _ => by
      cases i with
      | angle path => exact .listed ["-I" ++ path.text]
      | quote path => exact .taking "-iquote" path.text
      | system path => exact .taking "-isystem" path.text
  have search : Planned c.searchSourced :=
    (((((Planned.listed _).append (.taking _ _)).append (.taking _ _)).append
      (.listed _)).append includes).append (.taking _ _) |>.append (.flatMap fun _ _ => .taking _ _)
  exact ((((Planned.listed _).append search).append (.listed _)).append (.listed _)).append
    (.listed _)

theorem planned_trailing : Planned (trailing e) :=
  ((((Planned.listed _).append (.taking _ _)).append (.taking _ _)).append (.listed _)).append
    (.taking _ _)

/-- What is not of the plan itself is of definitions and user options. -/
theorem select_sourced {keep : Origin → Bool} (fixed : keep .fixed = false)
    (operand : keep .operand = false) : select keep (c.sourced e) = select keep c.userSourced := by
  have before := (planned_leading (c := c) e.language).select_eq_nil fixed operand
  have behind := (planned_trailing (e := e)).select_eq_nil fixed operand
  rw [sourced, select_append, select_append, before, behind, List.nil_append, List.append_nil]

end Compilation

namespace AnalyzedLibrary.PlannedFor

variable {l : AnalyzedLibrary} {t : Library} {facts : Facts} {e : CompileEntry}

theorem arguments_eq (planned : l.PlannedFor t facts) (mem : e ∈ l.compiles) :
    e.action.arguments = ((t.compilation l.providers facts).sourced e).map text :=
  (Compilation.texts_sourced (planned.compiles ▸ mem)).symm

theorem exists_compile (planned : l.PlannedFor t facts) (compiled : t.compiledSources ≠ []) :
    ∃ e, e ∈ l.compiles := by
  refine List.exists_mem_of_ne_nil _ fun none => compiled ?_
  rw [← List.length_eq_zero_iff, ← planned.length_compiles, none, List.length_nil]

end AnalyzedLibrary.PlannedFor

/-! ### Options of the plan -/

namespace Argument

/-- The options that plans set and that have no value in the same argument. -/
def plainOptions : List String :=
  Profile.warnings ++ Platform.all.map Platform.osDefine ++ Profile.cxxFlags ++
    CompilationMode.all.flatMap (fun mode =>
      Profile.modeFlags mode true ++ Profile.modeFlags mode false) ++
    Profile.simulatorFlags ++ CoverageMode.all.flatMap CoverageMode.compileFlags ++
    BitcodeMode.all.flatMap (fun mode => mode.compileFlag?.toList) ++
    ["-fno-autolink", "-arch", "-isysroot", "-iquote", "-isystem", "-include", "-fobjc-arc",
      "-fno-objc-arc", "-c", "-o", "-MD", "-MF"]

/-- What the options that plans set start with, if they have a value in the same argument. Those for
module maps and the modules cache are not among them. -/
def valuedOptions : List String :=
  Platform.all.map Platform.minimumOsOption ++ ["-F", "-I"]

/-- Whether plans set an option of their own that reads like this, other than for module maps and
the modules cache. -/
def IsPlanOption (text : String) : Prop :=
  text ∈ plainOptions ∨ ∃ front ∈ valuedOptions, ∃ value, text = front ++ value

/-- A text that starts otherwise does not start with `front`. -/
theorem not_prefix_append {front other : String} (before : ¬ other.toList <+: front.toList)
    (behind : ¬ front.toList <+: other.toList) (rest : String) :
    ¬ front.toList <+: (other ++ rest).toList := by
  rw [String.toList_append]
  intro start
  rcases List.prefix_or_prefix_of_prefix start (List.prefix_append _ rest.toList) with h | h
  · exact behind h
  · exact before h

/-- What the options for module maps and the modules cache start with, and no other option that
plans set. -/
def moduleFront : String := "-fmodule"

theorem IsPlanOption.not_prefix {front text : String} (planned : IsPlanOption text)
    (ofModules : moduleFront.toList <+: front.toList) : ¬ front.toList <+: text.toList := by
  intro start
  have start := ofModules.trans start
  rcases planned with isPlain | ⟨option, isValued, value, rfl⟩
  · have plain : ∀ option ∈ plainOptions, ¬ moduleFront.toList <+: option.toList := by
      decide +kernel
    exact plain text isPlain start
  · have valued : ∀ option ∈ valuedOptions,
        ¬ option.toList <+: moduleFront.toList ∧ ¬ moduleFront.toList <+: option.toList := by
      decide
    exact not_prefix_append (valued option isValued).1 (valued option isValued).2 value start

theorem fixed_mem_listed {origin : Origin} {texts : List String} {text : String} :
    ⟨.fixed, text⟩ ∈ listed origin texts ↔ origin = .fixed ∧ text ∈ texts := by
  simp [listed, and_comm]

theorem fixed_mem_taking {option operand text : String} :
    ⟨.fixed, text⟩ ∈ taking option operand ↔ text = option := by
  simp [taking]

end Argument

theorem Profile.baseFlags_subset (f : Facts) (language : Language) :
    baseFlags f language ⊆ plainOptions := by
  have system (platform : Platform) : [platform.osDefine, "-fno-autolink"] ⊆ plainOptions := by
    cases platform <;> decide
  have mode (mode : CompilationMode) (generateDsym : Bool) :
      modeFlags mode generateDsym ⊆ plainOptions := by
    cases mode <;> cases generateDsym <;> decide
  have cxx : (if language.isCxx then cxxFlags else []) ⊆ plainOptions := by
    split <;> decide
  have simulator : (if f.platform.isSimulator then simulatorFlags else []) ⊆ plainOptions := by
    split <;> decide
  simp only [baseFlags, List.append_subset]
  exact ⟨⟨⟨⟨by decide, system f.platform⟩, cxx⟩, mode f.compilationMode f.generateDsym⟩, simulator⟩

namespace Compilation

variable {c : Compilation} {e : CompileEntry}

theorem isPlanOption_of_mem_search {text : String} (mem : ⟨.fixed, text⟩ ∈ c.searchSourced) :
    IsPlanOption text := by
  simp only [searchSourced, List.mem_append, List.mem_flatMap, fixed_mem_listed, fixed_mem_taking,
    true_and, List.mem_singleton, List.mem_map] at mem
  rcases mem with (((((rfl | rfl) | rfl) | ⟨root, _, rfl⟩) | ⟨i, _, mem⟩) | rfl) | ⟨pch, _, rfl⟩
  · refine .inr ⟨c.facts.platform.minimumOsOption, ?_, c.facts.minimumOs, rfl⟩
    cases c.facts.platform <;> decide
  · exact .inl (by decide)
  · exact .inl (by decide)
  · exact .inr ⟨"-F", by decide, root, rfl⟩
  · cases i with
    | angle path =>
      obtain rfl : text = "-I" ++ path.text := by simpa [IncludePath.sourced] using mem
      exact .inr ⟨"-I", by decide, path.text, rfl⟩
    | quote path =>
      rw [fixed_mem_taking.mp mem]
      exact .inl (by decide)
    | system path =>
      rw [fixed_mem_taking.mp mem]
      exact .inl (by decide)
  · exact .inl (by decide)
  · exact .inl (by decide)

theorem cases_of_mem_moduleArguments {text : String} (mem : text ∈ c.moduleArguments) :
    c.facts.enableModuleMaps = true ∧ ∃ m, c.moduleMap = some m ∧
      (text = "-fmodule-maps" ∨ text = "-fmodule-map-file=" ++ m.path.text ∨
        ∃ name, text = "-fmodule-name=" ++ name) := by
  unfold moduleArguments at mem
  split at mem
  · next enabled =>
    obtain ⟨m, isMap, mem⟩ := List.mem_flatMap.mp mem
    refine ⟨enabled, m, Option.mem_toList.mp isMap, ?_⟩
    simp only [ModuleMap.compileFlags, List.cons_append, List.nil_append, List.mem_cons,
      List.mem_map] at mem
    rcases mem with rfl | rfl | ⟨name, _, rfl⟩
    · exact .inl rfl
    · exact .inr (.inl rfl)
    · exact .inr (.inr ⟨name, rfl⟩)
  · contradiction

theorem cases_of_mem_leading {language : Language} {text : String}
    (mem : ⟨.fixed, text⟩ ∈ c.leading language) : text ∈ c.moduleArguments ∨ IsPlanOption text := by
  simp only [leading, List.mem_append, fixed_mem_listed, true_and] at mem
  rcases mem with (((base | search) | ofModules) | coverage) | bitcode
  · exact .inr (.inl (Profile.baseFlags_subset _ _ base))
  · exact .inr (isPlanOption_of_mem_search search)
  · exact .inl ofModules
  · right; left
    obtain ⟨mode, _, mem⟩ := List.mem_flatMap.mp coverage
    have subset : mode.compileFlags ⊆ plainOptions := by cases mode <;> decide
    exact subset mem
  · right; left
    have subset : c.facts.bitcode.compileFlag?.toList ⊆ plainOptions := by
      cases c.facts.bitcode <;> decide
    exact subset bitcode

theorem mem_plainOptions_of_mem_trailing {text : String} (mem : ⟨.fixed, text⟩ ∈ trailing e) :
    text ∈ plainOptions := by
  simp only [trailing, List.mem_append, fixed_mem_listed, fixed_mem_taking, true_and,
    List.mem_singleton] at mem
  rcases mem with (((arc | rfl) | rfl) | rfl) | rfl
  · have subset : (if e.language.usesArc then [if e.arc then "-fobjc-arc" else "-fno-objc-arc"]
        else []) ⊆ plainOptions := by
      split
      · split <;> decide
      · decide
    exact subset arc
  all_goals decide

end Compilation

end ObjcPlan
