import ObjcPlan.Proofs.FileNames
import ObjcPlan.Proofs.Inputs
import ObjcPlan.Proofs.NamedFiles
import ObjcPlan.Proofs.Switches

/-! What a compilation may read. Headers and module maps come from all targets that the library
reaches, private headers and the header that every source includes first from the library alone. So
the private headers of a dependency stay out unless the library could read them anyway, and the
files that the options of the plan name are all declared (`TargetGraph.plan_compile_inputs`). -/

namespace ObjcPlan

open Argument Identity TargetGraph

/-- Whether a target that the label reaches has the path among its headers. -/
def TargetGraph.Exports (g : TargetGraph) (label : Label) (path : Path) : Prop :=
  (∃ u ∈ g.libraries, g.Reaches label u.label ∧
      ∃ file ∈ u.hdrs, (u.label.execPath file).components = path.components) ∨
    ∃ info ∈ g.foreign, g.Reaches label info.label ∧
      ∃ header ∈ info.headers, header.components = path.components

/-- Whether the path is a private header of the library or its header for all sources. -/
def Library.Includes (t : Library) (path : Path) : Prop :=
  ∃ file, (file ∈ t.privateHeaders ∨ t.pch = some file) ∧
    (t.label.execPath file).components = path.components

/-- Whether the path is the module map of a library that the label reaches. -/
def TargetGraph.Maps (g : TargetGraph) (p : WorkspacePlan) (label : Label) (path : Path) : Prop :=
  ∃ u ∈ g.libraries, g.Reaches label u.label ∧
    ∃ library, p.libraries.get? u.label = some library ∧
      library.moduleMap.path.components = path.components

theorem Facts.enableModuleMaps_of_resolve {o : Options} {toolchain : Toolchain} {facts : Facts}
    (resolved : Facts.resolve o toolchain = .ok facts) :
    facts.enableModuleMaps = o.enableModuleMaps := by
  have switched : resolve o toolchain = _ :=
    resolve_switched o toolchain o.useDotdPruning o.enableModuleMaps
  rw [resolved] at switched
  exact congrArg Facts.enableModuleMaps (Except.ok.inj switched)

namespace Compilation

variable {c : Compilation} {source path : Path}

theorem head?_inputs (c : Compilation) (source : Path) :
    (c.inputs source).toList.head? = some source := by
  rw [inputs, OrderedSet.toList_ofList]
  rfl

theorem contains_inputs : (c.inputs source).contains path = true ↔
    path.components = source.components ∨ c.providers.header.contains path = true ∨
      c.library.Includes path ∨ c.facts.enableModuleMaps = true ∧
        ((∃ m, c.moduleMap = some m ∧ m.path.components = path.components) ∨
          c.providers.moduleMap.contains path = true) := by
  have same {p : Path} : key p = key path ↔ p.components = path.components := Iff.rfl
  have held {s : OrderedSet Path} :
      s.contains path = true ↔ ∃ p ∈ s.toList, p.components = path.components :=
    OrderedSet.contains_iff.trans (exists_congr fun p => and_congr_right fun _ => eq_comm)
  have included : c.library.Includes path ↔
      (∃ p ∈ c.library.privateHeaders.map c.library.label.execPath,
        p.components = path.components) ∨
        ∃ p ∈ c.library.pch.toList.map c.library.label.execPath,
          p.components = path.components := by
    simp only [Library.Includes, or_and_right, exists_or, List.mem_map, exists_exists_and_eq_and,
      Option.mem_toList]
  have mapped : (c.facts.enableModuleMaps = true ∧
        ((∃ m, c.moduleMap = some m ∧ m.path.components = path.components) ∨
          c.providers.moduleMap.contains path = true)) ↔
      ∃ p ∈ (if c.facts.enableModuleMaps then
        c.moduleMap.toList.map ModuleMap.path ++ c.providers.moduleMap.toList else []),
        p.components = path.components := by
    cases c.facts.enableModuleMaps with
    | false => simp
    | true => simp [held, or_and_right, exists_or]
  rw [inputs, OrderedSet.contains_ofList_iff, held, included, mapped]
  simp only [same, List.cons_append, List.mem_cons, List.mem_append, or_and_right, exists_or,
    exists_eq_left, or_assoc]
  rw [eq_comm]

end Compilation

namespace TargetGraph

variable {g : TargetGraph} {p : WorkspacePlan} {label : Label} {library : AnalyzedLibrary}
  {t : Library} {path : Path}

/-- What a planned library holds is what the targets that it reaches contribute by themselves. -/
theorem Plans.contains_get_iff (plans : g.Plans p)
    (found : p.libraries.get? label = some library) (key : ProviderKey) {value : key.Value} :
    (library.providers.get key).contains value = true ↔
      ∃ d ∈ g.declarations.values, g.Reaches label d.label ∧
        ∃ value' ∈ d.own p.facts key, Identity.key value' = Identity.key value := by
  rw [plans.values found key, OrderedSet.contains_ofList_iff]
  simp only [List.mem_flatMap, mem_traversal_iff]
  constructor
  · rintro ⟨value', ⟨d, ⟨declared, reaches⟩, own⟩, same⟩
    exact ⟨d, declared, reaches, value', own, same⟩
  · rintro ⟨d, declared, reaches, value', own, same⟩
    exact ⟨value', ⟨d, ⟨declared, reaches⟩, own⟩, same⟩

theorem Plans.contains_header (plans : g.Plans p)
    (found : p.libraries.get? label = some library) :
    library.providers.header.contains path = true ↔ g.Exports label path := by
  refine (plans.contains_get_iff found .header).trans ⟨?_, ?_⟩
  · rintro ⟨d, declared, reaches, header, own, same⟩
    cases d with
    | foreign info => exact .inr ⟨info, foreign_mem_values.mp declared, reaches, header, own, same⟩
    | library u =>
      obtain ⟨file, isHeader, rfl⟩ := List.mem_map.mp (OrderedSet.mem_of_mem_ofList own)
      exact .inl ⟨u, library_mem_values.mp declared, reaches, file, isHeader, same⟩
  · rintro (⟨u, member, reaches, file, isHeader, same⟩ |
      ⟨info, isForeign, reaches, header, own, same⟩)
    · -- the library contributes the file in the spelling that comes first
      obtain ⟨header, own, same'⟩ := OrderedSet.contains_iff.mp
        (OrderedSet.contains_ofList_of_mem (List.mem_map_of_mem (f := u.label.execPath) isHeader))
      exact ⟨.library u, library_mem_values.mpr member, reaches, header, own, same'.symm.trans same⟩
    · exact ⟨.foreign info, foreign_mem_values.mpr isForeign, reaches, header, own, same⟩

theorem Plans.contains_moduleMap (plans : g.Plans p)
    (found : p.libraries.get? label = some library) :
    library.providers.moduleMap.contains path = true ↔ g.Maps p label path := by
  refine (plans.contains_get_iff found .moduleMap).trans ⟨?_, ?_⟩
  · rintro ⟨d, declared, reaches, file, own, same⟩
    cases d with
    | foreign info => cases own
    | library u =>
      have member := library_mem_values.mp declared
      obtain ⟨library', found', planned⟩ := plans.reached found u member reaches
      obtain rfl := List.mem_singleton.mp (OrderedSet.mem_of_mem_ofList own)
      exact ⟨u, member, reaches, library', found', planned.moduleMap ▸ same⟩
  · rintro ⟨u, member, reaches, library', found', same⟩
    rw [(plans.plannedFor member found').moduleMap] at same
    exact ⟨.library u, library_mem_values.mpr member, reaches, _, List.mem_singleton_self _, same⟩

/-- What a compilation may read: its source, headers of what the library reaches, headers of its own
and, if module maps are in use, those of what the library reaches. -/
theorem Plans.contains_inputs (plans : g.Plans p) (member : t ∈ g.libraries)
    (found : p.libraries.get? t.label = some library) {e : CompileEntry}
    (compiled : e ∈ library.compiles) : e.action.inputs.contains path = true ↔
      path.components = e.source.components ∨ g.Exports t.label path ∨ t.Includes path ∨
        p.facts.enableModuleMaps = true ∧ g.Maps p t.label path := by
  have planned := plans.plannedFor member found
  obtain ⟨source, _, language, object, _, rfl⟩ := Compilation.mem_plan (planned.compiles ▸ compiled)
  have mapped : (p.facts.enableModuleMaps = true ∧
        ((∃ m, (t.compilation library.providers p.facts).moduleMap = some m ∧
            m.path.components = path.components) ∨
          library.providers.moduleMap.contains path = true)) ↔
      p.facts.enableModuleMaps = true ∧ g.Maps p t.label path := by
    refine and_congr_right fun enabled => ?_
    rw [plans.contains_moduleMap found, or_iff_right_iff_imp]
    rintro ⟨m, used, same⟩
    have own : m = library.moduleMap := by
      rw [planned.moduleMap]
      simpa [Library.compilation, enabled, eq_comm] using used
    exact ⟨t, member, .refl, library, found, own ▸ same⟩
  refine Compilation.contains_inputs.trans ?_
  rw [← mapped, ← plans.contains_header found]
  rfl

end TargetGraph

/-! ### Private headers -/

/-- A private header of one library is no source of another one. -/
theorem Library.private_ne_compiled {t u : Library} {file : Path} {source : Library.Source}
    (isPrivate : file ∈ u.privateHeaders) (compiled : source ∈ t.compiledSources) :
    (u.label.execPath file).components ≠ (t.label.execPath source.file).components := by
  intro same
  have isIncluded : FileKind.ofPath file = .header ∨ FileKind.ofPath file = .textual := by
    simpa using (List.mem_filter.mp isPrivate).2
  obtain ⟨language, isSource⟩ := language_of_mem compiled
  have kinds : FileKind.ofPath file = FileKind.ofPath source.file :=
    calc FileKind.ofPath file
        = FileKind.ofPath (u.label.execPath file) := by
          refine (FileKind.ofPath_join ?_).symm
          rcases isIncluded with kind | kind <;> simp [kind]
      _ = FileKind.ofPath (t.label.execPath source.file) := FileKind.ofPath_eq_of_components same
      _ = FileKind.ofPath source.file := by
          refine FileKind.ofPath_join fun other => ?_
          rw [other] at isSource
          contradiction
  rw [← kinds] at isSource
  rcases isIncluded with kind | kind <;> rw [kind] at isSource <;> contradiction

/-! ### Named files -/

namespace AnalyzedLibrary.PlannedFor

variable {l : AnalyzedLibrary} {t : Library} {facts : Facts} {e : CompileEntry}

theorem mem_sourced_moduleMap (planned : l.PlannedFor t facts) {file : Path} :
    ⟨.fixed, moduleMapOption ++ file.text⟩ ∈ (t.compilation l.providers facts).sourced e ↔
      facts.enableModuleMaps = true ∧ file = l.moduleMap.path := by
  refine Compilation.mem_sourced_moduleMap.trans (and_congr_right fun enabled => ?_)
  have enabled : facts.enableModuleMaps = true := enabled
  simp [planned.moduleMap, Library.compilation, enabled]

end AnalyzedLibrary.PlannedFor

namespace TargetGraph

/-- A compilation may read its source, which comes first, the headers of all targets that the
library reaches, the private headers of the library and its header for all sources and, if module
maps are in use, those of all libraries that it reaches; and nothing else. So a private header of
any library comes in only as one of these, but not as the source. The files that the options of the
plan itself name are the source, the header for all sources and, if in use, the library's own module
map, and all of them are inputs; those that its options for outputs name are the outputs. -/
theorem plan_compile_inputs (g : TargetGraph) (o : Options) (toolchain : Toolchain)
    (parallel : Bool) {p : WorkspacePlan}
    (planned : (g.plan o toolchain parallel .empty).1 = .ok p) {label : Label}
    {library : AnalyzedLibrary} (found : p.libraries.get? label = some library) :
    ∃ t ∈ g.libraries, t.label = label ∧ ∀ e ∈ library.compiles,
      let inputs := e.action.inputs
      let arguments := (t.compilation library.providers p.facts).sourced e
      inputs.toList.head? = some e.source ∧
      (∀ path, inputs.contains path = true ↔
        path.components = e.source.components ∨ g.Exports label path ∨ t.Includes path ∨
          o.enableModuleMaps = true ∧ g.Maps p label path) ∧
      (∀ u ∈ g.libraries, ∀ file ∈ u.privateHeaders,
        let path := u.label.execPath file
        inputs.contains path = true ↔ g.Exports label path ∨ t.Includes path ∨
          o.enableModuleMaps = true ∧ g.Maps p label path) ∧
      e.action.arguments = arguments.map text ∧
      operands "-c" arguments = [e.source.text] ∧
      operands "-include" arguments = t.pch.toList.map (fun pch => (t.label.execPath pch).text) ∧
      (∀ file : Path, ⟨.fixed, "-fmodule-map-file=" ++ file.text⟩ ∈ arguments ↔
        o.enableModuleMaps = true ∧ file = library.moduleMap.path) ∧
      (∀ file : Path, file.text ∈ operands "-c" arguments ++ operands "-include" arguments ∨
        ⟨.fixed, "-fmodule-map-file=" ++ file.text⟩ ∈ arguments → inputs.contains file = true) ∧
      (operands "-o" arguments ++ operands "-MF" arguments).map Path.mk = e.action.outputs := by
  have plans := plans_of_plan planned
  obtain ⟨t, member, rfl, plannedFor⟩ := plans.library found
  have enabled : p.facts.enableModuleMaps = o.enableModuleMaps :=
    Facts.enableModuleMaps_of_resolve (resolve_of_plan planned)
  refine ⟨t, member, rfl, fun e compiled => ?_⟩
  intro inputs arguments
  have exact (path : Path) : inputs.contains path = true ↔
      path.components = e.source.components ∨ g.Exports t.label path ∨ t.Includes path ∨
        o.enableModuleMaps = true ∧ g.Maps p t.label path :=
    enabled ▸ plans.contains_inputs member found compiled
  have maps (file : Path) : ⟨.fixed, "-fmodule-map-file=" ++ file.text⟩ ∈ arguments ↔
      o.enableModuleMaps = true ∧ file = library.moduleMap.path :=
    enabled ▸ plannedFor.mem_sourced_moduleMap
  obtain ⟨source, isSource, language, object, _, rfl⟩ :=
    Compilation.mem_plan (plannedFor.compiles ▸ compiled)
  refine ⟨Compilation.head?_inputs _ _, exact, ?_, plannedFor.arguments_eq compiled,
    Compilation.operands_source, Compilation.operands_include, maps, ?_, ?_⟩
  · intro u _ file isPrivate
    exact (exact _).trans (or_iff_right (Library.private_ne_compiled isPrivate isSource))
  · intro file isNamed
    rw [Compilation.operands_source, Compilation.operands_include, List.mem_append,
      List.mem_singleton, List.mem_map, maps] at isNamed
    rw [exact]
    rcases isNamed with (same | ⟨pch, isPch, same⟩) | ⟨enabled, rfl⟩
    · exact .inl (congrArg (fun text => Path.components ⟨text⟩) same)
    · exact .inr (.inr (.inl ⟨pch, .inr (Option.mem_toList.mp isPch),
        congrArg (fun text => Path.components ⟨text⟩) same⟩))
    · exact .inr (.inr (.inr ⟨enabled, t, member, .refl, library, found, rfl⟩))
  · rw [Compilation.operands_object, Compilation.operands_depFile]
    rfl

end TargetGraph

namespace Overlap

/-- A library whose private headers come to compilations of `upper` too, but for the last. -/
def lower : Library where
  label := ⟨"pair", "lower", by decide, by decide⟩
  srcs := ["lower.m", "shared.h", "prefix.h", "map.h", "hidden.h"]
  hdrs := ["lower.h"]
  moduleMap := some "map.h"

def upper : Library where
  label := ⟨"pair", "upper", by decide, by decide⟩
  srcs := ["upper.m", "shared.h"]
  pch := some "prefix.h"
  deps := [lower.label]

def graph : TargetGraph where
  declarations := ⟨[(lower.label, .library lower), (upper.label, .library upper)], by decide⟩
  keyed := by decide

def options : Options where
  enableModuleMaps := true

theorem exists_plan :
    ∃ p, (graph.plan options (.xcode Toolchain.defaultRoot) true .empty).1 = .ok p ∧
      ∀ t ∈ graph.libraries, ∃ library, p.libraries.get? t.label = some library :=
  exists_whole_plan rfl (by decide) (by decide +kernel) (by decide)
    (by rintro ⟨_ | _⟩ <;> decide)

theorem reaches_lower : graph.Reaches upper.label lower.label :=
  .single ⟨upper, by decide, rfl, by decide⟩

theorem exports_iff {path : Path} :
    graph.Exports upper.label path ↔ Path.components "pair/lower.h" = path.components := by
  constructor
  · have onlyHeader : ∀ u ∈ graph.libraries, ∀ file ∈ u.hdrs,
        (u.label.execPath file).components = Path.components "pair/lower.h" := by decide
    have noForeign : graph.foreign = [] := by decide
    rintro (⟨u, member, _, file, isHeader, same⟩ | ⟨info, isForeign, _⟩)
    · exact (onlyHeader u member file isHeader).symm.trans same
    · rw [noForeign] at isForeign
      contradiction
  · exact fun same => .inl ⟨lower, by decide, reaches_lower, "lower.h", by decide, same⟩

theorem exists_compile : ∃ p library e,
    (graph.plan options (.xcode Toolchain.defaultRoot) true .empty).1 = .ok p ∧
      p.libraries.get? upper.label = some library ∧ e ∈ library.compiles := by
  obtain ⟨p, planned, all⟩ := exists_plan
  obtain ⟨library, found⟩ := all upper (by decide)
  obtain ⟨e, compiled⟩ := ((plans_of_plan planned).plannedFor (by decide) found).exists_compile
    (by decide)
  exact ⟨p, library, e, planned, found, compiled⟩

end Overlap

open Overlap in
/-- Of the headers of `lower`, the compilation of `upper` may read the public one and not the one
that is private to `lower` alone. -/
theorem TargetGraph.plan_compile_inputs_overlap : ∃ p library e,
    (graph.plan options (.xcode Toolchain.defaultRoot) true .empty).1 = .ok p ∧
      p.libraries.get? upper.label = some library ∧ e ∈ library.compiles ∧
      e.action.inputs.contains "pair/lower.h" = true ∧
      e.action.inputs.contains "pair/hidden.h" = false ∧
      e.action.inputs.contains library.moduleMap.path = true ∧
      operands "-include" ((upper.compilation library.providers p.facts).sourced e) =
        ["pair/prefix.h"] := by
  obtain ⟨p, library, e, planned, found, compiled⟩ := exists_compile
  have plans := plans_of_plan planned
  obtain ⟨t, member, same, all⟩ := plan_compile_inputs graph options
    (.xcode Toolchain.defaultRoot) true planned found
  obtain rfl := eq_of_label_eq member (by decide : upper ∈ graph.libraries) same
  obtain ⟨_, reads, isPrivate, _, _, prefixes, maps, named, _⟩ := all e compiled
  refine ⟨p, library, e, planned, found, compiled, (reads _).mpr (.inr (.inl ?_)), ?_,
    named _ (.inr ((maps _).mpr ⟨rfl, rfl⟩)), prefixes⟩
  · exact exports_iff.mpr rfl
  · rw [← Bool.not_eq_true]
    intro hidden
    rcases (isPrivate lower (by decide) "hidden.h" (by decide)).mp hidden with
      isExported | ⟨file, isOwn, same⟩ | ⟨_, u, member', _, library', found', same⟩
    · exact absurd (exports_iff.mp isExported) (by decide)
    · have own : ∀ file ∈ upper.privateHeaders ++ upper.pch.toList,
          (upper.label.execPath file).components ≠
            (lower.label.execPath "hidden.h").components := by
        decide
      exact own file (by simpa using isOwn) same
    · have libraries : ∀ u ∈ graph.libraries, u = upper ∨ u = lower := by decide
      rw [(plans.plannedFor member' found').moduleMap] at same
      rcases libraries u member' with rfl | rfl
      · -- the map that is generated has another name
        have last : (ModuleMap.generate upper p.facts.genfilesDir).path.components.getLast? =
            some (.name "module.modulemap") := Path.getLast?_components_join (by decide)
        rw [same] at last
        exact absurd last (by decide)
      · have other : (lower.label.execPath "map.h").components ≠
            (lower.label.execPath "hidden.h").components := by decide
        exact other same

open Overlap in
/-- Private headers of `lower` that no library exports. The compilation of `upper` may read them as
its own private header, its header for all sources and a module map. -/
theorem TargetGraph.plan_compile_inputs_private : ∃ p library e,
    (graph.plan options (.xcode Toolchain.defaultRoot) true .empty).1 = .ok p ∧
      p.libraries.get? upper.label = some library ∧ e ∈ library.compiles ∧
      graph.Reaches upper.label lower.label ∧
      ∀ file ∈ (["shared.h", "prefix.h", "map.h"] : List Path),
        file ∈ lower.privateHeaders ∧ ¬ graph.Exports upper.label (lower.label.execPath file) ∧
          e.action.inputs.contains (lower.label.execPath file) = true := by
  obtain ⟨p, library, e, planned, found, compiled⟩ := exists_compile
  have plans := plans_of_plan planned
  have enabled : p.facts.enableModuleMaps = true :=
    Facts.enableModuleMaps_of_resolve (resolve_of_plan planned)
  have unexported : ∀ file ∈ (["shared.h", "prefix.h", "map.h"] : List Path),
      file ∈ lower.privateHeaders ∧
        Path.components "pair/lower.h" ≠ (lower.label.execPath file).components := by decide
  refine ⟨p, library, e, planned, found, compiled, reaches_lower, fun file mem => ?_⟩
  obtain ⟨isPrivate, apart⟩ := unexported file mem
  refine ⟨isPrivate, fun isExported => apart (exports_iff.mp isExported), ?_⟩
  rw [plans.contains_inputs (by decide : upper ∈ graph.libraries) found compiled]
  right; right
  simp only [List.mem_cons, List.not_mem_nil, or_false] at mem
  rcases mem with rfl | rfl | rfl
  · exact .inl ⟨"shared.h", .inl (by decide), rfl⟩
  · exact .inl ⟨"prefix.h", .inr rfl, rfl⟩
  · obtain ⟨library', found', planned'⟩ := plans.reached found lower (by decide) reaches_lower
    exact .inr ⟨enabled, lower, by decide, reaches_lower, library', found',
      planned'.moduleMap ▸ rfl⟩

end ObjcPlan
