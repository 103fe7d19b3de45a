import ObjcPlan.Proofs.Linking

/-! Where the inputs of planned actions come from. A library passes archives and module maps on to
all that depend on it, so an action can list what some far library was to write. No such path is
left open: every input is declared by the graph or written by the same plan
(`TargetGraph.plan_inputs_known`). -/

namespace ObjcPlan

open TargetGraph

/-- The files that the library declares and actions may read, as seen from the workspace root. -/
def Library.files (t : Library) : List Path :=
  (t.srcs ++ t.nonArcSrcs ++ t.hdrs ++ t.pch.toList ++ t.moduleMap.toList).map t.label.execPath

theorem Library.execPath_mem_files {t : Library} {file : Path}
    (declared : file ∈ t.srcs ∨ file ∈ t.nonArcSrcs ∨ file ∈ t.hdrs ∨ t.pch = some file ∨
      t.moduleMap = some file) : t.label.execPath file ∈ t.files := by
  refine List.mem_map_of_mem ?_
  simp only [List.mem_append, Option.mem_toList]
  tauto

/-- The files that are in a workspace before anything of a plan runs. -/
def TargetGraph.Declares (g : TargetGraph) (p : WorkspacePlan) (path : Path) : Prop :=
  (∃ t ∈ g.libraries, ∃ library, p.libraries.get? t.label = some library ∧ path ∈ t.files) ∨
    ∃ info ∈ g.foreign, path ∈ info.headers

/-- Whether an action or a file write of the plan has the path as its output. -/
def WorkspacePlan.Produces (p : WorkspacePlan) (path : Path) : Prop :=
  ∃ label library, p.libraries.get? label = some library ∧ path ∈ library.writtenPaths

/-- Whether the path is the output of a planned archive action. -/
def WorkspacePlan.Archives (p : WorkspacePlan) (path : Path) : Prop :=
  ∃ label library plan, p.libraries.get? label = some library ∧ library.archive = some plan ∧
    plan.action.mnemonic = Archive.mnemonic ∧ plan.action.outputs = [path]

theorem WorkspacePlan.Archives.produces {p : WorkspacePlan} {path : Path}
    (archives : p.Archives path) : p.Produces path := by
  obtain ⟨label, library, plan, found, planned, _, outputs⟩ := archives
  refine ⟨label, library, found, AnalyzedLibrary.mem_writtenPaths_of_output
    (AnalyzedLibrary.mem_actions.mpr (.inr (.inl ⟨plan, planned, rfl⟩))) ?_⟩
  rw [outputs]
  exact List.mem_singleton_self path

/-- The module map of a library is a file that it declares, or one that is written for it. -/
theorem AnalyzedLibrary.PlannedFor.moduleMap_known {l : AnalyzedLibrary} {t : Library}
    {facts : Facts} (planned : l.PlannedFor t facts) :
    (l.moduleMap.generated = false ∧ l.moduleMap.path ∈ t.files) ∨
      (l.moduleMap.generated = true ∧ ∃ write ∈ l.fileWrites, write.output = l.moduleMap.path) := by
  cases own : t.moduleMap with
  | some file =>
    left
    rw [planned.moduleMap, ModuleMap.generate, own]
    exact ⟨rfl, Library.execPath_mem_files (by simp [own])⟩
  | none =>
    right
    have generated : l.moduleMap.generated = true := by
      rw [planned.moduleMap, ModuleMap.generate, own]
    refine ⟨generated, ⟨l.moduleMap.path, l.moduleMap.content⟩, List.mem_append_left _ ?_, rfl⟩
    simp [ModuleMap.write?, generated]

namespace TargetGraph

variable {g : TargetGraph} {p : WorkspacePlan} {label : Label} {library : AnalyzedLibrary}
  {t : Library} {path : Path}

theorem Plans.archives_planned (plans : g.Plans p)
    (found : p.libraries.get? label = some library) (archives : g.Archives p.facts label path) :
    p.Archives path := by
  obtain ⟨u, member, reaches, hasObjects, rfl⟩ := archives
  obtain ⟨library', found', planned'⟩ := plans.reached found u member reaches
  obtain ⟨plan, isPlanned⟩ := Option.isSome_iff_exists.mp (planned'.archive_isSome.trans hasObjects)
  obtain ⟨same, outputs, mnemonic, _⟩ := planned'.archive_eq isPlanned
  exact ⟨_, library', plan, found', isPlanned, mnemonic, same ▸ outputs⟩

theorem Plans.header_declared (plans : g.Plans p) (found : p.libraries.get? label = some library)
    (mem : path ∈ library.providers.header.toList) : g.Declares p path := by
  obtain ⟨d, declared, reaches, own⟩ := plans.mem_values found .header mem
  cases d with
  | foreign info =>
    exact .inr ⟨info, foreign_mem_values.mp declared, own⟩
  | library u =>
    have member := library_mem_values.mp declared
    obtain ⟨library', found', _⟩ := plans.reached found u member reaches
    obtain ⟨file, isHeader, rfl⟩ := List.mem_map.mp (OrderedSet.mem_of_mem_ofList own)
    exact .inl ⟨u, member, library', found', Library.execPath_mem_files (by simp [isHeader])⟩

/-- The module maps that a planned library holds are those of planned libraries. -/
theorem Plans.moduleMap_planned (plans : g.Plans p)
    (found : p.libraries.get? label = some library)
    (mem : path ∈ library.providers.moduleMap.toList) :
    ∃ u ∈ g.libraries, ∃ library', p.libraries.get? u.label = some library' ∧
      library'.PlannedFor u p.facts ∧ path = library'.moduleMap.path := by
  obtain ⟨d, declared, reaches, own⟩ := plans.mem_values found .moduleMap mem
  cases d with
  | foreign info => cases own
  | library u =>
    have member := library_mem_values.mp declared
    obtain ⟨library', found', planned'⟩ := plans.reached found u member reaches
    have isMap := List.mem_singleton.mp (OrderedSet.mem_of_mem_ofList own)
    exact ⟨u, member, library', found', planned', planned'.moduleMap ▸ isMap⟩

theorem known_of_moduleMap (member : t ∈ g.libraries)
    (found : p.libraries.get? t.label = some library) (planned : library.PlannedFor t p.facts) :
    g.Declares p library.moduleMap.path ∨ p.Produces library.moduleMap.path := by
  rcases planned.moduleMap_known with ⟨_, isFile⟩ | ⟨_, write, isWritten, same⟩
  · exact .inl (.inl ⟨t, member, library, found, isFile⟩)
  · exact .inr ⟨_, library, found, same ▸ AnalyzedLibrary.mem_writtenPaths_of_write isWritten⟩

theorem Plans.compile_known (plans : g.Plans p) (member : t ∈ g.libraries)
    (found : p.libraries.get? t.label = some library) (planned : library.PlannedFor t p.facts)
    {entry : CompileEntry} (compiled : entry ∈ library.compiles)
    (mem : path ∈ entry.action.inputs.toList) : g.Declares p path ∨ p.Produces path := by
  rw [planned.compiles] at compiled
  obtain ⟨source, isSource, language, object, _, rfl⟩ := Compilation.mem_plan compiled
  have declares {file : Path} (isFile : t.label.execPath file ∈ t.files) :
      g.Declares p (t.label.execPath file) := .inl ⟨t, member, library, found, isFile⟩
  have listed := OrderedSet.mem_of_mem_ofList mem
  -- the source, then headers, private headers, the header for all sources, and module maps
  simp only [List.cons_append, List.mem_cons, List.mem_append, List.mem_map, Option.mem_toList]
    at listed
  rcases listed with rfl | ((isHeader | ⟨file, isPrivate, rfl⟩) | ⟨file, isPch, rfl⟩) | isMap
  · left
    refine declares (Library.execPath_mem_files ?_)
    rcases List.mem_append.mp (Library.mem_of_compiled isSource) with inSrcs | inNonArcSrcs
    · exact .inl inSrcs
    · exact .inr (.inl inNonArcSrcs)
  · exact .inl (plans.header_declared found isHeader)
  · exact .inl (declares (Library.execPath_mem_files (.inl (List.mem_of_mem_filter isPrivate))))
  · exact .inl (declares (Library.execPath_mem_files (by simp [show t.pch = some file from isPch])))
  · split at isMap
    · rcases List.mem_append.mp isMap with own | inherited
      · obtain rfl : library.moduleMap.path = path := by
          have own : p.facts.enableModuleMaps = true ∧
              (ModuleMap.generate t p.facts.genfilesDir).path = path := by
            simpa [Library.compilation] using own
          exact planned.moduleMap ▸ own.2
        exact known_of_moduleMap member found planned
      · obtain ⟨u, member', library', found', planned', rfl⟩ :=
          plans.moduleMap_planned found inherited
        exact known_of_moduleMap member' found' planned'
    · contradiction

theorem archive_known (member : t ∈ g.libraries)
    (found : p.libraries.get? t.label = some library) (planned : library.PlannedFor t p.facts)
    {plan : ArchivePlan} (isPlanned : library.archive = some plan)
    (mem : path ∈ plan.action.inputs.toList) : g.Declares p path ∨ p.Produces path := by
  rw [planned.archive_inputs isPlanned] at mem
  rcases List.mem_append.mp (OrderedSet.mem_of_mem_ofList mem) with isObject | isList
  · rcases List.mem_append.mp isObject with isCompiled | isPrecompiled
    · obtain ⟨entry, compiled, rfl⟩ := List.mem_map.mp isCompiled
      exact .inr ⟨_, library, found, planned.object_written compiled⟩
    · obtain ⟨file, isSource, rfl⟩ := List.mem_map.mp isPrecompiled
      exact .inl (.inl ⟨t, member, library, found,
        Library.execPath_mem_files (.inl (List.mem_of_mem_filter isSource))⟩)
  · obtain rfl := List.mem_singleton.mp isList
    have isWritten : plan.objlist ∈ library.fileWrites := by
      simp [AnalyzedLibrary.fileWrites, isPlanned]
    exact .inr ⟨_, library, found, AnalyzedLibrary.mem_writtenPaths_of_write isWritten⟩

theorem Plans.fullyLinked_known (plans : g.Plans p) (member : t ∈ g.libraries)
    (found : p.libraries.get? t.label = some library) (planned : library.PlannedFor t p.facts)
    {plan : FullyLinkedPlan} (isPlanned : library.fullyLinked = some plan)
    (mem : path ∈ plan.action.inputs.toList) : p.Archives path := by
  obtain ⟨_, _, inputs, _⟩ := planned.fullyLinked_eq isPlanned
  rw [inputs] at mem
  rcases List.mem_append.mp (OrderedSet.mem_of_mem_ofList mem) with own | inherited
  · obtain ⟨hasObjects, same⟩ := Library.archive?_eq_some_iff.mp (Option.mem_toList.mp own)
    exact plans.archives_planned found ⟨t, member, .refl, hasObjects, same⟩
  · exact plans.archives_planned found (plans.archives found inherited)

/-- Every input of an action is a file that a planned library declares, a header of a foreign
library, or an output of the same plan. The archives that a library passes on are outputs of archive
actions, and the module maps that it compiles with or passes on are those of planned libraries, each
of them written by the plan unless the library brings its own. -/
theorem plan_inputs_known (g : TargetGraph) (o : Options) (toolchain : Toolchain) (parallel : Bool)
    {p : WorkspacePlan} (planned : (g.plan o toolchain parallel .empty).1 = .ok p) {label : Label}
    {library : AnalyzedLibrary} (found : p.libraries.get? label = some library) :
    (∀ action ∈ library.actions, ∀ path ∈ action.inputs.toList,
        g.Declares p path ∨ p.Produces path) ∧
      (∀ path ∈ library.providers.library.toList, p.Archives path) ∧
      ∀ path ∈ library.moduleMap.path :: library.providers.moduleMap.toList,
        ∃ u ∈ g.libraries, ∃ library', p.libraries.get? u.label = some library' ∧
          path = library'.moduleMap.path ∧
          ((library'.moduleMap.generated = false ∧ path ∈ u.files) ∨
            (library'.moduleMap.generated = true ∧
              ∃ write ∈ library'.fileWrites, write.output = path)) := by
  have plans := plans_of_plan planned
  obtain ⟨t, member, rfl, plannedFor⟩ := plans.library found
  refine ⟨?_, fun path mem => plans.archives_planned found (plans.archives found mem), ?_⟩
  · intro action isPlanned path mem
    rcases AnalyzedLibrary.mem_actions.mp isPlanned with
      ⟨entry, compiled, rfl⟩ | ⟨plan, archived, rfl⟩ | ⟨plan, linked, rfl⟩
    · exact plans.compile_known member found plannedFor compiled mem
    · exact archive_known member found plannedFor archived mem
    · exact .inr (plans.fullyLinked_known member found plannedFor linked mem).produces
  · intro path mem
    rcases List.mem_cons.mp mem with rfl | inherited
    · exact ⟨t, member, library, found, rfl, plannedFor.moduleMap_known⟩
    · obtain ⟨u, member', library', found', planned', rfl⟩ :=
        plans.moduleMap_planned found inherited
      exact ⟨u, member', library', found', rfl, planned'.moduleMap_known⟩

end TargetGraph

/-- What `app` archives is known, and so are the archive and the module map that come to it from
`core`, of which it is told by `facade`. -/
theorem TargetGraph.plan_inputs_known_bundle :
    ∃ p library plan,
      (Bundle.graph.plan {} (.xcode Toolchain.defaultRoot) true .empty).1 = .ok p ∧
      p.libraries.get? Bundle.app.label = some library ∧ library.archive = some plan ∧
      (∀ path ∈ plan.action.inputs.toList, Bundle.graph.Declares p path ∨ p.Produces path) ∧
      (∃ path ∈ library.providers.library.toList,
        (Archive.path Bundle.core.label p.facts).components = path.components ∧
          p.Archives path) ∧
      ∃ path ∈ library.providers.moduleMap.toList,
        Path.components "core/core.modulemap" = path.components ∧
          ∃ u ∈ Bundle.graph.libraries, path ∈ u.files ∨ p.Produces path := by
  obtain ⟨p, planned, all⟩ := Bundle.exists_plan
  obtain ⟨library, found⟩ := all Bundle.app (by decide)
  have plans := plans_of_plan planned
  have plannedFor := plans.plannedFor (by decide) found
  obtain ⟨plan, isPlanned⟩ := Option.isSome_iff_exists.mp
    (plannedFor.archive_isSome.trans (by decide))
  obtain ⟨known, archives, maps⟩ := TargetGraph.plan_inputs_known Bundle.graph {}
    (.xcode Toolchain.defaultRoot) true planned found
  refine ⟨p, library, plan, planned, found, isPlanned,
    known _ (AnalyzedLibrary.mem_actions.mpr (.inr (.inl ⟨plan, isPlanned, rfl⟩))), ?_, ?_⟩
  · obtain ⟨path, listed, same⟩ := OrderedSet.contains_iff.mp (plans.contains_archive found
      ⟨Bundle.core, by decide, Bundle.reaches_core, by decide, rfl⟩)
    exact ⟨path, listed, same, archives path listed⟩
  · have declared : Declaration.library Bundle.core ∈ Bundle.graph.declarations.values := by
      decide
    obtain ⟨path, listed, same⟩ := OrderedSet.contains_iff.mp
      (plans.contains_value found declared Bundle.reaches_core .moduleMap
        (List.mem_singleton_self (Path.mk "core/core.modulemap")))
    obtain ⟨u, member', library', found', _, isFile | ⟨_, write, isWritten, output⟩⟩ :=
      maps path (List.mem_cons_of_mem _ listed)
    · exact ⟨path, listed, same, u, member', .inl isFile.2⟩
    · exact ⟨path, listed, same, u, member', .inr ⟨_, library', found',
        output ▸ AnalyzedLibrary.mem_writtenPaths_of_write isWritten⟩⟩

end ObjcPlan
