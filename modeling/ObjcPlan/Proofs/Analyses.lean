import ObjcPlan.Proofs.Inheritance

/-! What the analysis of a library holds (`AnalyzedLibrary.PlannedFor`), and what a plan made with
an empty cache holds of the libraries in it (`TargetGraph.Plans`): each is planned for its
declaration, all libraries that it reaches are planned too, and its sets are those of a traversal.
Later modules read plans through these two structures. -/

namespace ObjcPlan

open TargetGraph

/-- The archive of a library, if it has anything to archive. -/
def Library.archive? (t : Library) (facts : Facts) : Option Path :=
  if t.hasObjects then some (Archive.path t.label facts) else none

/-- The compilations of a library that offers `providers`. -/
def Library.compilation (t : Library) (providers : ProviderSet) (facts : Facts) : Compilation where
  library := t
  providers
  facts
  moduleMap :=
    if facts.enableModuleMaps then some (.generate t facts.genfilesDir) else none

/-- The analysis holds what is planned for a library with what it offers. -/
structure AnalyzedLibrary.PlannedFor (l : AnalyzedLibrary) (t : Library) (facts : Facts) :
    Prop where
  label : l.label = t.label
  moduleMap : l.moduleMap = .generate t facts.genfilesDir
  compiles : l.compiles = (t.compilation l.providers facts).plan
  archive : l.archive = Archive.plan? t l.compiles facts
  fullyLinked :
    l.fullyLinked = Archive.planFullyLinked? t.label (t.archive? facts) l.providers facts

theorem Library.plannedFor_of_analyze {t : Library} {dependencies : List Dependency}
    {facts : Facts} {library : AnalyzedLibrary}
    (h : t.analyze dependencies facts = .ok library) : library.PlannedFor t facts := by
  obtain ⟨warnings, _, returned⟩ := exists_of_bind h
  obtain rfl := Except.ok.inj returned
  exact ⟨rfl, rfl, rfl, rfl, rfl⟩

namespace AnalyzedLibrary

variable {l : AnalyzedLibrary} {action : Action}

/-- The outputs of the library's actions and file writes. -/
def writtenPaths (l : AnalyzedLibrary) : List Path :=
  l.actions.flatMap Action.outputs ++ l.fileWrites.map FileWrite.output

theorem mem_actions : action ∈ l.actions ↔
    (∃ entry ∈ l.compiles, entry.action = action) ∨
      (∃ plan, l.archive = some plan ∧ plan.action = action) ∨
      ∃ plan, l.fullyLinked = some plan ∧ plan.action = action := by
  simp [actions]

theorem mem_writtenPaths_of_output {path : Path} (planned : action ∈ l.actions)
    (mem : path ∈ action.outputs) : path ∈ l.writtenPaths :=
  List.mem_append_left _ (List.mem_flatMap.mpr ⟨action, planned, mem⟩)

theorem mem_writtenPaths_of_write {write : FileWrite} (mem : write ∈ l.fileWrites) :
    write.output ∈ l.writtenPaths :=
  List.mem_append_right _ (List.mem_map_of_mem mem)

end AnalyzedLibrary

/-! ### Compilations -/

theorem Library.language_of_mem {t : Library} {source : Library.Source}
    (mem : source ∈ t.compiledSources) : ∃ language,
      (FileKind.ofPath source.file).language? = some language := by
  simp only [compiledSources, List.mem_append, List.mem_map, List.mem_filter] at mem
  rcases mem with ⟨file, ⟨_, compiled⟩, rfl⟩ | ⟨file, ⟨_, compiled⟩, rfl⟩ <;>
    exact Option.isSome_iff_exists.mp compiled

theorem Library.mem_of_compiled {t : Library} {source : Library.Source}
    (mem : source ∈ t.compiledSources) : source.file ∈ t.srcs ++ t.nonArcSrcs := by
  simp only [compiledSources, List.mem_append, List.mem_map, List.mem_filter] at mem
  rcases mem with ⟨file, ⟨declared, _⟩, rfl⟩ | ⟨file, ⟨declared, _⟩, rfl⟩
  · exact List.mem_append_left _ declared
  · exact List.mem_append_right _ declared

theorem length_objectPaths (t : Library) (binDir : Path) :
    (objectPaths t binDir).length = t.compiledSources.length := by
  simp [objectPaths]

theorem map_filterMap_of_forall {α β γ : Type} {f : α → Option β} {value : β → γ} (value' : α → γ)
    {l : List α} (h : ∀ a ∈ l, ∃ b, f a = some b ∧ value b = value' a) :
    (l.filterMap f).map value = l.map value' := by
  induction l with
  | nil => rfl
  | cons a rest ih =>
    obtain ⟨b, some, same⟩ := h a List.mem_cons_self
    rw [List.filterMap_cons, some, List.map_cons, List.map_cons, same,
      ih fun a mem => h a (List.mem_cons_of_mem _ mem)]

namespace Compilation

/-- The objects of the compilations are the object paths of the sources, in order. -/
theorem objects_plan (c : Compilation) :
    c.plan.map CompileEntry.object = objectPaths c.library c.facts.binDir := by
  unfold plan
  rw [map_filterMap_of_forall Prod.snd, List.map_snd_zip]
  · exact (length_objectPaths _ _).le
  · rintro ⟨source, object⟩ mem
    obtain ⟨language, compiled⟩ := Library.language_of_mem (List.of_mem_zip mem).1
    exact ⟨c.entry source.file source.arc language object, by simp [compiled], rfl⟩

theorem mem_plan {c : Compilation} {e : CompileEntry} (mem : e ∈ c.plan) :
    ∃ source ∈ c.library.compiledSources, ∃ language,
      ∃ object ∈ objectPaths c.library c.facts.binDir,
        e = c.entry source.file source.arc language object := by
  obtain ⟨⟨source, object⟩, isPair, made⟩ := List.mem_filterMap.mp mem
  obtain ⟨language, _, rfl⟩ := Option.map_eq_some_iff.mp made
  exact ⟨source, (List.of_mem_zip isPair).1, language, object, (List.of_mem_zip isPair).2, rfl⟩

end Compilation

/-! ### Archives -/

theorem Archive.plan?_eq_none_iff {t : Library} {compiles : List CompileEntry} {facts : Facts} :
    Archive.plan? t compiles facts = none ↔
      compiles = [] ∧ t.precompiledObjects = [] := by
  simp [Archive.plan?]

namespace AnalyzedLibrary.PlannedFor

variable {l : AnalyzedLibrary} {t : Library} {facts : Facts}

theorem objects_eq (planned : l.PlannedFor t facts) :
    l.compiles.map CompileEntry.object = objectPaths t facts.binDir := by
  rw [planned.compiles]
  exact Compilation.objects_plan _

theorem length_compiles (planned : l.PlannedFor t facts) :
    l.compiles.length = t.compiledSources.length := by
  rw [← length_objectPaths t facts.binDir, ← planned.objects_eq, List.length_map]

/-- An archive is planned exactly for the libraries that have something to archive. -/
theorem archive_isSome (planned : l.PlannedFor t facts) : l.archive.isSome = t.hasObjects := by
  have compiled : l.compiles = [] ↔ t.compiledSources = [] := by
    rw [← List.length_eq_zero_iff, planned.length_compiles, List.length_eq_zero_iff]
  rw [← Bool.not_inj_iff, Option.not_isSome, planned.archive]
  rw [Bool.eq_iff_iff, Option.isNone_iff_eq_none, Archive.plan?_eq_none_iff, compiled]
  simp [Library.hasObjects]

theorem archive_eq (planned : l.PlannedFor t facts) {plan : ArchivePlan}
    (found : l.archive = some plan) :
    plan.archive = Archive.path t.label facts ∧ plan.action.outputs = [plan.archive] ∧
      plan.action.mnemonic = Archive.mnemonic ∧
      plan.objlist.output = Archive.objlistPath t.label facts := by
  rw [planned.archive, Archive.plan?] at found
  split at found
  · contradiction
  · obtain rfl := Option.some.inj found
    exact ⟨rfl, rfl, rfl, rfl⟩

theorem object_written (planned : l.PlannedFor t facts) {entry : CompileEntry}
    (compiled : entry ∈ l.compiles) : entry.object ∈ l.writtenPaths := by
  have output : entry.object ∈ entry.action.outputs := by
    obtain ⟨_, _, _, _, _, rfl⟩ := Compilation.mem_plan (planned.compiles ▸ compiled)
    exact List.mem_cons_self
  exact mem_writtenPaths_of_output (mem_actions.mpr (.inl ⟨entry, compiled, rfl⟩)) output

theorem archive_inputs (planned : l.PlannedFor t facts) {plan : ArchivePlan}
    (found : l.archive = some plan) : plan.action.inputs = .ofList
      (l.compiles.map CompileEntry.object ++ t.precompiledObjects.map t.label.execPath ++
        [plan.objlist.output]) := by
  rw [planned.archive, Archive.plan?] at found
  split at found
  · contradiction
  · obtain rfl := Option.some.inj found
    rfl

theorem fullyLinked_eq_none_iff (planned : l.PlannedFor t facts) :
    l.fullyLinked = none ↔ t.archive? facts = none ∧ l.providers.library.toList = [] := by
  rw [planned.fullyLinked, Archive.planFullyLinked?, OrderedSet.isEmpty_ofList]
  simp

theorem fullyLinked_isSome (planned : l.PlannedFor t facts) (hasObjects : t.hasObjects = true) :
    l.fullyLinked.isSome = true := by
  rw [Option.isSome_iff_ne_none, Ne, planned.fullyLinked_eq_none_iff]
  simp [Library.archive?, hasObjects]

theorem fullyLinked_eq (planned : l.PlannedFor t facts) {plan : FullyLinkedPlan}
    (found : l.fullyLinked = some plan) :
    plan.archive = Archive.fullyLinkedPath t.label facts ∧ plan.action.outputs = [plan.archive] ∧
      plan.action.inputs =
        .ofList ((t.archive? facts).toList ++ l.providers.library.toList) ∧
      plan.inputs = plan.action.inputs.toList ∧
      plan.action.arguments = "-static" :: Archive.targetArguments facts plan.archive ++
        plan.action.inputs.toList.map Path.text := by
  rw [planned.fullyLinked, Archive.planFullyLinked?] at found
  split at found
  · contradiction
  · obtain rfl := Option.some.inj found
    exact ⟨rfl, rfl, rfl, rfl, rfl⟩

end AnalyzedLibrary.PlannedFor

/-! ### Plans -/

namespace TargetGraph

variable {g : TargetGraph} {s : Setting} {outcomes : Label → Outcome} {t : Library}

/-- What a plan made with an empty cache holds of the libraries in it. -/
structure Plans (g : TargetGraph) (p : WorkspacePlan) : Prop where
  library : ∀ {label library}, p.libraries.get? label = some library →
    ∃ t ∈ g.libraries, t.label = label ∧ library.PlannedFor t p.facts
  reached : ∀ {label library}, p.libraries.get? label = some library →
    ∀ u ∈ g.libraries, g.Reaches label u.label →
      ∃ library', p.libraries.get? u.label = some library' ∧ library'.PlannedFor u p.facts
  values : ∀ {label library}, p.libraries.get? label = some library → ∀ key,
    library.providers.get key =
      .ofList ((g.traversal key.order label).flatMap (Declaration.own p.facts key))

theorem Solution.plannedFor (solution : g.Solution (s.judge .empty) outcomes)
    (member : t ∈ g.libraries) {library : AnalyzedLibrary}
    (result : (outcomes t.label).result = .ok library) : library.PlannedFor t s.facts := by
  rw [solution t member, Setting.result_judge_empty] at result
  obtain ⟨_, _, _, analyzed⟩ := Setting.verdict_eq_ok_iff.mp result
  exact Library.plannedFor_of_analyze analyzed

theorem plans_of_plan {o : Options} {toolchain : Toolchain} {parallel : Bool} {p : WorkspacePlan}
    (planned : (g.plan o toolchain parallel .empty).1 = .ok p) : g.Plans p := by
  obtain ⟨s, groups, outcomes, _, schedule, solution, tells⟩ :=
    Call.tells_of_plan (c := ⟨g, o, toolchain, parallel⟩) planned
  constructor
  · intro label library found
    obtain ⟨⟨t, member, same⟩, result⟩ := (tells.libraries label library).mp found
    subst same
    exact ⟨t, member, rfl, tells.facts ▸ solution.plannedFor member result⟩
  · intro label library found u member reaches
    obtain ⟨⟨t, member', same⟩, result⟩ := (tells.libraries label library).mp found
    subst same
    have isOk := solution.isOk_of_reaches schedule member' (by rw [result]; rfl) member reaches
    cases result' : (outcomes u.label).result with
    | error error => simp [result'] at isOk
    | ok library' =>
      exact ⟨library', (tells.libraries _ _).mpr ⟨⟨u, member, rfl⟩, result'⟩,
        tells.facts ▸ solution.plannedFor member result'⟩
  · intro label library found key
    obtain ⟨⟨t, member, same⟩, result⟩ := (tells.libraries label library).mp found
    subst same
    exact tells.facts ▸ solution.values_eq schedule member result key

theorem resolve_of_plan {o : Options} {toolchain : Toolchain} {parallel : Bool} {p : WorkspacePlan}
    (planned : (g.plan o toolchain parallel .empty).1 = .ok p) :
    Facts.resolve o toolchain = .ok p.facts := by
  obtain ⟨s, _, _, resolved, _, _, tells⟩ :=
    Call.tells_of_plan (c := ⟨g, o, toolchain, parallel⟩) planned
  rw [tells.facts]
  exact Setting.facts_of_resolve resolved

theorem Plans.plannedFor {p : WorkspacePlan} (plans : g.Plans p) (member : t ∈ g.libraries)
    {library : AnalyzedLibrary} (found : p.libraries.get? t.label = some library) :
    library.PlannedFor t p.facts := by
  obtain ⟨u, declared, same, planned⟩ := plans.library found
  obtain rfl := eq_of_label_eq declared member same
  exact planned

/-- A graph is planned as a whole if all paths are Unicode, all dependencies are declared and all
libraries pass. -/
theorem exists_whole_plan {o : Options} {toolchain : Toolchain} {parallel : Bool}
    (unicode : toolchain.writer = .unicode)
    (resolved : (Facts.resolve o toolchain).isOk = true)
    (ordered : (g.schedule parallel).isOk = true)
    (declared : ∀ t ∈ g.libraries, ∀ dep ∈ t.deps, g.contains dep = true)
    (passed : ∀ policy, ∀ t ∈ g.libraries, (Validation.check policy t).isOk = true) :
    ∃ p, (g.plan o toolchain parallel .empty).1 = .ok p ∧
      ∀ t ∈ g.libraries, ∃ library, p.libraries.get? t.label = some library := by
  obtain ⟨p, planned⟩ := Call.exists_plan ⟨g, o, toolchain, parallel⟩ .empty resolved ordered
  obtain ⟨s, groups, outcomes, settled, schedule, solution, tells⟩ := Call.tells_of_plan planned
  have sound : ∀ t ∈ g.libraries, g.Sound ⟨s.facts.disableResources⟩ t := by
    refine schedule.induct fun t member below =>
      (sound_iff member).mpr ⟨?_, declared t member, below⟩
    have isOk := passed ⟨s.facts.disableResources⟩ t member
    cases checked : Validation.check ⟨s.facts.disableResources⟩ t with
    | error error => simp [checked] at isOk
    | ok warnings => exact ⟨warnings, rfl⟩
  refine ⟨p, planned, fun t member => ?_⟩
  have written : g.WrittenBelow s.writer t := by
    rw [Setting.writer_of_resolve settled, unicode]
    exact g.writtenBelow_unicode t
  have isOk := (solution.isOk_iff schedule t member).mpr ⟨sound t member, written⟩
  cases result : (outcomes t.label).result with
  | error error => simp [result] at isOk
  | ok library => exact ⟨library, (tells.libraries _ _).mpr ⟨⟨t, member, rfl⟩, result⟩⟩

/-- A value that a planned library holds is one that a target below it contributes by itself. -/
theorem Plans.mem_values {p : WorkspacePlan} (plans : g.Plans p) {label : Label}
    {library : AnalyzedLibrary} (found : p.libraries.get? label = some library)
    (key : ProviderKey) {value : key.Value} (mem : value ∈ (library.providers.get key).toList) :
    ∃ d ∈ g.declarations.values, g.Reaches label d.label ∧ value ∈ d.own p.facts key := by
  rw [plans.values found key] at mem
  obtain ⟨d, listed, own⟩ := List.mem_flatMap.mp (OrderedSet.mem_of_mem_ofList mem)
  obtain ⟨declared, reaches⟩ := mem_traversal_iff.mp listed
  exact ⟨d, declared, reaches, own⟩

/-- What a target below a planned library contributes by itself is held by the library. -/
theorem Plans.contains_value {p : WorkspacePlan} (plans : g.Plans p) {label : Label}
    {library : AnalyzedLibrary} (found : p.libraries.get? label = some library)
    {d : Declaration} (declared : d ∈ g.declarations.values) (reaches : g.Reaches label d.label)
    (key : ProviderKey) {value : key.Value} (own : value ∈ d.own p.facts key) :
    (library.providers.get key).contains value = true := by
  rw [plans.values found key]
  exact OrderedSet.contains_ofList_of_mem
    (List.mem_flatMap.mpr ⟨d, mem_traversal_iff.mpr ⟨declared, reaches⟩, own⟩)

end TargetGraph

end ObjcPlan
