import ObjcPlan.Proofs.Analyses
import ObjcPlan.Proofs.Places

/-! Where a plan writes. Everything that is written for a library has its place, so that two
libraries write apart unless a name has a slash or is a dot, or one library shadows the other
(`TargetGraph.plan_outputs_apart`). A slash does make libraries meet
(`TargetGraph.plan_outputs_shared`). -/

namespace ObjcPlan

open ObjcPlan.Path

theorem Facts.outputDirs_of_resolve {o : Options} {toolchain : Toolchain} {facts : Facts}
    (resolved : Facts.resolve o toolchain = .ok facts) :
    facts.binDir = o.binDir ∧ facts.genfilesDir = o.genfilesDir := by
  unfold resolve at resolved
  obtain ⟨_, _, resolved⟩ := exists_of_bind resolved
  obtain ⟨_, _, resolved⟩ := exists_of_bind resolved
  obtain ⟨_, _, resolved⟩ := exists_of_bind resolved
  obtain ⟨_, _, resolved⟩ := exists_of_bind resolved
  obtain rfl := Except.ok.inj resolved
  exact ⟨rfl, rfl⟩

theorem Facts.root_named {o : Options} {toolchain : Toolchain} {facts : Facts}
    (resolved : Facts.resolve o toolchain = .ok facts) (place : Place) :
    (place.root facts).text ≠ "" := by
  obtain ⟨bin, genfiles⟩ := Facts.outputDirs_of_resolve resolved
  cases place with
  | moduleMap =>
    show facts.genfilesDir.text ≠ ""
    rw [genfiles]
    exact join_name_text_ne (by decide)
  | _ =>
    show facts.binDir.text ≠ ""
    rw [bin]
    exact join_name_text_ne (by decide)

/-- Whether a compilation at the place is that of a source of the library. -/
def Place.IsOf (t : Library) : Place → Prop
  | object _ _ stem | depFile _ _ stem =>
    ∃ source ∈ t.compiledSources, source.file.stem?.getD "" = stem
  | _ => True

theorem Place.IsOf.isFlat {t : Library} {place : Place} (isOf : place.IsOf t) : place.IsFlat := by
  cases place with
  | object arc index stem | depFile arc index stem =>
    obtain ⟨source, _, rfl⟩ := isOf
    exact source.file.stem_flat
  | _ => trivial

/-- What tells the objects of the library apart: the kind of reference counting and the stem of each
source, in order. -/
def Library.stems (t : Library) : List (Bool × String) :=
  t.compiledSources.map fun source => (source.arc, source.file.stem?.getD "")

/-- The place for the object of a source, which is numbered if the library has more sources with
its stem. -/
def Library.objectPlace (t : Library) (entry : (Bool × String) × Nat) : Place :=
  .object entry.1.1 (if t.stems.count entry.1 > 1 then some ((t.stems.take entry.2).count entry.1)
    else none) entry.1.2

theorem objectPaths_eq (t : Library) (facts : Facts) : objectPaths t facts.binDir =
    t.stems.zipIdx.map fun entry => (t.objectPlace entry).path t.label facts := by
  unfold objectPaths Library.objectPlace Library.stems
  apply List.map_congr_left
  rintro ⟨⟨arc, stem⟩, index⟩ _
  dsimp only
  split <;> rfl

/-- The number of the directory for a source, if it has one. -/
def Library.number? (t : Library) (entry : (Bool × String) × Nat) : Option Nat :=
  if t.stems.count entry.1 > 1 then some ((t.stems.take entry.2).count entry.1) else none

theorem Library.objectPlace_eq (t : Library) (entry : (Bool × String) × Nat) :
    t.objectPlace entry = .object entry.1.1 (t.number? entry) entry.1.2 :=
  rfl

theorem Library.exists_source_of_mem_stems {t : Library} {entry : (Bool × String) × Nat}
    (mem : entry ∈ t.stems.zipIdx) :
    ∃ source ∈ t.compiledSources, source.file.stem?.getD "" = entry.1.2 := by
  obtain ⟨source, compiled, same⟩ := List.mem_map.mp (List.fst_mem_of_mem_zipIdx mem)
  exact ⟨source, compiled, congrArg Prod.snd same⟩

theorem Place.isSegment_object {stem : String} (flat : '/' ∉ stem.toList) :
    IsSegment (stem ++ ".o") ∧ Component.ofSegment? (stem ++ ".o") = some (.name (stem ++ ".o")) :=
  IsSegment.of_last (c := 'o') (by simpa using flat) (last_append stem (by decide)) (by decide)

theorem Place.isSegment_depFile {stem : String} (flat : '/' ∉ stem.toList) :
    IsSegment (replaceExtension (stem ++ ".o") "d") :=
  isSegment_replaceExtension (c := 'd') (by simpa using flat) (by decide) (by decide) (by decide)

/-- The dependency file of a compilation is called like its object. -/
theorem Place.withExtension_object {arc : Bool} {index : Option Nat} {stem : String} {label : Label}
    {facts : Facts} (flat : '/' ∉ stem.toList) :
    ((object arc index stem).path label facts).withExtension "d" =
      (depFile arc index stem).path label facts := by
  have ⟨segment, isName⟩ := isSegment_object flat
  have directory : ((facts.binDir / label.packagePath).descend
      (bucket label.name arc index)).text ≠ "" := by
    show ((facts.binDir / label.packagePath / "_objs").descend _).text ≠ ""
    exact descend_text_ne (join_name_text_ne (by decide))
  have above := withExtension_join directory segment isName (isSegment_depFile flat)
  simpa [path, names, root, descend, List.foldl_append] using above

/-- The places for the compilations of a library, in the order of its sources. -/
def Library.compilePlaces (t : Library) : List Place :=
  t.stems.zipIdx.flatMap fun entry =>
    [.object entry.1.1 (t.number? entry) entry.1.2, .depFile entry.1.1 (t.number? entry) entry.1.2]

theorem Library.isOf_of_mem_compilePlaces {t : Library} {place : Place}
    (mem : place ∈ t.compilePlaces) : place.IsOf t := by
  obtain ⟨entry, isEntry, isOne⟩ := List.mem_flatMap.mp mem
  have source := exists_source_of_mem_stems isEntry
  simp only [List.mem_cons, List.not_mem_nil, or_false] at isOne
  rcases isOne with rfl | rfl <;> exact source

theorem Library.exists_mem_compilePlaces {t : Library} {source : Library.Source}
    (compiled : source ∈ t.compiledSources) : ∃ arc index,
      .object arc index (source.file.stem?.getD "") ∈ t.compilePlaces ∧
        .depFile arc index (source.file.stem?.getD "") ∈ t.compilePlaces := by
  have listed : (source.arc, source.file.stem?.getD "") ∈ t.stems :=
    List.mem_map.mpr ⟨source, compiled, rfl⟩
  obtain ⟨i, isThere⟩ := List.mem_iff_getElem?.mp listed
  have entry : ((source.arc, source.file.stem?.getD ""), i) ∈ t.stems.zipIdx :=
    List.mem_zipIdx_iff_getElem?.mpr isThere
  exact ⟨source.arc, _, List.mem_flatMap.mpr ⟨_, entry, List.mem_cons_self⟩,
    List.mem_flatMap.mpr ⟨_, entry, List.mem_cons_of_mem _ List.mem_cons_self⟩⟩

/-- What is written for compilations is written at their places. -/
theorem Library.flatMap_objectPaths (t : Library) (facts : Facts) :
    (objectPaths t facts.binDir).flatMap (fun object => [object, object.withExtension "d"]) =
      t.compilePlaces.map (·.path t.label facts) := by
  rw [objectPaths_eq, compilePlaces, List.flatMap_map, List.map_flatMap]
  refine List.flatMap_congr fun entry mem => ?_
  obtain ⟨source, _, same⟩ := exists_source_of_mem_stems mem
  rw [objectPlace_eq, Place.withExtension_object (same ▸ source.file.stem_flat)]
  rfl

namespace AnalyzedLibrary

/-- The places of what is written for a library. -/
def places (l : AnalyzedLibrary) (t : Library) : List Place :=
  t.compilePlaces ++ l.archive.toList.map (fun _ => .archive) ++
    l.fullyLinked.toList.map (fun _ => .fullyLinked) ++
    l.moduleMap.write?.toList.map (fun _ => .moduleMap) ++ l.archive.toList.map fun _ => .objlist

namespace PlannedFor

variable {l : AnalyzedLibrary} {t : Library} {facts : Facts}

theorem writtenPaths_eq (planned : l.PlannedFor t facts) : l.writtenPaths =
    l.compiles.flatMap (fun e => [e.object, e.depFile]) ++
      l.archive.toList.map ArchivePlan.archive ++
      l.fullyLinked.toList.map FullyLinkedPlan.archive ++
      l.moduleMap.write?.toList.map FileWrite.output ++
      l.archive.toList.map fun plan => plan.objlist.output := by
  have compiles : l.compiles.flatMap (fun e => e.action.outputs) =
      l.compiles.flatMap fun e => [e.object, e.depFile] :=
    List.flatMap_congr fun e mem => by
      obtain ⟨_, _, _, _, _, rfl⟩ := Compilation.mem_plan (planned.compiles ▸ mem)
      rfl
  have archive : l.archive.toList.flatMap (fun plan => plan.action.outputs) =
      l.archive.toList.map ArchivePlan.archive := by
    cases found : l.archive with
    | none => rfl
    | some plan => simp [(planned.archive_eq found).2.1]
  have fullyLinked : l.fullyLinked.toList.flatMap (fun plan => plan.action.outputs) =
      l.fullyLinked.toList.map FullyLinkedPlan.archive := by
    cases found : l.fullyLinked with
    | none => rfl
    | some plan => simp [(planned.fullyLinked_eq found).2.1]
  simp only [writtenPaths, actions, fileWrites, List.flatMap_append, List.flatMap_map, compiles,
    archive, fullyLinked, List.map_append, List.map_map, List.append_assoc]
  rfl

/-- Everything that is written for a library is written at its places. -/
theorem writtenPaths_eq_map (planned : l.PlannedFor t facts) :
    l.writtenPaths = (l.places t).map (·.path t.label facts) := by
  have compiles : l.compiles.flatMap (fun e => [e.object, e.depFile]) =
      t.compilePlaces.map (·.path t.label facts) := by
    calc l.compiles.flatMap (fun e => [e.object, e.depFile])
        = l.compiles.flatMap (fun e => [e.object, e.object.withExtension "d"]) :=
          List.flatMap_congr fun e mem => by
            obtain ⟨_, _, _, _, _, rfl⟩ := Compilation.mem_plan (planned.compiles ▸ mem)
            rfl
      _ = (l.compiles.map CompileEntry.object).flatMap
            (fun object => [object, object.withExtension "d"]) := by rw [List.flatMap_map]
      _ = t.compilePlaces.map (·.path t.label facts) := by
          rw [planned.objects_eq]
          exact t.flatMap_objectPaths facts
  have archive : l.archive.toList.map ArchivePlan.archive =
      l.archive.toList.map fun _ => Place.archive.path t.label facts :=
    List.map_congr_left fun plan found => (planned.archive_eq (Option.mem_toList.mp found)).1
  have fullyLinked : l.fullyLinked.toList.map FullyLinkedPlan.archive =
      l.fullyLinked.toList.map fun _ => Place.fullyLinked.path t.label facts :=
    List.map_congr_left fun plan found => (planned.fullyLinked_eq (Option.mem_toList.mp found)).1
  have moduleMap : l.moduleMap.write?.toList.map FileWrite.output =
      l.moduleMap.write?.toList.map fun _ => Place.moduleMap.path t.label facts :=
    List.map_congr_left fun write found => by
      rw [Option.mem_toList, planned.moduleMap, ModuleMap.generate] at found
      cases own : t.moduleMap with
      | some file => simp [own, ModuleMap.write?] at found
      | none =>
        rw [own] at found
        obtain rfl := Option.some.inj found
        rfl
  have objlist : l.archive.toList.map (fun plan => plan.objlist.output) =
      l.archive.toList.map fun _ => Place.objlist.path t.label facts :=
    List.map_congr_left fun plan found =>
      (planned.archive_eq (Option.mem_toList.mp found)).2.2.2
  simp only [planned.writtenPaths_eq, places, compiles, archive, fullyLinked, moduleMap, objlist,
    List.map_append, List.map_map, Function.comp_def]

theorem path_mem (planned : l.PlannedFor t facts) {place : Place}
    (mem : place ∈ t.compilePlaces) : place.path t.label facts ∈ l.writtenPaths := by
  rw [planned.writtenPaths_eq_map]
  refine List.mem_map_of_mem ?_
  simp [places, mem]

theorem isOf_of_mem_places {place : Place} (mem : place ∈ l.places t) : place.IsOf t ∧
    (place = .archive → l.archive.isSome = true) ∧
    (place = .fullyLinked → l.fullyLinked.isSome = true) := by
  have compiled (mem : place ∈ t.compilePlaces) : place ≠ .archive ∧ place ≠ .fullyLinked := by
    obtain ⟨entry, _, isOne⟩ := List.mem_flatMap.mp mem
    simp only [List.mem_cons, List.not_mem_nil, or_false] at isOne
    rcases isOne with rfl | rfl <;> exact ⟨nofun, nofun⟩
  simp only [places, List.mem_append, List.mem_map, Option.mem_toList] at mem
  rcases mem with (((mem | ⟨plan, found, rfl⟩) | ⟨plan, found, rfl⟩) | ⟨_, _, rfl⟩) | ⟨_, _, rfl⟩
  · exact ⟨Library.isOf_of_mem_compilePlaces mem, fun same => absurd same (compiled mem).1,
      fun same => absurd same (compiled mem).2⟩
  · exact ⟨trivial, fun _ => Option.isSome_of_mem found, nofun⟩
  · exact ⟨trivial, nofun, fun _ => Option.isSome_of_mem found⟩
  · exact ⟨trivial, nofun, nofun⟩
  · exact ⟨trivial, nofun, nofun⟩

theorem exists_place (planned : l.PlannedFor t facts) {path : Path} (mem : path ∈ l.writtenPaths) :
    ∃ place : Place, place.IsOf t ∧ path = place.path l.label facts ∧
      (place = .archive → l.archive.isSome = true) ∧
      (place = .fullyLinked → l.fullyLinked.isSome = true) := by
  rw [planned.writtenPaths_eq_map] at mem
  obtain ⟨place, isPlace, rfl⟩ := List.mem_map.mp mem
  obtain ⟨isOf, archive, fullyLinked⟩ := isOf_of_mem_places isPlace
  exact ⟨place, isOf, by rw [planned.label], archive, fullyLinked⟩

end PlannedFor

end AnalyzedLibrary

theorem AnalyzedLibrary.PlannedFor.object_mem {l : AnalyzedLibrary} {t : Library} {facts : Facts}
    (planned : l.PlannedFor t facts) {object : Path} (mem : object ∈ objectPaths t facts.binDir) :
    object ∈ l.writtenPaths := by
  obtain ⟨entry, compiled, rfl⟩ := List.mem_map.mp (planned.objects_eq ▸ mem)
  exact planned.object_written compiled

/-- Whether two libraries of one package are called so that the fully linked archive of the first is
also the archive of the second, and both are planned. -/
def AnalyzedLibrary.Shadows (l l' : AnalyzedLibrary) : Prop :=
  l.label.package = l'.label.package ∧ l.label.name ++ "_fully_linked" = "lib" ++ l'.label.name ∧
    l.fullyLinked.isSome = true ∧ l'.archive.isSome = true

namespace AnalyzedLibrary.PlannedFor

variable {l l' : AnalyzedLibrary} {t t' : Library} {facts : Facts}

/-- Nothing that is written for one library is written for another, unless one shadows the other. -/
theorem shadows_of_components (planned : l.PlannedFor t facts) (planned' : l'.PlannedFor t' facts)
    (named : ∀ place : Place, (place.root facts).text ≠ "") (different : l.label ≠ l'.label)
    (flat : l.label.IsFlat) (flat' : l'.label.IsFlat) {path path' : Path}
    (mem : path ∈ l.writtenPaths) (mem' : path' ∈ l'.writtenPaths)
    (same : path.components = path'.components) : l.Shadows l' ∨ l'.Shadows l := by
  obtain ⟨place, isOf, rfl, archive, fullyLinked⟩ := planned.exists_place mem
  obtain ⟨place', isOf', rfl, archive', fullyLinked'⟩ :=
    planned'.exists_place mem'
  obtain ⟨packages, names | ⟨linked, archived, names⟩ | ⟨linked, archived, names⟩⟩ :=
    Place.eq_or_shadows_of_components named isOf.isFlat isOf'.isFlat flat flat' same
  · exact absurd (Label.ext packages names) different
  · exact .inl ⟨packages, names, fullyLinked linked, archive' archived⟩
  · exact .inr ⟨packages.symm, names, fullyLinked' linked, archive archived⟩

/-- A library that shadows another is linked fully where the other is archived. -/
theorem exists_shared (planned : l.PlannedFor t facts) (planned' : l'.PlannedFor t' facts)
    (shadows : l.Shadows l') : ∃ path ∈ l.writtenPaths, path ∈ l'.writtenPaths := by
  obtain ⟨packages, names, linked, archived⟩ := shadows
  obtain ⟨plan, isLinked⟩ := Option.isSome_iff_exists.mp linked
  obtain ⟨plan', isArchived⟩ := Option.isSome_iff_exists.mp archived
  obtain ⟨same, outputs, _⟩ := planned.fullyLinked_eq isLinked
  obtain ⟨same', outputs', _⟩ := planned'.archive_eq isArchived
  have paths : plan.archive = plan'.archive := by
    rw [same, same', ← planned.label, ← planned'.label, Archive.fullyLinkedPath, Archive.path]
    have files : l.label.name ++ "_fully_linked.a" = "lib" ++ l'.label.name ++ ".a" := by
      rw [← names, String.append_assoc]
      rfl
    rw [Label.packagePath, packages, files]
    rfl
  refine ⟨plan.archive, mem_writtenPaths_of_output
    (mem_actions.mpr (.inr (.inr ⟨plan, isLinked, rfl⟩))) ?_, mem_writtenPaths_of_output
    (mem_actions.mpr (.inr (.inl ⟨plan', isArchived, rfl⟩))) ?_⟩
  · simp [outputs]
  · simp [outputs', paths]

end AnalyzedLibrary.PlannedFor

/-- Two libraries of a plan whose names are single names of files write to different paths, except
where the fully linked archive of one goes by the name of the archive of the other. -/
theorem TargetGraph.plan_outputs_apart (g : TargetGraph) (o : Options) (toolchain : Toolchain)
    (parallel : Bool) {p : WorkspacePlan}
    (planned : (g.plan o toolchain parallel .empty).1 = .ok p) {label label' : Label}
    {library library' : AnalyzedLibrary} (found : p.libraries.get? label = some library)
    (found' : p.libraries.get? label' = some library') (different : label ≠ label')
    (flat : label.IsFlat) (flat' : label'.IsFlat) :
    (∃ path ∈ library.writtenPaths, ∃ path' ∈ library'.writtenPaths,
        path.components = path'.components) ↔
      library.Shadows library' ∨ library'.Shadows library := by
  have plans := plans_of_plan planned
  obtain ⟨t, _, rfl, plannedFor⟩ := plans.library found
  obtain ⟨t', _, rfl, plannedFor'⟩ := plans.library found'
  have named := Facts.root_named (resolve_of_plan planned)
  rw [← plannedFor.label] at different flat
  rw [← plannedFor'.label] at different flat'
  constructor
  · rintro ⟨path, mem, path', mem', same⟩
    exact plannedFor.shadows_of_components plannedFor' named different flat flat' mem mem' same
  · rintro (shadows | shadows)
    · obtain ⟨path, mem, mem'⟩ := plannedFor.exists_shared plannedFor' shadows
      exact ⟨path, mem, path, mem', rfl⟩
    · obtain ⟨path, mem', mem⟩ := plannedFor'.exists_shared plannedFor shadows
      exact ⟨path, mem, path, mem', rfl⟩

namespace Namesakes

def whole : Library where
  label := ⟨"x", "libY", by decide, by decide⟩
  srcs := ["whole.m"]

def part : Library where
  label := ⟨"x", "Y_fully_linked", by decide, by decide⟩
  srcs := ["part.m"]

def core : Library where
  label := ⟨"x", "core", by decide, Shared.core.label.name_ok⟩
  srcs := ["core.m"]

def graph : TargetGraph where
  declarations := ⟨[(part.label, .library part), (core.label, .library core),
    (whole.label, .library whole)], by decide⟩
  keyed := by decide

theorem exists_plan : ∃ p, (graph.plan {} (.xcode Toolchain.defaultRoot) true .empty).1 = .ok p ∧
    ∀ t ∈ graph.libraries, ∃ library, p.libraries.get? t.label = some library :=
  TargetGraph.exists_whole_plan rfl (by decide) (by decide +kernel) (by decide)
    (by rintro ⟨_ | _⟩ <;> decide)

end Namesakes

/-- `core` writes apart from `whole`, whose fully linked archive is also the archive of `part`. -/
theorem TargetGraph.plan_outputs_apart_namesakes :
    ∃ p whole part core,
      (Namesakes.graph.plan {} (.xcode Toolchain.defaultRoot) true .empty).1 = .ok p ∧
      p.libraries.get? Namesakes.whole.label = some whole ∧
      p.libraries.get? Namesakes.part.label = some part ∧
      p.libraries.get? Namesakes.core.label = some core ∧
      (∃ path ∈ whole.writtenPaths, ∃ path' ∈ part.writtenPaths,
        path.components = path'.components) ∧
      ¬∃ path ∈ whole.writtenPaths, ∃ path' ∈ core.writtenPaths,
        path.components = path'.components := by
  obtain ⟨p, planned, all⟩ := Namesakes.exists_plan
  obtain ⟨whole, found⟩ := all Namesakes.whole (by decide)
  obtain ⟨part, found'⟩ := all Namesakes.part (by decide)
  obtain ⟨core, found''⟩ := all Namesakes.core (by decide)
  have plans := plans_of_plan planned
  have plannedFor := plans.plannedFor (by decide) found
  have plannedFor' := plans.plannedFor (by decide) found'
  have plannedFor'' := plans.plannedFor (by decide) found''
  have shared := TargetGraph.plan_outputs_apart Namesakes.graph {} (.xcode Toolchain.defaultRoot)
    true planned found found' (by decide) (by decide) (by decide)
  have apart := TargetGraph.plan_outputs_apart Namesakes.graph {} (.xcode Toolchain.defaultRoot)
    true planned found found'' (by decide) (by decide) (by decide)
  refine ⟨p, whole, part, core, planned, found, found', found'', shared.mpr (.inl ?_), ?_⟩
  · refine ⟨?_, ?_, plannedFor.fullyLinked_isSome (by decide), ?_⟩
    · rw [plannedFor.label, plannedFor'.label]
      rfl
    · rw [plannedFor.label, plannedFor'.label]
      decide
    · exact plannedFor'.archive_isSome.trans (by decide)
  · rw [apart]
    rintro (⟨_, names, _⟩ | ⟨_, names, _⟩)
    · rw [plannedFor.label, plannedFor''.label] at names
      exact absurd names (by decide)
    · rw [plannedFor.label, plannedFor''.label] at names
      exact absurd names (by decide)

/-- A slash at the end of a target's name makes no difference to its objects. -/
theorem objectPaths_slash (t t' : Library) (package : t'.label.package = t.label.package)
    (name : t'.label.name = t.label.name ++ "/") (flat : t.label.IsFlat)
    (sources : t'.compiledSources = t.compiledSources) (binDir : Path) :
    objectPaths t' binDir = objectPaths t binDir := by
  have same (root : Path) (arc : Bool) :
      root / (⟨t.label.name ++ "/"⟩ : Path) / (if arc then "arc" else "non_arc") =
        root / t.label.name / (if arc then "arc" else "non_arc") := by
    cases arc <;> exact join_slash root flat.1 t.label.name_ne_empty rfl
  unfold objectPaths
  simp only [sources, Label.packagePath, package, name, same]

namespace Slash

def plain : Library where
  label := ⟨"a", "b", by decide, by decide⟩
  srcs := ["x.m"]

/-- A slash at the end of a name makes another label. -/
def slashed : Library where
  label := ⟨"a", "b/", by decide, by decide⟩
  srcs := ["x.m"]

def graph : TargetGraph where
  declarations := ⟨[(plain.label, .library plain), (slashed.label, .library slashed)], by decide⟩
  keyed := by decide

theorem exists_plan : ∃ p, (graph.plan {} (.xcode Toolchain.defaultRoot) true .empty).1 = .ok p ∧
    ∀ t ∈ graph.libraries, ∃ library, p.libraries.get? t.label = some library :=
  TargetGraph.exists_whole_plan rfl (by decide) (by decide +kernel) (by decide)
    (by rintro ⟨_ | _⟩ <;> decide)

theorem objectPaths_ne_nil (binDir : Path) : objectPaths plain binDir ≠ [] := by
  rw [← List.length_pos_iff, length_objectPaths]
  decide

end Slash

/-- Two libraries write the same object, since a name may end with a slash. -/
theorem TargetGraph.plan_outputs_shared :
    ∃ p plain slashed, (Slash.graph.plan {} (.xcode Toolchain.defaultRoot) true .empty).1 = .ok p ∧
      p.libraries.get? Slash.plain.label = some plain ∧
      p.libraries.get? Slash.slashed.label = some slashed ∧
      Slash.plain.label ≠ Slash.slashed.label ∧
      ∃ path ∈ plain.writtenPaths, path ∈ slashed.writtenPaths := by
  obtain ⟨p, planned, all⟩ := Slash.exists_plan
  obtain ⟨plain, found⟩ := all Slash.plain (by decide)
  obtain ⟨slashed, found'⟩ := all Slash.slashed (by decide)
  have plans := plans_of_plan planned
  have plannedFor := plans.plannedFor (by decide) found
  have plannedFor' := plans.plannedFor (by decide) found'
  obtain ⟨object, mem⟩ := List.exists_mem_of_ne_nil _ (Slash.objectPaths_ne_nil p.facts.binDir)
  have mem' : object ∈ objectPaths Slash.slashed p.facts.binDir := by
    have same : objectPaths Slash.slashed p.facts.binDir = objectPaths Slash.plain p.facts.binDir :=
      objectPaths_slash Slash.plain Slash.slashed rfl rfl (by decide) rfl _
    rw [same]
    exact mem
  exact ⟨p, plain, slashed, planned, found, found', by decide, object, plannedFor.object_mem mem,
    plannedFor'.object_mem mem'⟩

end ObjcPlan
