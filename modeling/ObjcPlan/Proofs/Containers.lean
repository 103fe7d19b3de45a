import ObjcPlan.Proofs.Containment
import ObjcPlan.Proofs.Violations

/-! The directories that hold the asset catalogs of libraries. The catalogs of an accepted library
all have a container, and what it offers to its dependents are these containers
(`Library.ownProviders_containers`). -/

namespace ObjcPlan

namespace Path

theorem filterMap_dropLast_components (p : Path) :
    p.components.dropLast.filterMap Component.name? =
      p.steps.dropLast.filterMap Component.name? := by
  obtain ⟨front, whole, idle⟩ := p.exists_components_eq
  have nameless : ∀ c ∈ front, c.name? = none := by
    intro c mem
    rcases idle c mem with rfl | rfl <;> rfl
  rw [whole]
  by_cases none : p.steps = []
  · rw [none, List.append_nil, List.dropLast_nil, List.filterMap_nil, List.filterMap_eq_nil_iff]
    exact fun c mem => nameless c (List.mem_of_mem_dropLast mem)
  · rw [List.dropLast_append_of_ne_nil none, List.filterMap_append,
      List.filterMap_eq_nil_iff.mpr nameless, List.nil_append]

end Path

/-- What is held in a package is still held when it is seen from the root. -/
theorem Label.isSome_container?_execPath (l : Label) {file : Path} {suffixes : List String}
    (held : (file.container? suffixes).isSome = true) :
    ((l.execPath file).container? suffixes).isSome = true := by
  unfold execPath
  by_cases rooted : file.isRooted = true
  · rwa [Path.join_of_rooted rooted]
  · by_cases named : l.packagePath.text = ""
    · rwa [Path.empty_join named]
    · rw [Path.isSome_container?_iff] at held ⊢
      obtain ⟨name, mem, fits⟩ := held
      refine ⟨name, ?_, fits⟩
      rw [Path.filterMap_dropLast_components] at mem
      have steps : file.steps ≠ [] := by
        intro none
        simp [none] at mem
      rw [Path.components_join named (by simpa using rooted), List.dropLast_append_of_ne_nil steps,
        List.filterMap_append]
      exact List.mem_append_right _ mem

namespace Library

open ObjcPlan.Path (IsContainerOf)

variable {t : Library} {policy : Validation.Policy} {warnings : List Diagnostic} {facts : Facts}

theorem isSome_container?_of_accepted (accepted : Validation.check policy t = .ok warnings)
    {file : Path} (mem : file ∈ t.resources.assetCatalogs.getD []) :
    (file.container? Validation.assetCatalogSuffixes).isSome = true := by
  cases isSet : t.resources.assetCatalogs with
  | none => simp [isSet] at mem
  | some files =>
    rw [isSet] at mem
    have held := (Validation.check_eq_ok_iff.mp accepted).1.assetCatalogs files isSet file mem
    exact Path.isSome_container?_iff_isHeld.mpr held

theorem exists_container_of_file (accepted : Validation.check policy t = .ok warnings) {file : Path}
    (mem : file ∈ (t.ownProviders facts).assetCatalog.toList) :
    ∃ dir ∈ (t.ownProviders facts).xcassetsDir.toList,
      IsContainerOf Validation.assetCatalogSuffixes dir file := by
  have listed := OrderedSet.mem_of_mem_ofList mem
  obtain ⟨declared, isDeclared, rfl⟩ := List.mem_map.mp listed
  obtain ⟨dir, found⟩ := Option.isSome_iff_exists.mp <|
    t.label.isSome_container?_execPath (isSome_container?_of_accepted accepted isDeclared)
  have isKey := OrderedSet.mem_keys_ofList.mpr
    (List.mem_map_of_mem (List.mem_filterMap.mpr ⟨_, listed, found⟩))
  obtain ⟨dir', isDir, same⟩ := List.mem_map.mp isKey
  exact ⟨dir', isDir, (Path.isContainerOf_of_container? found).congr same.symm⟩

theorem exists_file_of_container {dir : Path}
    (mem : dir ∈ (t.ownProviders facts).xcassetsDir.toList) :
    ∃ file ∈ (t.ownProviders facts).assetCatalog.toList,
      IsContainerOf Validation.assetCatalogSuffixes dir file := by
  obtain ⟨file, listed, found⟩ := List.mem_filterMap.mp (OrderedSet.mem_of_mem_ofList mem)
  obtain ⟨file', isFile, same⟩ := List.mem_map.mp
    (OrderedSet.mem_keys_ofList.mpr (List.mem_map_of_mem listed))
  rw [← Path.container?_congr same] at found
  exact ⟨file', isFile, Path.isContainerOf_of_container? found⟩

/-- A file has a container exactly if the name of some directory above it fits. The container has
the names of the innermost one, so it is above the file exactly if nothing else leads there. The
asset catalogs of an accepted library all have a container among the directories that it offers,
which are containers of some; if only names lead to them, each file is below one of the directories
and each directory above one of the files. -/
theorem ownProviders_containers (t : Library) (facts : Facts) :
    (∀ suffixes (file : Path),
      (file.container? suffixes = none ↔
        ∀ a ∈ file.ancestors, a.isContainer suffixes = false) ∧
      ∀ dir, file.container? suffixes = some dir → IsContainerOf suffixes dir file) ∧
    ∀ policy warnings, Validation.check policy t = .ok warnings →
      let files := (t.ownProviders facts).assetCatalog.toList
      let dirs := (t.ownProviders facts).xcassetsDir.toList
      (∀ file ∈ files, ∃ dir ∈ dirs, IsContainerOf Validation.assetCatalogSuffixes dir file) ∧
      (∀ dir ∈ dirs, ∃ file ∈ files, IsContainerOf Validation.assetCatalogSuffixes dir file) ∧
      ((∀ file ∈ files, ∀ a, Path.IsInnermost Validation.assetCatalogSuffixes file a →
          a.HasOnlyNames) →
        (∀ file ∈ files, ∃ dir ∈ dirs, dir.IsAbove file) ∧
          ∀ dir ∈ dirs, ∃ file ∈ files, dir.IsAbove file) := by
  refine ⟨fun suffixes file => ⟨Path.container?_eq_none_iff,
    fun dir => Path.isContainerOf_of_container?⟩, fun policy warnings accepted => ?_⟩
  intro files dirs
  have held : ∀ file ∈ files, ∃ dir ∈ dirs,
      IsContainerOf Validation.assetCatalogSuffixes dir file :=
    fun file => exists_container_of_file accepted
  have holds : ∀ dir ∈ dirs, ∃ file ∈ files,
      IsContainerOf Validation.assetCatalogSuffixes dir file :=
    fun dir => exists_file_of_container
  refine ⟨held, holds, fun onlyNames => ⟨fun file isFile => ?_, fun dir isDir => ?_⟩⟩
  · obtain ⟨dir, isDir, a, innermost, _, _, above⟩ := held file isFile
    exact ⟨dir, isDir, above.mpr (onlyNames file isFile a innermost)⟩
  · obtain ⟨file, isFile, a, innermost, _, _, above⟩ := holds dir isDir
    exact ⟨file, isFile, above.mpr (onlyNames file isFile a innermost)⟩

end Library

namespace Catalogs

/-- One file is in two catalogs, one in the other. -/
def nested : Library where
  label := Shared.ui.label
  resources := { assetCatalogs := some ["A.xcassets/icon.png", "./A.xcassets/B.xcassets/icon.png"] }

/-- A catalog of another package. -/
def borrowed : Library where
  label := Shared.ui.label
  resources := { assetCatalogs := some ["../shared/Images.xcassets/icon.png"] }

theorem files_nested (facts : Facts) : (nested.ownProviders facts).assetCatalog.toList =
    ["ui/A.xcassets/icon.png", "ui/./A.xcassets/B.xcassets/icon.png"] := by
  show (OrderedSet.ofList [_, _]).toList = _
  decide

theorem dirs_nested (facts : Facts) : (nested.ownProviders facts).xcassetsDir.toList =
    ["ui/A.xcassets", "ui/A.xcassets/B.xcassets"] := by
  show (containers Validation.assetCatalogSuffixes [_, _]).toList = _
  decide +kernel

end Catalogs

/-- Only names lead to the catalogs of `nested`, one of which is inside the other. -/
theorem Library.ownProviders_containers_nested :
    ∃ facts, Facts.resolve {} (.xcode Toolchain.defaultRoot) = .ok facts ∧
      let files := (Catalogs.nested.ownProviders facts).assetCatalog.toList
      let dirs := (Catalogs.nested.ownProviders facts).xcassetsDir.toList
      dirs = ["ui/A.xcassets", "ui/A.xcassets/B.xcassets"] ∧
      (∀ file ∈ files, ∃ dir ∈ dirs, dir.IsAbove file) ∧
      (∀ dir ∈ dirs, ∃ file ∈ files, dir.IsAbove file) ∧
      Path.IsContainerOf [".xcassets"] "A.xcassets" "./A.xcassets/icon.png" := by
  obtain ⟨facts, resolved⟩ := Outlets.exists_facts
  obtain ⟨container, library⟩ := ownProviders_containers Catalogs.nested facts
  have accepted : Validation.check {} Catalogs.nested = .ok [] := by decide
  obtain ⟨_, _, above⟩ := library {} [] accepted
  obtain ⟨below, above⟩ := above fun file isFile a innermost => by
    have onlyNames : ∀ file ∈ (Catalogs.nested.ownProviders facts).assetCatalog.toList,
        ∀ a ∈ file.ancestors, a.HasOnlyNames := by
      rw [Catalogs.files_nested]
      decide +kernel
    exact onlyNames file isFile a innermost.mem
  refine ⟨facts, resolved, Catalogs.dirs_nested facts, below, above, ?_⟩
  exact (container [".xcassets"] "./A.xcassets/icon.png").2 "A.xcassets" (by decide)

/-- A root or a `..` on the way to a catalog is left out of its container, which is then another
directory. -/
theorem Library.ownProviders_drop_parents :
    Path.container? [".xcassets"] "/a/b.xcassets/c" = some "a/b.xcassets" ∧
    ¬Path.IsAbove "a/b.xcassets" "/a/b.xcassets/c" ∧
    ∃ facts warnings, Facts.resolve {} (.xcode Toolchain.defaultRoot) = .ok facts ∧
      Validation.check {} Catalogs.borrowed = .ok warnings ∧
      let files := (Catalogs.borrowed.ownProviders facts).assetCatalog.toList
      let dirs := (Catalogs.borrowed.ownProviders facts).xcassetsDir.toList
      files = ["ui/../shared/Images.xcassets/icon.png"] ∧ dirs = ["ui/shared/Images.xcassets"] ∧
      ¬(∀ file ∈ files, ∃ dir ∈ dirs, dir.IsAbove file) ∧
      ¬∀ dir ∈ dirs, ∃ file ∈ files, dir.IsAbove file := by
  obtain ⟨facts, resolved⟩ := Outlets.exists_facts
  have files : (Catalogs.borrowed.ownProviders facts).assetCatalog.toList =
      ["ui/../shared/Images.xcassets/icon.png"] := by
    show (OrderedSet.ofList [_]).toList = _
    decide
  have dirs : (Catalogs.borrowed.ownProviders facts).xcassetsDir.toList =
      ["ui/shared/Images.xcassets"] := by
    show (containers Validation.assetCatalogSuffixes [_]).toList = _
    decide
  refine ⟨by decide, by decide +kernel, facts, [], resolved, by decide, files, dirs, ?_⟩
  rw [files, dirs]
  decide +kernel

end ObjcPlan
