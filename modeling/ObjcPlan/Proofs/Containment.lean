import ObjcPlan.Proofs.Descent
import ObjcPlan.Proofs.Outputs

/-! Plans write below the output directories of their configuration
(`Library.analyze_writes_below`), as long as the name of the target leads down and no source is
called like `..m`. A package cannot lead out, since its directories are checked one by one, but the
name of a target is not. -/

namespace ObjcPlan

open ObjcPlan.Path

/-! ### What leads to a place -/

theorem Label.isDescent_packagePath (l : Label) : l.packagePath.IsDescent := by
  refine ⟨l.isRooted_packagePath, ?_⟩
  rw [parent_mem_components_iff]
  intro mem
  by_cases named : l.package = ""
  · have single : l.packagePath.segments = [""] := by
      rw [packagePath, named]
      rfl
    simp [single] at mem
  · have plain := segment_of_directory named mem
    simp [Component.ofSegment?] at plain

theorem Path.cutExtension_object (stem : String) :
    (cutExtension (stem ++ ".o")).1 = if stem = "" then ".o" else stem := by
  have chars : (stem ++ ".o").toList.reverse = 'o' :: '.' :: stem.toList.reverse := by simp
  unfold cutExtension
  rw [chars]
  cases behind : stem.toList.reverse with
  | nil =>
    obtain rfl : stem = "" := by simpa using behind
    rfl
  | cons c rest =>
    have named : stem ≠ "" := by
      rintro rfl
      simp at behind
    simp [named, ← behind]

theorem Path.replaceExtension_object_ne {stem : String} (notDot : stem ≠ ".") :
    replaceExtension (stem ++ ".o") "d" ≠ ".." := by
  unfold replaceExtension
  dsimp only
  rw [cutExtension_object]
  have stem_ne : (if stem = "" then ".o" else stem) ≠ "." := by
    split
    · decide
    · exact notDot
  rw [if_neg stem_ne]
  intro same
  have last := congrArg (fun s : String => s.toList.getLast?) same
  simp at last

namespace Place

variable {place : Place} {name : String} {label : Label} {facts : Facts}

theorem cases_of_mem_bucket {arc : Bool} {index : Option Nat} {s : String}
    (mem : s ∈ bucket name arc index) : ('/' ∉ s.toList ∧ s ≠ "..") ∨ s = name := by
  simp only [bucket, List.cons_append, List.nil_append, List.mem_cons, List.mem_map,
    Option.mem_toList] at mem
  rcases mem with rfl | rfl | rfl | ⟨n, _, rfl⟩
  · exact .inl (by decide)
  · exact .inr rfl
  · left
    cases arc <;> decide
  · refine .inl ⟨(isSegment_toString n).1, fun up => ?_⟩
    have digits := isDigit_of_mem_toString (n := n)
    rw [up] at digits
    exact absurd (digits '.' (by decide)) (by decide)

/-- A name on the way to a place is flat, and not `..` unless that is the dependency file of `..o`,
or it is made of the name of the target. -/
theorem cases_of_mem_names (flat : place.IsFlat) {s : String} (mem : s ∈ place.names name) :
    ('/' ∉ s.toList ∧ (s = ".." → ∃ arc index, place = depFile arc index ".")) ∨
      s = name ∨ s = "lib" ++ (name ++ ".a") ∨
      ∃ t c, s = name ++ t ∧ '/' ∉ t.toList ∧ t.toList.getLast? = some c ∧ c ≠ '.' := by
  cases place with
  | object arc index stem =>
    have flat : '/' ∉ stem.toList := flat
    rcases List.mem_append.mp mem with before | isLeaf
    · rcases cases_of_mem_bucket before with ⟨flat, notUp⟩ | same
      · exact .inl ⟨flat, fun up => absurd up notUp⟩
      · exact .inr (.inl same)
    · obtain rfl := List.mem_singleton.mp isLeaf
      refine .inl ⟨by simpa using flat, fun up => ?_⟩
      have last := congrArg (fun s : String => s.toList.getLast?) up
      simp at last
  | depFile arc index stem =>
    have flat : '/' ∉ stem.toList := flat
    rcases List.mem_append.mp mem with before | isLeaf
    · rcases cases_of_mem_bucket before with ⟨flat, notUp⟩ | same
      · exact .inl ⟨flat, fun up => absurd up notUp⟩
      · exact .inr (.inl same)
    · obtain rfl := List.mem_singleton.mp isLeaf
      refine .inl ⟨(isSegment_replaceExtension (c := 'd') (by simpa using flat) (by decide)
        (by decide) (by decide)).1, fun up => ?_⟩
      by_cases dot : stem = "."
      · exact ⟨arc, index, by rw [dot]⟩
      · exact absurd up (replaceExtension_object_ne dot)
  | archive =>
    rw [List.mem_singleton.mp mem, String.append_assoc]
    exact .inr (.inr (.inl rfl))
  | objlist =>
    rw [List.mem_singleton.mp mem]
    exact .inr (.inr (.inr ⟨_, 't', rfl, by decide, by decide, by decide⟩))
  | fullyLinked =>
    rw [List.mem_singleton.mp mem]
    exact .inr (.inr (.inr ⟨_, 'a', rfl, by decide, by decide, by decide⟩))
  | moduleMap =>
    rcases List.mem_cons.mp mem with rfl | isLeaf
    · exact .inr (.inr (.inr ⟨_, 's', rfl, by decide, by decide, by decide⟩))
    · obtain rfl := List.mem_singleton.mp isLeaf
      exact .inl ⟨by decide, fun up => absurd up (by decide)⟩

theorem isRooted_of_mem_names (flat : place.IsFlat) (named : name ≠ "")
    (relative : isRooted ⟨name⟩ = false) : ∀ s ∈ place.names name, isRooted ⟨s⟩ = false := by
  intro s mem
  rcases cases_of_mem_names flat mem with ⟨flat, _⟩ | rfl | rfl | ⟨t, c, rfl, _⟩
  · exact isRooted_eq_false flat
  · exact relative
  · exact isRooted_append (by decide)
  · rw [isRooted_append named]
    exact relative

/-- The path from the root of the place to the file. -/
def below (place : Place) (label : Label) : Path :=
  label.packagePath.descend (place.names label.name)

theorem isRooted_below (flat : place.IsFlat) (relative : isRooted ⟨label.name⟩ = false) :
    (place.below label).isRooted = false :=
  isRooted_descend label.isRooted_packagePath
    (isRooted_of_mem_names flat label.name_ne_empty relative)

theorem path_eq_join (flat : place.IsFlat) (relative : isRooted ⟨label.name⟩ = false) :
    place.path label facts = place.root facts / place.below label :=
  join_descend label.isRooted_packagePath (isRooted_of_mem_names flat label.name_ne_empty relative)

theorem isDescent_below_iff (flat : place.IsFlat) (relative : isRooted ⟨label.name⟩ = false) :
    (place.below label).IsDescent ↔ ∀ s ∈ place.names label.name, IsDescent ⟨s⟩ := by
  rw [below, isDescent_descend_iff (isRooted_of_mem_names flat label.name_ne_empty relative)]
  simp [label.isDescent_packagePath]

/-- The file of a place is reached going down only, unless it is the dependency file of `..o`. -/
theorem isDescent_of_mem_names (flat : place.IsFlat) (named : name ≠ "") (down : IsDescent ⟨name⟩)
    (notDot : ∀ arc index, place ≠ depFile arc index ".") :
    ∀ s ∈ place.names name, IsDescent ⟨s⟩ := by
  intro s mem
  rcases cases_of_mem_names flat mem with ⟨flat, up⟩ | rfl | rfl | ⟨t, c, rfl, flat, last, more⟩
  · refine isDescent_of_flat flat fun same => ?_
    obtain ⟨arc, index, isDepFile⟩ := up same
    exact notDot arc index isDepFile
  · exact down
  · have tail : IsDescent ⟨name ++ ".a"⟩ :=
      isDescent_append (c := 'a') down named (by decide) (by decide) (by decide)
    refine ⟨isRooted_append (by decide), ?_⟩
    rw [parent_mem_components_iff]
    intro isUp
    rcases Text.mem_split_flat_append (by decide) isUp with among | ⟨behind, same⟩
    · exact tail.2 (parent_mem_components_iff.mpr among)
    · have first := congrArg (fun s : String => s.toList.head?) same
      simp at first
  · exact isDescent_append down named flat last more

end Place

/-! ### Output directories -/

/-- Whether the path is reached from a directory going down only. -/
def Path.IsBelow (p directory : Path) : Prop :=
  ∃ q : Path, q.IsDescent ∧ p = directory / q

namespace Facts

variable {o : Options} {toolchain : Toolchain} {facts : Facts} {p q : Path}

/-- Whether the path is in one of the output trees. -/
def Covers (facts : Facts) (p : Path) : Prop :=
  p.IsBelow facts.binDir ∨ p.IsBelow facts.genfilesDir

theorem exists_outputDirs_eq (resolved : Facts.resolve o toolchain = .ok facts) :
    ∃ front : String,
      facts.binDir = ⟨front ++ "bin"⟩ ∧ facts.genfilesDir = ⟨front ++ "genfiles"⟩ := by
  obtain ⟨bin, genfiles⟩ := outputDirs_of_resolve resolved
  obtain ⟨front, joined⟩ := ((⟨o.outputBase⟩ : Path) / o.outputDirName).exists_join_eq
  refine ⟨front, ?_, ?_⟩
  · rw [bin]
    exact joined ⟨"bin"⟩ (by decide)
  · rw [genfiles]
    exact joined ⟨"genfiles"⟩ (by decide)

theorem isRooted_genfilesDir (resolved : Facts.resolve o toolchain = .ok facts) :
    facts.genfilesDir.isRooted = facts.binDir.isRooted := by
  obtain ⟨front, bin, genfiles⟩ := exists_outputDirs_eq resolved
  rw [bin, genfiles]
  by_cases named : front = ""
  · rw [named]
    decide
  · rw [isRooted_append named, isRooted_append named]

/-- No path is in both output trees. -/
theorem bin_join_ne_genfiles_join (resolved : Facts.resolve o toolchain = .ok facts)
    (relative : p.isRooted = false) (relative' : q.isRooted = false) :
    facts.binDir / p ≠ facts.genfilesDir / q := by
  obtain ⟨front, bin, genfiles⟩ := exists_outputDirs_eq resolved
  obtain ⟨rest, below⟩ := exists_rest_of_join (p := facts.binDir) relative
  obtain ⟨rest', below'⟩ := exists_rest_of_join (p := facts.genfilesDir) relative'
  rw [below, below', bin, genfiles]
  intro same
  have texts : front ++ "bin" ++ rest = front ++ "genfiles" ++ rest' := congrArg Path.text same
  rw [String.append_assoc, String.append_assoc, String.append_right_inj] at texts
  have first := congrArg (fun s : String => s.toList.head?) texts
  simp at first

theorem covers_bin_join_iff (resolved : Facts.resolve o toolchain = .ok facts)
    (relative : q.isRooted = false) : facts.Covers (facts.binDir / q) ↔ q.IsDescent := by
  constructor
  · rintro (⟨r, down, same⟩ | ⟨r, down, same⟩)
    · exact join_left_cancel relative down.1 same ▸ down
    · exact absurd same (bin_join_ne_genfiles_join resolved relative down.1)
  · intro down
    exact .inl ⟨q, down, rfl⟩

theorem Covers.isRooted_eq (resolved : Facts.resolve o toolchain = .ok facts)
    (covers : facts.Covers p) : p.isRooted = facts.binDir.isRooted := by
  rcases covers with ⟨q, down, rfl⟩ | ⟨q, down, rfl⟩
  · exact isRooted_join (root_named resolved .archive) down.1
  · exact (isRooted_join (root_named resolved .moduleMap) down.1).trans
      (isRooted_genfilesDir resolved)

end Facts

/-! ### Libraries -/

theorem Place.covers_of_isDescent {place : Place} {label : Label} {facts : Facts}
    (flat : place.IsFlat) (relative : isRooted ⟨label.name⟩ = false)
    (down : (place.below label).IsDescent) : facts.Covers (place.path label facts) := by
  rw [path_eq_join flat relative]
  cases place with
  | moduleMap => exact .inr ⟨_, down, rfl⟩
  | _ => exact .inl ⟨_, down, rfl⟩

/-- Whether the library names nothing that leads up: its own name leads down, and no source has the
stem `.`, which would make a dependency file of `..`. -/
def Library.LeadsDown (t : Library) : Prop :=
  IsDescent ⟨t.label.name⟩ ∧ ∀ source ∈ t.compiledSources, source.file.stem? ≠ some "."

instance (t : Library) : Decidable t.LeadsDown :=
  inferInstanceAs (Decidable (_ ∧ _))

namespace AnalyzedLibrary.PlannedFor

variable {l : AnalyzedLibrary} {t : Library} {o : Options} {toolchain : Toolchain} {facts : Facts}

theorem covers_of_leadsDown (planned : l.PlannedFor t facts) (down : t.LeadsDown) {path : Path}
    (mem : path ∈ l.writtenPaths) : facts.Covers path := by
  obtain ⟨place, isOf, rfl, _⟩ := planned.exists_place mem
  rw [planned.label]
  apply Place.covers_of_isDescent isOf.isFlat down.1.1
  rw [Place.isDescent_below_iff isOf.isFlat down.1.1]
  apply Place.isDescent_of_mem_names isOf.isFlat t.label.name_ne_empty down.1
  rintro arc index rfl
  obtain ⟨source, compiled, same⟩ := isOf
  apply down.2 source compiled
  cases stem : source.file.stem? with
  | none => simp [stem] at same
  | some text => simpa [stem] using same

/-- The object of a source and its dependency file are written. -/
theorem exists_written (planned : l.PlannedFor t facts) {source : Library.Source}
    (compiled : source ∈ t.compiledSources) : ∃ arc index,
      (Place.object arc index (source.file.stem?.getD "")).path t.label facts ∈ l.writtenPaths ∧
      (Place.depFile arc index (source.file.stem?.getD "")).path t.label facts ∈
        l.writtenPaths := by
  obtain ⟨arc, index, object, depFile⟩ := Library.exists_mem_compilePlaces compiled
  exact ⟨arc, index, planned.path_mem object, planned.path_mem depFile⟩

theorem isRooted_object {arc : Bool} {index : Option Nat} {stem : String}
    (rooted : isRooted ⟨t.label.name⟩ = true) :
    ((Place.object arc index stem).path t.label facts).isRooted = true := by
  -- the name takes the place of all that comes before it
  have taken : facts.binDir / t.label.packagePath / "_objs" / t.label.name = ⟨t.label.name⟩ :=
    join_of_rooted rooted
  show ((facts.binDir / t.label.packagePath / "_objs" / t.label.name).descend _).isRooted = true
  rw [taken]
  exact isRooted_descend_of_rooted rooted

theorem leadsDown_of_covers (planned : l.PlannedFor t facts)
    (resolved : Facts.resolve o toolchain = .ok facts) (compiles : t.compiledSources ≠ [])
    (relative : facts.binDir.isRooted = false ∨ isRooted ⟨t.label.name⟩ = false)
    (covers : ∀ path ∈ l.writtenPaths, facts.Covers path) : t.LeadsDown := by
  have relative : isRooted ⟨t.label.name⟩ = false := by
    rcases relative with relative | relative
    · obtain ⟨source, compiled⟩ := List.exists_mem_of_ne_nil _ compiles
      obtain ⟨arc, index, object, _⟩ := planned.exists_written compiled
      have rooted := (covers _ object).isRooted_eq resolved
      rw [relative] at rooted
      by_contra name
      rw [isRooted_object (by simpa using name)] at rooted
      contradiction
    · exact relative
  have down (place : Place) (flat : place.IsFlat) (root : place.root facts = facts.binDir)
      (written : place.path t.label facts ∈ l.writtenPaths) :
      ∀ s ∈ place.names t.label.name, IsDescent ⟨s⟩ := by
    have covered := covers _ written
    rw [Place.path_eq_join flat relative, root,
      Facts.covers_bin_join_iff resolved (Place.isRooted_below flat relative)] at covered
    exact (Place.isDescent_below_iff flat relative).mp covered
  constructor
  · obtain ⟨source, compiled⟩ := List.exists_mem_of_ne_nil _ compiles
    obtain ⟨arc, index, object, _⟩ := planned.exists_written compiled
    apply down (.object arc index _) source.file.stem_flat rfl object
    simp [Place.names, Place.bucket]
  · intro source compiled dot
    obtain ⟨arc, index, _, depFile⟩ := planned.exists_written compiled
    have leaf :
        ".." ∈ (Place.depFile arc index (source.file.stem?.getD "")).names t.label.name := by
      simp only [Place.names, dot, Option.getD_some]
      exact List.mem_append_right _ (by decide)
    have leads := down (.depFile arc index _) source.file.stem_flat rfl depFile ".." leaf
    exact absurd leads (by decide)

end AnalyzedLibrary.PlannedFor

theorem Library.exists_analyze {t : Library} {facts : Facts} {warnings : List Diagnostic}
    (accepted : Validation.check ⟨facts.disableResources⟩ t = .ok warnings)
    (dependencies : List Dependency) : ∃ l, t.analyze dependencies facts = .ok l := by
  unfold analyze
  rw [accepted]
  exact ⟨_, rfl⟩

/-- An accepted library is analyzed, and what is written for it is in the output trees of the
configuration if the library names nothing that leads up; if it compiles anything, only then. -/
theorem Library.analyze_writes_below {o : Options} {toolchain : Toolchain} {facts : Facts}
    (resolved : Facts.resolve o toolchain = .ok facts) {t : Library} {warnings : List Diagnostic}
    (accepted : Validation.check ⟨facts.disableResources⟩ t = .ok warnings)
    (dependencies : List Dependency) :
    ∃ l, t.analyze dependencies facts = .ok l ∧
      (t.LeadsDown → ∀ path ∈ l.writtenPaths, facts.Covers path) ∧
      (t.compiledSources ≠ [] →
        (facts.binDir.isRooted = false ∨ isRooted ⟨t.label.name⟩ = false) →
        (∀ path ∈ l.writtenPaths, facts.Covers path) → t.LeadsDown) := by
  obtain ⟨l, analyzed⟩ := exists_analyze accepted dependencies
  have planned := plannedFor_of_analyze analyzed
  refine ⟨l, analyzed, fun down path mem => planned.covers_of_leadsDown down mem, ?_⟩
  exact fun compiles relative covers =>
    planned.leadsDown_of_covers resolved compiles relative covers

namespace Outlets

def inner : Library where
  label := ⟨"tap", "inner", by decide, by decide⟩
  srcs := ["x.m"]

/-- The name of this library leads from `_objs` to the root of the workspace. -/
def outer : Library where
  label := ⟨"tap", "../../../../../outer", by decide, by decide⟩
  srcs := ["x.m"]

/-- The dependency file of `..o` is called `..`. -/
def dotted : Library where
  label := ⟨"tap", "dotted", by decide, by decide⟩
  srcs := ["..m"]

theorem exists_facts : ∃ facts, Facts.resolve {} (.xcode Toolchain.defaultRoot) = .ok facts :=
  exists_of_isOk (by decide)

theorem isRooted_binDir {facts : Facts}
    (resolved : Facts.resolve {} (.xcode Toolchain.defaultRoot) = .ok facts) :
    facts.binDir.isRooted = false := by
  rw [(Facts.outputDirs_of_resolve resolved).1]
  decide

theorem accepted (t : Library) (isOne : t ∈ [inner, outer, dotted]) (policy : Validation.Policy) :
    ∃ warnings, Validation.check policy t = .ok warnings := by
  have passed : ∀ t ∈ [inner, outer, dotted], (Validation.check policy t).isOk = true := by
    obtain ⟨_ | _⟩ := policy <;> decide
  exact exists_of_isOk (passed t isOne)

theorem inner_leadsDown : inner.LeadsDown := by decide

theorem outer_not_leadsDown : ¬outer.LeadsDown := by decide

theorem dotted_not_leadsDown : ¬dotted.LeadsDown := by decide

end Outlets

/-- `inner` writes in the output trees, `outer` and `dotted` do not. -/
theorem Library.analyze_writes_below_outlets :
    ∃ facts inner outer dotted,
      Facts.resolve {} (.xcode Toolchain.defaultRoot) = .ok facts ∧
      Outlets.inner.analyze [] facts = .ok inner ∧ Outlets.outer.analyze [] facts = .ok outer ∧
      Outlets.dotted.analyze [] facts = .ok dotted ∧
      (∀ path ∈ inner.writtenPaths, facts.Covers path) ∧
      ¬(∀ path ∈ outer.writtenPaths, facts.Covers path) ∧
      ¬∀ path ∈ dotted.writtenPaths, facts.Covers path := by
  obtain ⟨facts, resolved⟩ := Outlets.exists_facts
  have rooted := Outlets.isRooted_binDir resolved
  obtain ⟨_, accepted⟩ := Outlets.accepted Outlets.inner (by decide) ⟨facts.disableResources⟩
  obtain ⟨_, accepted'⟩ := Outlets.accepted Outlets.outer (by decide) ⟨facts.disableResources⟩
  obtain ⟨_, accepted''⟩ := Outlets.accepted Outlets.dotted (by decide) ⟨facts.disableResources⟩
  obtain ⟨inner, analyzed, inside, _⟩ := Library.analyze_writes_below resolved accepted []
  obtain ⟨outer, analyzed', _, only⟩ := Library.analyze_writes_below resolved accepted' []
  obtain ⟨dotted, analyzed'', _, only'⟩ := Library.analyze_writes_below resolved accepted'' []
  refine ⟨facts, inner, outer, dotted, resolved, analyzed, analyzed', analyzed'',
    inside Outlets.inner_leadsDown, fun covers => ?_, fun covers => ?_⟩
  · exact Outlets.outer_not_leadsDown (only (by decide) (.inl rooted) covers)
  · exact Outlets.dotted_not_leadsDown (only' (by decide) (.inl rooted) covers)

/-- A library is accepted and analyzed, and something is written for it that is in no output tree. -/
theorem Library.analyze_writes_outside :
    ∃ facts warnings l, Facts.resolve {} (.xcode Toolchain.defaultRoot) = .ok facts ∧
      Validation.check ⟨facts.disableResources⟩ Outlets.outer = .ok warnings ∧
      Outlets.outer.analyze [] facts = .ok l ∧ ∃ path ∈ l.writtenPaths, ¬facts.Covers path := by
  obtain ⟨facts, resolved⟩ := Outlets.exists_facts
  obtain ⟨warnings, accepted⟩ := Outlets.accepted Outlets.outer (by decide) ⟨facts.disableResources⟩
  obtain ⟨l, analyzed⟩ := exists_analyze accepted []
  refine ⟨facts, warnings, l, resolved, accepted, analyzed, ?_⟩
  by_contra none
  push Not at none
  exact Outlets.outer_not_leadsDown <| (plannedFor_of_analyze analyzed).leadsDown_of_covers resolved
    (by decide) (.inl (Outlets.isRooted_binDir resolved)) none

end ObjcPlan
