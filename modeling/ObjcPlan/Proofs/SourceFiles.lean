import ObjcPlan.Proofs.Containment
import ObjcPlan.Proofs.FileNames
import ObjcPlan.Proofs.Violations

/-! What the source files of a library come to. Each has one use, each that is compiled has its own
compilation at the same position, and the archive takes the objects of all of them and those that
were compiled elsewhere (`Library.analyze_sources`). -/

namespace ObjcPlan

open ObjcPlan.Path

/-- What a file among the sources is there for. -/
inductive SourceUse
  | compiled
  | privateHeader
  | precompiled
  deriving DecidableEq

/-- The use of the files of a kind. -/
def FileKind.use? : FileKind → Option SourceUse
  | source _ => some .compiled
  | header | textual => some .privateHeader
  | object => some .precompiled
  | other => none

theorem FileKind.exists_use {kind : FileKind} (known : kind ≠ .other) :
    ∃ use, kind.use? = some use := by
  cases kind with
  | other => contradiction
  | _ => exact ⟨_, rfl⟩

/-- Whether the library takes a file of `srcs` for the use. -/
def Library.UsesAs (t : Library) (file : Path) : SourceUse → Prop
  | .compiled => ⟨file, true⟩ ∈ t.compiledSources
  | .privateHeader => file ∈ t.privateHeaders
  | .precompiled => file ∈ t.precompiledObjects

/-- Whether the compilation is that of the source, with the object. -/
structure CompileEntry.Compiles (e : CompileEntry) (t : Library) (file : Library.Source)
    (path : Path) : Prop where
  source : e.source = t.label.execPath file.file
  arc : e.arc = file.arc
  language : FileKind.ofPath file.file = .source e.language
  object : e.object = path

/-! ### Uses -/

namespace Library

variable {t : Library} {facts : Facts} {policy : Validation.Policy} {warnings : List Diagnostic}
  {file : Path}

theorem allows_srcs (accepted : Validation.check policy t = .ok warnings) :
    ∀ file ∈ t.srcs, FileKind.ofPath file ≠ .other :=
  (Validation.check_eq_ok_iff.mp accepted).1.srcs

theorem allows_nonArcSrcs (accepted : Validation.check policy t = .ok warnings) :
    ∀ file ∈ t.nonArcSrcs, (FileKind.ofPath file).language?.isSome = true := by
  intro file mem
  obtain ⟨language, kind, _⟩ := (Validation.check_eq_ok_iff.mp accepted).1.nonArcSrcs file mem
  rw [kind]
  rfl

theorem usesAs_iff (mem : file ∈ t.srcs) (use : SourceUse) :
    t.UsesAs file use ↔ (FileKind.ofPath file).use? = some use := by
  have listed : t.UsesAs file use ↔ match use with
      | .compiled => (FileKind.ofPath file).language?.isSome = true
      | .privateHeader => FileKind.ofPath file = .header ∨ FileKind.ofPath file = .textual
      | .precompiled => FileKind.ofPath file = .object := by
    cases use <;> simp [UsesAs, compiledSources, privateHeaders, precompiledObjects, mem]
  rw [listed]
  cases use <;> cases FileKind.ofPath file <;> simp [FileKind.language?, FileKind.use?]

theorem existsUnique_use (mem : file ∈ t.srcs) (known : FileKind.ofPath file ≠ .other) :
    ∃! use, t.UsesAs file use := by
  obtain ⟨use, isUse⟩ := FileKind.exists_use known
  refine ⟨use, (usesAs_iff mem use).mpr isUse, fun use' uses => ?_⟩
  exact Option.some.inj (((usesAs_iff mem use').mp uses).symm.trans isUse)

theorem compiledSources_eq (accepted : Validation.check policy t = .ok warnings) :
    t.compiledSources =
      (t.srcs.filter fun file => (FileKind.ofPath file).language?.isSome).map (⟨·, true⟩) ++
        t.nonArcSrcs.map (⟨·, false⟩) := by
  rw [compiledSources, List.filter_eq_self.mpr (allows_nonArcSrcs accepted)]

end Library

/-! ### Compilations -/

theorem getElem?_filterMap_of_forall {α β : Type} {f : α → Option β} {l : List α}
    (all : ∀ a ∈ l, ∃ b, f a = some b) (i : Nat) : (l.filterMap f)[i]? = l[i]?.bind f := by
  induction l generalizing i with
  | nil => rfl
  | cons a rest ih =>
    have ⟨⟨b, made⟩, others⟩ := List.forall_mem_cons.mp all
    rw [List.filterMap_cons, made]
    cases i with
    | zero => exact made.symm
    | succ i => exact ih others i

/-- The compilation at a position is that of the source and the object at the same position. -/
theorem Compilation.exists_compiles (c : Compilation) {i : Nat} {source : Library.Source}
    (isSource : c.library.compiledSources[i]? = some source) : ∃ e object,
      c.plan[i]? = some e ∧ (objectPaths c.library c.facts.binDir)[i]? = some object ∧
        e.Compiles c.library source object := by
  have mem := List.mem_of_getElem? isSource
  obtain ⟨language, compiled⟩ := Library.language_of_mem mem
  have bound : i < (objectPaths c.library c.facts.binDir).length := by
    rw [length_objectPaths]
    exact (List.getElem?_eq_some_iff.mp isSource).1
  have isObject := List.getElem?_eq_getElem bound
  have isPair : (c.library.compiledSources.zip (objectPaths c.library c.facts.binDir))[i]? =
      some (source, _) := List.getElem?_zip_eq_some.mpr ⟨isSource, isObject⟩
  refine ⟨c.entry source.file source.arc language _, _, ?_, isObject, rfl, rfl, ?_, rfl⟩
  · rw [plan, getElem?_filterMap_of_forall, isPair]
    · simp [compiled]
    · rintro ⟨source, object⟩ mem
      obtain ⟨language, compiled⟩ := Library.language_of_mem (List.of_mem_zip mem).1
      exact ⟨c.entry source.file source.arc language object, by simp [compiled]⟩
  · cases kind : FileKind.ofPath source.file <;> simp_all [FileKind.language?, entry]

/-! ### Archives -/

namespace Text

/-- A text that ends each of some lines with a line feed has these lines. -/
theorem lines_join {texts : List String} (flat : ∀ s ∈ texts, '\n' ∉ s.toList)
    (unclosed : ∀ s ∈ texts, s.toList.getLast? ≠ some '\r') :
    lines (String.join (texts.map (· ++ "\n"))) = texts.map String.toList := by
  induction texts with
  | nil => exact lines_empty
  | cons s rest ih =>
    have ⟨flat, others⟩ := List.forall_mem_cons.mp flat
    have ⟨unclosed, others'⟩ := List.forall_mem_cons.mp unclosed
    have text : String.join ((s :: rest).map (· ++ "\n")) = String.ofList
        (s.toList ++ '\n' :: (String.join (rest.map (· ++ "\n"))).toList) := by
      apply String.toList_inj.mp
      simp
    rw [text, lines_append_feed flat, dropReturn_eq_self unclosed, String.ofList_toList,
      ih others others', List.map_cons]

end Text

theorem last_of_mem_objectPaths {t : Library} {binDir object : Path}
    (mem : object ∈ objectPaths t binDir) : object.text.toList.getLast? = some 'o' := by
  obtain ⟨⟨⟨arc, stem⟩, index⟩, _, rfl⟩ := List.mem_map.mp mem
  have last : (stem ++ ".o").toList.getLast? = some 'o' := last_append stem (by decide)
  exact last_join (q := ⟨stem ++ ".o"⟩) last

theorem FileKind.eq_of_object {extension : String} (object : ofExtension extension = .object) :
    extension = "o" := by
  unfold ofExtension at object
  split at object
  all_goals first | rfl | contradiction | skip
  split at object
  · contradiction
  · split at object <;> contradiction

/-- The path of an object ends with its extension, up to slashes and dots. -/
theorem last_ne_of_object {p : Path} (object : FileKind.ofPath p = .object) {c : Char}
    (notSlash : c ≠ '/') (notDot : c ≠ '.') (other : c ≠ 'o') :
    p.text.toList.getLast? ≠ some c := by
  intro last
  obtain ⟨name, named, ends⟩ := exists_fileName?_of_last last notSlash notDot
  cases extension : p.extension? with
  | none => simp [FileKind.ofPath, extension] at object
  | some text =>
    rw [FileKind.ofPath, extension] at object
    obtain rfl := FileKind.eq_of_object object
    obtain ⟨name', named', cut⟩ := exists_fileName?_of_extension? extension
    obtain rfl := Option.some.inj (named.symm.trans named')
    rw [last_of_cutExtension cut (by decide)] at ends
    exact other (Option.some.inj ends).symm

namespace AnalyzedLibrary.PlannedFor

variable {l : AnalyzedLibrary} {t : Library} {facts : Facts} {plan : ArchivePlan}

theorem archive_lists (planned : l.PlannedFor t facts) (found : l.archive = some plan) :
    plan.inputs = l.compiles.map CompileEntry.object ++ t.precompiledObjects.map t.label.execPath ∧
      plan.objlist.content = String.join ((plan.inputs.map Path.text).map (· ++ "\n")) := by
  rw [planned.archive, Archive.plan?] at found
  split at found
  · contradiction
  · obtain rfl := Option.some.inj found
    exact ⟨rfl, by rw [List.map_map]; rfl⟩

theorem unclosed_inputs (planned : l.PlannedFor t facts) (found : l.archive = some plan) :
    ∀ input ∈ plan.inputs, input.text.toList.getLast? ≠ some '\r' := by
  rw [(planned.archive_lists found).1]
  refine List.forall_mem_append.mpr ⟨fun object mem => ?_, fun path mem => ?_⟩
  · rw [last_of_mem_objectPaths (planned.objects_eq ▸ mem)]
    decide
  · obtain ⟨file, isObject, rfl⟩ := List.mem_map.mp mem
    have object : FileKind.ofPath file = .object := by simpa using (List.mem_filter.mp isObject).2
    have kept : FileKind.ofPath (t.label.execPath file) = FileKind.ofPath file :=
      FileKind.ofPath_join (by simp [object])
    exact last_ne_of_object (kept.trans object) (by decide) (by decide) (by decide)

theorem lines_objlist (planned : l.PlannedFor t facts) (found : l.archive = some plan)
    (flat : ∀ input ∈ plan.inputs, '\n' ∉ input.text.toList) :
    Text.lines plan.objlist.content = plan.inputs.map fun input => input.text.toList := by
  have unclosed := planned.unclosed_inputs found
  rw [(planned.archive_lists found).2, Text.lines_join (List.forall_mem_map.mpr flat)
    (List.forall_mem_map.mpr unclosed), List.map_map]
  rfl

end AnalyzedLibrary.PlannedFor

/-- Every file of `srcs` has one use and every file of `nonArcSrcs` is compiled. The compilations
are those of the compiled sources, in their order and each with the object at its position. There is
an archive if there is anything to archive, and it takes the objects of all compilations and the
precompiled objects, in order, which are also the lines of its list. -/
theorem Library.analyze_sources {t : Library} {facts : Facts} {warnings : List Diagnostic}
    (accepted : Validation.check ⟨facts.disableResources⟩ t = .ok warnings)
    (dependencies : List Dependency) :
    (∀ file ∈ t.srcs, ∃! use, t.UsesAs file use) ∧
    (∀ file ∈ t.nonArcSrcs, ⟨file, false⟩ ∈ t.compiledSources) ∧
    t.compiledSources =
      (t.srcs.filter fun file => (FileKind.ofPath file).language?.isSome).map (⟨·, true⟩) ++
        t.nonArcSrcs.map (⟨·, false⟩) ∧
    t.precompiledObjects = t.srcs.filter (fun file => FileKind.ofPath file = .object) ∧
    ∃ l, t.analyze dependencies facts = .ok l ∧
      l.compiles.length = t.compiledSources.length ∧
      (objectPaths t facts.binDir).length = t.compiledSources.length ∧
      (∀ (i : Nat) (source : Source), t.compiledSources[i]? = some source →
        ∃ (e : CompileEntry) (object : Path), l.compiles[i]? = some e ∧
          (objectPaths t facts.binDir)[i]? = some object ∧ e.Compiles t source object) ∧
      l.archive.isSome = t.hasObjects ∧
      ∀ plan, l.archive = some plan →
        plan.inputs =
          l.compiles.map CompileEntry.object ++ t.precompiledObjects.map t.label.execPath ∧
        plan.action.inputs = .ofList (plan.inputs ++ [plan.objlist.output]) ∧
        ((∀ input ∈ plan.inputs, '\n' ∉ input.text.toList) →
          Text.lines plan.objlist.content = plan.inputs.map fun input => input.text.toList) := by
  have sources := compiledSources_eq accepted
  refine ⟨fun file mem => existsUnique_use mem (allows_srcs accepted file mem), ?_, sources, rfl,
    ?_⟩
  · intro file mem
    rw [sources]
    exact List.mem_append_right _ (List.mem_map_of_mem mem)
  · obtain ⟨l, analyzed⟩ := exists_analyze accepted dependencies
    have planned := plannedFor_of_analyze analyzed
    refine ⟨l, analyzed, planned.length_compiles, length_objectPaths _ _, ?_,
      planned.archive_isSome, ?_⟩
    · intro i source isSource
      rw [planned.compiles]
      exact (t.compilation l.providers facts).exists_compiles isSource
    · intro plan found
      have ⟨inputs, _⟩ := planned.archive_lists found
      refine ⟨inputs, ?_, planned.lines_objlist found⟩
      rw [inputs]
      exact planned.archive_inputs found

namespace Mixed

def library : Library where
  label := ⟨"mixed", "mixed", by decide, by decide⟩
  srcs := ["a.m", "a.h", "x.o", "sub/a.c", "y.o"]
  nonArcSrcs := ["b.mm"]

theorem accepted (policy : Validation.Policy) :
    ∃ warnings, Validation.check policy library = .ok warnings := by
  obtain ⟨_ | _⟩ := policy <;> exact exists_of_isOk (by decide +kernel)

end Mixed

/-- The sources are compiled in three languages, one of them without reference counting, and the
objects of all of them come before the two that were compiled elsewhere. -/
theorem Library.analyze_sources_mixed :
    ∃ facts l plan, Facts.resolve {} (.xcode Toolchain.defaultRoot) = .ok facts ∧
      Mixed.library.analyze [] facts = .ok l ∧ l.archive = some plan ∧
      l.compiles.map CompileEntry.source = ["mixed/a.m", "mixed/sub/a.c", "mixed/b.mm"] ∧
      l.compiles.map CompileEntry.language = [.objc, .c, .objcpp] ∧
      l.compiles.map CompileEntry.arc = [true, true, false] ∧
      Text.lines plan.objlist.content = [
          "mortar-out/ios_x86_64-fastbuild/bin/mixed/_objs/mixed/arc/0/a.o",
          "mortar-out/ios_x86_64-fastbuild/bin/mixed/_objs/mixed/arc/1/a.o",
          "mortar-out/ios_x86_64-fastbuild/bin/mixed/_objs/mixed/non_arc/b.o",
          "mixed/x.o", "mixed/y.o"].map String.toList := by
  obtain ⟨facts, resolved⟩ := Outlets.exists_facts
  obtain ⟨warnings, accepted⟩ := Mixed.accepted ⟨facts.disableResources⟩
  obtain ⟨_, _, _, objects, l, analyzed, length, _, compiles, isSome, archived⟩ :=
    analyze_sources accepted []
  obtain ⟨plan, found⟩ := Option.isSome_iff_exists.mp (isSome.trans (by decide))
  obtain ⟨inputs, _, lines⟩ := archived plan found
  have planned := plannedFor_of_analyze analyzed
  have listed : plan.inputs = [
      "mortar-out/ios_x86_64-fastbuild/bin/mixed/_objs/mixed/arc/0/a.o",
      "mortar-out/ios_x86_64-fastbuild/bin/mixed/_objs/mixed/arc/1/a.o",
      "mortar-out/ios_x86_64-fastbuild/bin/mixed/_objs/mixed/non_arc/b.o",
      "mixed/x.o", "mixed/y.o"].map Path.mk := by
    rw [inputs, planned.objects_eq, (Facts.outputDirs_of_resolve resolved).1]
    decide +kernel
  obtain ⟨e₁, e₂, e₃, three⟩ := List.length_eq_three.mp (length.trans (by decide))
  rw [three] at compiles
  have entries {α : Type} (value : CompileEntry → α) :
      l.compiles.map value = [value e₁, value e₂, value e₃] := by
    rw [three]
    rfl
  obtain ⟨_, _, ⟨⟩, _, first⟩ := compiles 0 ⟨"a.m", true⟩ (by decide)
  obtain ⟨_, _, ⟨⟩, _, second⟩ := compiles 1 ⟨"sub/a.c", true⟩ (by decide)
  obtain ⟨_, _, ⟨⟩, _, third⟩ := compiles 2 ⟨"b.mm", false⟩ (by decide)
  refine ⟨facts, l, plan, resolved, analyzed, found, ?_, ?_, ?_, (lines ?_).trans ?_⟩
  · rw [entries, first.source, second.source, third.source]
    decide
  · have language (spoken : Language) {e : CompileEntry} {file : Source} {path : Path}
        (compiled : e.Compiles Mixed.library file path)
        (kind : FileKind.ofPath file.file = .source spoken) : e.language = spoken :=
      FileKind.source.inj (compiled.language.symm.trans kind)
    rw [entries, language .objc first (by decide), language .c second (by decide),
      language .objcpp third (by decide)]
  · rw [entries, first.arc, second.arc, third.arc]
  · rw [listed]
    decide +kernel
  · rw [listed]
    rfl

end ObjcPlan
