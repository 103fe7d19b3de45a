import ObjcPlan.Proofs.Containment
import ObjcPlan.Proofs.Lexical
import ObjcPlan.Proofs.Resolution

/-! Where the headers in a generated module map lead (`ModuleMap.headers_lead_back`). The map goes
up once for each name in the path of its directory, which takes its reader back to where that path
starts. So the headers are found if nothing on the way leads up, and if they start from the same
place: the root, or the directory that the plan is for. -/

namespace ObjcPlan

open ObjcPlan.Path

/-! ### Output directories -/

namespace Options

variable {o : Options}

theorem familyOf?_of_slash {front : String} (start : front.toList.head? = some '/') :
    familyOf? front = none := by
  unfold familyOf?
  split
  iterate 4 simp at start
  rfl

theorem isRooted_cpu (valid : o.IsValid) : isRooted ⟨o.cpu⟩ = false := by
  obtain ⟨⟨family, arch⟩, target⟩ := valid.target
  by_contra rooted
  have start : o.cpu.toList.head? = some '/' := by simpa [isRooted] using rooted
  obtain ⟨rest, chars⟩ := List.head?_eq_some_iff.mp start
  have notDarwin : o.cpu ≠ "darwin" := by
    intro same
    simp [same] at start
  -- the front of the cpu starts with the slash too, and no family is called like that
  have refused : splitCpu? o.cpu = none := by
    rw [splitCpu?, if_neg notDarwin]
    split
    · next front arch cut =>
      unfold Text.splitOnce? at cut
      split at cut
      · contradiction
      · obtain ⟨isFront, _⟩ := Prod.mk.inj (Option.some.inj cut)
        have unknown : familyOf? front = none := by
          apply familyOf?_of_slash
          simp [← isFront, chars]
        rw [unknown]
        split <;> rfl
    · rfl
  rw [Options.target, refused] at target
  contradiction

theorem isRooted_outputDirName (valid : o.IsValid) : isRooted ⟨o.outputDirName⟩ = false := by
  by_cases named : o.cpu = ""
  · rw [outputDirName, named]
    cases o.compilationMode <;> decide
  · rw [outputDirName, String.append_assoc, isRooted_append named]
    exact isRooted_cpu valid

theorem isRooted_genfilesDir (valid : o.IsValid) :
    o.genfilesDir.isRooted = isRooted ⟨o.outputBase⟩ := by
  have named : (⟨o.outputBase⟩ : Path).text ≠ "" := valid.outputBase
  calc o.genfilesDir.isRooted
      = ((⟨o.outputBase⟩ : Path) / o.outputDirName).isRooted :=
        isRooted_join (join_text_ne named) (by decide)
    _ = isRooted ⟨o.outputBase⟩ := isRooted_join named (isRooted_outputDirName valid)

theorem parent_mem_genfilesDir (valid : o.IsValid) : .parent ∈ o.genfilesDir.components ↔
    .parent ∈ components ⟨o.outputBase⟩ ∨ .parent ∈ components ⟨o.outputDirName⟩ := by
  have below : .parent ∈ ((⟨o.outputBase⟩ : Path) / o.outputDirName).components ↔
      .parent ∈ components ⟨o.outputBase⟩ ∨ .parent ∈ components ⟨o.outputDirName⟩ :=
    parent_mem_join (isRooted_outputDirName valid)
  have leaf : .parent ∉ components ⟨"genfiles"⟩ := by decide
  have whole : .parent ∈ o.genfilesDir.components ↔
      .parent ∈ ((⟨o.outputBase⟩ : Path) / o.outputDirName).components ∨
        .parent ∈ components ⟨"genfiles"⟩ := parent_mem_join (by decide)
  rw [whole, below]
  simp [leaf]

end Options

theorem Path.ups_append_base_eq_iff {p q : Path} (count : Nat) :
    ups count ++ p.base = q.base ↔ count = 0 ∧ p.isRooted = q.isRooted := by
  unfold base
  cases count with
  | zero => cases p.isRooted <;> cases q.isRooted <;> simp [ups]
  | succ count => cases q.isRooted <;> simp [ups, List.replicate_succ]

namespace ModuleMap

variable {m : ModuleMap} {t : Library} {o : Options}

/-- The directory of the map. -/
def directory (m : ModuleMap) : Path :=
  m.path.parent?.getD ""

/-- A header as the map has it. -/
def written (m : ModuleMap) (header : Path) : Path :=
  ⟨m.ascent ++ header.text⟩

/-! ### From the map to the headers -/

theorem ascent_eq (m : ModuleMap) : m.ascent =
    String.join ((m.directory.components.filterMap Component.name?).map fun _ => "../") :=
  rfl

theorem segments_written (m : ModuleMap) (header : Path) :
    (m.written header).segments =
      List.replicate (m.directory.components.filterMap Component.name?).length ".." ++
        header.segments := by
  rw [written, ascent_eq]
  induction m.directory.components.filterMap Component.name? with
  | nil =>
    rw [List.map_nil, String.join_nil, String.empty_append]
    rfl
  | cons name rest ih =>
    have slash : "../" = ".." ++ String.singleton '/' := by decide
    rw [List.length_cons, List.replicate_succ, List.cons_append, ← ih, List.map_cons,
      String.join_cons, String.append_assoc, segments]
    dsimp only
    rw [slash, Text.split_append, Text.split_eq_singleton (s := "..") (by decide)]
    rfl

theorem steps_written (m : ModuleMap) (header : Path) :
    (m.written header).steps =
      ups (m.directory.components.filterMap Component.name?).length ++ header.steps := by
  have each (count : Nat) :
      (List.replicate count "..").filterMap Component.ofSegment? = ups count := by
    rw [List.filterMap_replicate]
    rfl
  rw [steps, segments_written, List.filterMap_append, each]
  rfl

theorem isRooted_written {name : String} (inside : .name name ∈ m.directory.components)
    (header : Path) : (m.written header).isRooted = false := by
  have isName : name ∈ m.directory.components.filterMap Component.name? :=
    List.mem_filterMap.mpr ⟨_, inside, rfl⟩
  have pieces := segments_written m header
  cases names : m.directory.components.filterMap Component.name? with
  | nil => simp [names] at isName
  | cons first rest =>
    rw [names, List.length_cons, List.replicate_succ] at pieces
    by_contra rooted
    have named : (m.written header).text ≠ "" := by
      intro empty
      simp [isRooted, empty] at rooted
    have start := (head_segments named).mpr (by simpa using rooted)
    simp [pieces] at start

/-- A header is found from the directory of the map if nothing there leads up and both start from
the same place. -/
theorem lexical_written_iff {name : String} (inside : .name name ∈ m.directory.components)
    (header : Path) : (m.directory / m.written header).lexical = header.lexical ↔
      .parent ∉ m.directory.components ∧ m.directory.isRooted = header.isRooted := by
  have named : m.directory.text ≠ "" := by
    intro empty
    rw [components_of_empty empty] at inside
    contradiction
  have back : (m.directory / m.written header).components.foldl resolveStep [] =
      header.steps.foldl resolveStep [] ++
        (ups (m.directory.components.count .parent) ++ m.directory.base) := by
    have grounded := grounded_ups_append m.directory.grounded_base
      (m.directory.components.count .parent)
    rw [components_join named (isRooted_written inside header), steps_written, ← List.append_assoc,
      List.foldl_append, foldl_back, foldl_of_grounded grounded]
  rw [lexical_eq_iff, resolved, resolved, List.reverse_inj, back, foldl_components header,
    List.append_cancel_left_eq, ups_append_base_eq_iff, List.count_eq_zero]

theorem map_lexical_written_iff {name : String} (inside : .name name ∈ m.directory.components)
    (headers : List Path) :
    (headers.map m.written).map (fun header => (m.directory / header).lexical) =
        headers.map lexical ↔
      ∀ header ∈ headers,
        .parent ∉ m.directory.components ∧ m.directory.isRooted = header.isRooted := by
  rw [List.map_map, List.map_inj_left]
  simp only [Function.comp_apply, lexical_written_iff inside]

/-! ### Generated maps -/

/-- The directory in which a map is generated. -/
def home (t : Library) (genfilesDir : Path) : Path :=
  genfilesDir / t.label.packagePath / (t.label.name ++ ".modulemaps")

theorem isRooted_folder (relative : isRooted ⟨t.label.name⟩ = false) :
    isRooted ⟨t.label.name ++ ".modulemaps"⟩ = false := by
  rw [isRooted_append t.label.name_ne_empty]
  exact relative

section Generated

variable {genfilesDir : Path} (generated : t.moduleMap = none)

include generated

theorem components_directory :
    (generate t genfilesDir).directory.components = (home t genfilesDir).components := by
  have path : (generate t genfilesDir).path = home t genfilesDir / "module.modulemap" := by
    rw [generate, generated]
    rfl
  have named : (home t genfilesDir).text ≠ "" := join_name_text_ne (by simp)
  have flat : '/' ∉ "module.modulemap".toList := by decide
  obtain ⟨above, isAbove, same⟩ := exists_parent?_join named flat (by decide)
  rw [directory, path, isAbove]
  exact same

theorem exists_name_mem_directory :
    ∃ name, .name name ∈ (generate t genfilesDir).directory.components := by
  obtain ⟨name, isStep⟩ := exists_name_mem_steps (s := t.label.name) (t := ".modulemaps") (c := 's')
    (by decide) (by decide) (by decide)
  refine ⟨name, ?_⟩
  rw [components_directory generated]
  exact mem_components_join_of_mem_steps isStep

theorem isRooted_directory (named : genfilesDir.text ≠ "")
    (relative : isRooted ⟨t.label.name⟩ = false) :
    (generate t genfilesDir).directory.isRooted = genfilesDir.isRooted := by
  have leaf := isRooted_folder relative
  have below : (home t genfilesDir).isRooted = genfilesDir.isRooted :=
    (isRooted_join (join_text_ne named) leaf).trans
      (isRooted_join named t.label.isRooted_packagePath)
  rw [← below, Bool.eq_iff_iff, isRooted_iff_root_mem, isRooted_iff_root_mem,
    components_directory generated]

theorem parent_mem_directory (relative : isRooted ⟨t.label.name⟩ = false) :
    .parent ∈ (generate t genfilesDir).directory.components ↔
      .parent ∈ genfilesDir.components ∨
        .parent ∈ components ⟨t.label.name ++ ".modulemaps"⟩ := by
  have leaf := isRooted_folder relative
  have inPackage : .parent ∉ t.label.packagePath.components := t.label.isDescent_packagePath.2
  have whole : .parent ∈ (home t genfilesDir).components ↔
      .parent ∈ (genfilesDir / t.label.packagePath).components ∨
        .parent ∈ components ⟨t.label.name ++ ".modulemaps"⟩ := parent_mem_join leaf
  rw [components_directory generated, whole, parent_mem_join t.label.isRooted_packagePath]
  simp [inPackage]

end Generated

theorem content_generate (t : Library) (genfilesDir : Path) :
    let m := generate t genfilesDir
    m.content = "module \"" ++ m.name.getD "" ++ "\" \x7b\n  export *\n" ++
      String.join ((m.publicHeaders.map m.written).map fun header =>
        "  header \"" ++ header.text ++ "\"\n") ++ "\x7d\n" := by
  intro m
  have private_nil : m.privateHeaders = [] := by
    unfold m generate
    split <;> rfl
  have written : m.publicHeaders.map (fun header =>
      "  header \"" ++ m.ascent ++ header.text ++ "\"\n") =
      (m.publicHeaders.map m.written).map fun header =>
        "  header \"" ++ header.text ++ "\"\n" := by
    rw [List.map_map]
    apply List.map_congr_left
    intro header _
    have front : "  header \"" ++ m.ascent ++ header.text =
        "  header \"" ++ (m.written header).text := String.append_assoc
    exact congrArg (· ++ "\"\n") front
  rw [content, written, private_nil, List.map_nil, String.join_nil, String.append_empty]

/-- A map lists its headers as they are written in it. They are found from its directory if nothing
in the path of that leads up, and if the header and the directory both start at the root or neither
does. The directory is named by the output base, the output directory of the configuration and the
library. -/
theorem headers_lead_back {o : Options} (valid : o.validate = .ok ()) (t : Library) :
    let m := generate t o.genfilesDir
    m.content = "module \"" ++ m.name.getD "" ++ "\" \x7b\n  export *\n" ++
      String.join ((m.publicHeaders.map m.written).map fun header =>
        "  header \"" ++ header.text ++ "\"\n") ++ "\x7d\n" ∧
    ((m.publicHeaders.map m.written).map (fun header => (m.directory / header).lexical) =
        m.publicHeaders.map lexical ↔
      ∀ header ∈ m.publicHeaders,
        .parent ∉ m.directory.components ∧ m.directory.isRooted = header.isRooted) ∧
    (t.moduleMap = none → isRooted ⟨t.label.name⟩ = false →
      m.directory.isRooted = isRooted ⟨o.outputBase⟩ ∧
      (.parent ∈ m.directory.components ↔ .parent ∈ components ⟨o.outputBase⟩ ∨
        .parent ∈ components ⟨o.outputDirName⟩ ∨
        .parent ∈ components ⟨t.label.name ++ ".modulemaps"⟩)) := by
  intro m
  have valid := Options.isValid_of_validate valid
  refine ⟨content_generate t o.genfilesDir, ?_, ?_⟩
  · cases custom : t.moduleMap with
    | some own =>
      have none : (generate t o.genfilesDir).publicHeaders = [] := by
        rw [generate, custom]
      simp [m, none]
    | none =>
      have inside : ∃ name, .name name ∈ m.directory.components := exists_name_mem_directory custom
      obtain ⟨name, inside⟩ := inside
      exact map_lexical_written_iff inside _
  · intro generated relative
    have named : o.genfilesDir.text ≠ "" := join_name_text_ne (by decide)
    constructor
    · rw [isRooted_directory generated named relative]
      exact Options.isRooted_genfilesDir valid
    · rw [parent_mem_directory generated relative, Options.parent_mem_genfilesDir valid, or_assoc]

namespace Umbrella

def library : Library where
  label := ⟨"kit", "kit", by decide, by decide⟩
  hdrs := ["h.h", "part/i.hpp", "data.inc"]

theorem accepted : Validation.check ⟨false⟩ library = .ok [] := by decide +kernel

theorem publicHeaders_generate :
    (generate library (Options.genfilesDir {})).publicHeaders = ["kit/h.h", "kit/part/i.hpp"] := by
  decide +kernel

end Umbrella

/-- The default options have maps that lead to their headers. -/
theorem headers_lead_back_default :
    let m := generate Umbrella.library (Options.genfilesDir {})
    Options.validate {} = .ok () ∧ m.publicHeaders = ["kit/h.h", "kit/part/i.hpp"] ∧
      (m.publicHeaders.map m.written).map (fun header => (m.directory / header).lexical) =
        m.publicHeaders.map lexical := by
  intro m
  have valid : Options.validate {} = .ok () := by decide +kernel
  obtain ⟨_, found, way⟩ := headers_lead_back valid Umbrella.library
  obtain ⟨rooted, up⟩ := way rfl (by decide)
  refine ⟨valid, Umbrella.publicHeaders_generate, found.mpr ?_⟩
  intro header mem
  have relative : ∀ header ∈ m.publicHeaders, header.isRooted = false := by
    rw [Umbrella.publicHeaders_generate]
    decide
  constructor
  · rw [up]
    decide +kernel
  · rw [rooted, relative header mem]
    decide

/-- In an output directory `a/../b`, the way up has a step too many. -/
theorem headers_lead_astray :
    let o : Options := { outputBase := "a/../b" }
    let m := generate Umbrella.library o.genfilesDir
    o.validate = .ok () ∧ Validation.check ⟨o.disableResources⟩ Umbrella.library = .ok [] ∧
      (m.publicHeaders.map m.written).map (fun header => (m.directory / header).lexical) ≠
        m.publicHeaders.map lexical := by
  refine ⟨by decide +kernel, Umbrella.accepted, ?_⟩
  decide +kernel

end ModuleMap

end ObjcPlan
