import ObjcPlan.Proofs.Ancestors
import ObjcPlan.Validation
import Mathlib.Data.List.Sort

/-! What checking a declaration reports. A finding is about one entry of an attribute
(`Validation.Occurrence`), and the relations `Validation.Violates` and `Validation.Warns` say which
entries deserve one. The check refuses a declaration with all its violations and nothing else, each
once and in the order of the checks, or accepts it with all its warnings
(`Validation.check_reports`). -/

namespace ObjcPlan

/-- Whether the file has an extension that the attribute takes. -/
def SourceAttribute.Takes (a : SourceAttribute) (file : Path) : Prop :=
  ∃ extension ∈ a.extensions, file.extension? = some extension

/-- Whether a directory above the path has a name that ends with one of the suffixes. -/
def Path.IsHeld (suffixes : List String) (p : Path) : Prop :=
  ∃ above ∈ p.ancestors, above.isContainer suffixes = true

namespace Validation

/-- The checks of a declaration, in the order of their findings. -/
inductive Check
  | srcsKind
  | nonArcSrcsKind
  | sourceOverlap
  | headerOverlap
  | moduleAttributes
  | rootedInclude
  | disabledResource
  | assetCatalogContainer
  | datamodelContainer
  | modulesCache
  deriving DecidableEq

/-- A finding of a check about the entry with an index. -/
structure Occurrence where
  check : Check
  index : Nat
  finding : Diagnostic

/-- Whether the first is reported before the second. -/
def Occurrence.Before (o o' : Occurrence) : Prop :=
  o.check.ctorIdx < o'.check.ctorIdx ∨ o.check = o'.check ∧ o.index < o'.index

section Findings

variable (t : Library)

def unfitFile (a : SourceAttribute) (file : Path) : Diagnostic :=
  error a.name <| "'" ++ t.label.fileLabel file ++ "' does not produce any objc_library " ++
    a.name ++ " files (expected " ++ a.expected ++ ")"

def sharedSource (file : Path) : Diagnostic :=
  error "srcs" <| "File '" ++ (t.label.execPath file).text ++
    "' is present in both srcs and non_arc_srcs which is forbidden."

def sharedHeader (file : Path) : Diagnostic :=
  warning "srcs" <| "File '" ++ (t.label.execPath file).text ++ "' is in both srcs and hdrs."

def twoModules : Diagnostic :=
  error "module_name"
    "Specifying both module_name and module_map is invalid, please remove one of them."

def rootedInclude (directory : Path) : Diagnostic :=
  error "includes" <|
    "The path '" ++ directory.text ++ "' is absolute, but only relative paths are allowed."

def disabledResource (name : String) : Diagnostic :=
  error name <|
    "objc_library resource attributes are not allowed. Please use the 'data' attribute instead."

def strayFile (name : String) (suffixes : List String) (file : Path) : Diagnostic :=
  error name <| "File '" ++ (t.label.execPath file).text ++
    "' is not in a directory of one of these type(s): [" ++ ", ".intercalate suffixes ++ "]"

def droppedOption : Diagnostic :=
  warning "copts" "setting '-fmodules-cache-path' manually in copts is unsupported"

end Findings

/-- The violations of a declaration: one for each entry that must not be as it is, for each resource
attribute that is set where they are disabled, and for the two module attributes. -/
inductive Violates (policy : Policy) (t : Library) : Occurrence → Prop
  | srcsKind {i : Nat} {file : Path} (entry : t.srcs[i]? = some file)
      (unfit : ¬ SourceAttribute.srcs.Takes file) :
      Violates policy t ⟨.srcsKind, i, unfitFile t .srcs file⟩
  | nonArcSrcsKind {i : Nat} {file : Path} (entry : t.nonArcSrcs[i]? = some file)
      (unfit : ¬ SourceAttribute.nonArcSrcs.Takes file) :
      Violates policy t ⟨.nonArcSrcsKind, i, unfitFile t .nonArcSrcs file⟩
  | sourceOverlap {i : Nat} {file file' : Path} (entry : t.srcs[i]? = some file)
      (other : file' ∈ t.nonArcSrcs) (same : file'.components = file.components) :
      Violates policy t ⟨.sourceOverlap, i, sharedSource t file⟩
  | moduleAttributes {name : String} {map : Path} (named : t.moduleName = some name)
      (mapped : t.moduleMap = some map) : Violates policy t ⟨.moduleAttributes, 0, twoModules⟩
  | rootedInclude {i : Nat} {directory : Path} (entry : t.includes[i]? = some directory)
      (rooted : directory.isRooted = true) :
      Violates policy t ⟨.rootedInclude, i, rootedInclude directory⟩
  | disabledResource {i : Nat} {name : String} {files : List Path}
      (disabled : policy.disableResources = true)
      (entry : t.resources.attributes[i]? = some (name, some files)) :
      Violates policy t ⟨.disabledResource, i, disabledResource name⟩
  | assetCatalogContainer {i : Nat} {file : Path}
      (entry : (t.resources.assetCatalogs.getD [])[i]? = some file)
      (stray : ¬ file.IsHeld assetCatalogSuffixes) :
      Violates policy t
        ⟨.assetCatalogContainer, i, strayFile t "asset_catalogs" assetCatalogSuffixes file⟩
  | datamodelContainer {i : Nat} {file : Path}
      (entry : (t.resources.datamodels.getD [])[i]? = some file)
      (stray : ¬ file.IsHeld datamodelSuffixes) :
      Violates policy t ⟨.datamodelContainer, i, strayFile t "datamodels" datamodelSuffixes file⟩

/-- The warnings about a declaration: one for each source that is a public header as well, and one
if there are options that will be dropped. -/
inductive Warns (t : Library) : Occurrence → Prop
  | headerOverlap {i : Nat} {file header : Path} (entry : (t.srcs ++ t.nonArcSrcs)[i]? = some file)
      (isHeader : header ∈ t.hdrs) (same : header.components = file.components) :
      Warns t ⟨.headerOverlap, i, sharedHeader t file⟩
  | modulesCache {copt : String} (mem : copt ∈ t.copts)
      (sets : modulesCacheOption.toList <+: copt.toList) :
      Warns t ⟨.modulesCache, 0, droppedOption⟩

/-- What a declaration has to be like. -/
structure Acceptable (policy : Policy) (t : Library) : Prop where
  srcs : ∀ file ∈ t.srcs, FileKind.ofPath file ≠ .other
  nonArcSrcs : ∀ file ∈ t.nonArcSrcs, ∃ language, FileKind.ofPath file = .source language ∧
    (language = .objc ∨ language = .objcpp)
  apart : ∀ file ∈ t.srcs, ∀ file' ∈ t.nonArcSrcs, file'.components ≠ file.components
  one_module : t.moduleName = none ∨ t.moduleMap = none
  includes : ∀ directory ∈ t.includes, directory.isRooted = false
  resources : policy.disableResources = true → t.resources = {}
  assetCatalogs : ∀ files, t.resources.assetCatalogs = some files →
    ∀ file ∈ files, file.IsHeld assetCatalogSuffixes
  datamodels : ∀ files, t.resources.datamodels = some files →
    ∀ file ∈ files, file.IsHeld datamodelSuffixes

end Validation

/-! ### Kinds of files -/

namespace SourceAttribute

variable {a : SourceAttribute} {file : Path} {extension : String}

theorem mem_extensions_of_allows (allowed : a.allows (FileKind.ofExtension extension) = true) :
    extension ∈ a.extensions := by
  cases a with
  | srcs =>
    unfold FileKind.ofExtension at allowed
    split at allowed
    case h_13 =>
      by_contra unknown
      simp only [extensions, List.mem_append, not_or] at unknown
      simp [allows, unknown] at allowed
    all_goals decide
  | nonArcSrcs =>
    unfold FileKind.ofExtension at allowed
    split at allowed
    case h_1 | h_2 => decide
    case h_13 =>
      split_ifs at allowed <;> cases allowed
    all_goals cases allowed

theorem allows_of_mem_extensions :
    ∀ extension ∈ a.extensions, a.allows (FileKind.ofExtension extension) = true := by
  cases a <;> decide

/-- The extensions that messages list are those that decide. -/
theorem allows_ofPath_iff : a.allows (FileKind.ofPath file) = true ↔ a.Takes file := by
  unfold Takes
  cases found : file.extension? with
  | none => cases a <;> simp [FileKind.ofPath, found, allows]
  | some extension =>
    have kind : FileKind.ofPath file = FileKind.ofExtension extension := by
      simp [FileKind.ofPath, found]
    rw [kind]
    constructor
    · exact fun allowed => ⟨extension, mem_extensions_of_allows allowed, rfl⟩
    · rintro ⟨_, mem, same⟩
      cases same
      exact allows_of_mem_extensions _ mem

theorem not_allows_ofPath_iff :
    (!a.allows (FileKind.ofPath file)) = true ↔ ¬ a.Takes file := by
  rw [Bool.not_eq_true', ← Bool.not_eq_true, allows_ofPath_iff]

theorem srcs_takes_iff : srcs.Takes file ↔ FileKind.ofPath file ≠ .other := by
  rw [← allows_ofPath_iff]
  exact decide_eq_true_iff

theorem nonArcSrcs_takes_iff : nonArcSrcs.Takes file ↔
    ∃ language, FileKind.ofPath file = .source language ∧
      (language = .objc ∨ language = .objcpp) := by
  rw [← allows_ofPath_iff]
  cases FileKind.ofPath file with
  | source language => cases language <;> simp [allows, Language.usesArc]
  | header | textual | object | other => simp [allows]

end SourceAttribute

/-- The files with a container are those that a directory of the right type holds. -/
theorem Path.isSome_container?_iff_isHeld {suffixes : List String} {file : Path} :
    (file.container? suffixes).isSome = true ↔ file.IsHeld suffixes := by
  rw [Option.isSome_iff_ne_none, Ne, container?_eq_none_iff]
  simp [IsHeld]

theorem Path.isNone_container?_iff {suffixes : List String} {file : Path} :
    (file.container? suffixes).isNone = true ↔ ¬ file.IsHeld suffixes := by
  rw [← isSome_container?_iff_isHeld]
  simp

theorem ResourceAttributes.eq_empty {r : ResourceAttributes}
    (unset : ∀ entry ∈ r.attributes, entry.2 = none) : r = {} := by
  simp only [attributes, List.forall_mem_cons] at unset
  cases r
  simp_all

namespace Validation

variable {policy policy' : Policy} {t : Library} {c : Check} {o o' : Occurrence}

/-! ### One check -/

section Entries

variable {α : Type} {values : List α} {test : α → Bool} {finding : α → Diagnostic}

/-- The findings of a check about the entries that a test is true of. -/
def occurrencesAmong (c : Check) (values : List α) (test : α → Bool)
    (finding : α → Diagnostic) : List Occurrence :=
  (values.zipIdx.filter fun entry => test entry.1).map fun entry =>
    ⟨c, entry.2, finding entry.1⟩

theorem mem_occurrencesAmong : o ∈ occurrencesAmong c values test finding ↔
    ∃ i a, values[i]? = some a ∧ test a = true ∧ o = ⟨c, i, finding a⟩ := by
  simp only [occurrencesAmong, List.mem_map, List.mem_filter, Prod.exists,
    List.mk_mem_zipIdx_iff_getElem?]
  constructor
  · rintro ⟨a, i, ⟨entry, found⟩, rfl⟩
    exact ⟨i, a, entry, found, rfl⟩
  · rintro ⟨i, a, entry, found, rfl⟩
    exact ⟨a, i, ⟨entry, found⟩, rfl⟩

theorem map_finding_occurrencesAmong :
    (occurrencesAmong c values test finding).map Occurrence.finding =
      (values.filter test).map finding := by
  calc (occurrencesAmong c values test finding).map Occurrence.finding
      = ((values.zipIdx.filter (test ∘ Prod.fst)).map Prod.fst).map finding := by
        simp only [occurrencesAmong, List.map_map]
        rfl
    _ = ((values.zipIdx.map Prod.fst).filter test).map finding := by
        rw [List.filter_map]
    _ = (values.filter test).map finding := by
        rw [List.zipIdx_map_fst]

theorem pairwise_occurrencesAmong :
    (occurrencesAmong c values test finding).Pairwise Occurrence.Before := by
  have indices : values.zipIdx.Pairwise fun entry entry' => entry.2 < entry'.2 := by
    rw [← List.pairwise_map (f := Prod.snd), List.zipIdx_map_snd]
    exact List.pairwise_lt_range'
  refine List.pairwise_map.mpr ((indices.filter _).imp fun before => ?_)
  exact .inr ⟨rfl, before⟩

end Entries

/-! ### All checks -/

/-- What a check finds, entry by entry. -/
def Check.occurrences (policy : Policy) (t : Library) : Check → List Occurrence
  | srcsKind => occurrencesAmong srcsKind t.srcs
      (fun file => !SourceAttribute.srcs.allows (FileKind.ofPath file)) (unfitFile t .srcs)
  | nonArcSrcsKind => occurrencesAmong nonArcSrcsKind t.nonArcSrcs
      (fun file => !SourceAttribute.nonArcSrcs.allows (FileKind.ofPath file))
      (unfitFile t .nonArcSrcs)
  | sourceOverlap => occurrencesAmong sourceOverlap t.srcs
      (fun file => Identity.key file ∈ t.nonArcSrcs.map Identity.key) (sharedSource t)
  | headerOverlap => occurrencesAmong headerOverlap (t.srcs ++ t.nonArcSrcs)
      (fun file => Identity.key file ∈ t.hdrs.map Identity.key) (sharedHeader t)
  | moduleAttributes => occurrencesAmong moduleAttributes [()]
      (fun _ => t.moduleName.isSome && t.moduleMap.isSome) (fun _ => twoModules)
  | rootedInclude =>
    occurrencesAmong rootedInclude t.includes Path.isRooted Validation.rootedInclude
  | disabledResource => occurrencesAmong disabledResource t.resources.attributes
      (fun entry => policy.disableResources && entry.2.isSome)
      (fun entry => Validation.disabledResource entry.1)
  | assetCatalogContainer => occurrencesAmong assetCatalogContainer
      (t.resources.assetCatalogs.getD [])
      (fun file => (file.container? assetCatalogSuffixes).isNone)
      (strayFile t "asset_catalogs" assetCatalogSuffixes)
  | datamodelContainer => occurrencesAmong datamodelContainer (t.resources.datamodels.getD [])
      (fun file => (file.container? datamodelSuffixes).isNone)
      (strayFile t "datamodels" datamodelSuffixes)
  | modulesCache => occurrencesAmong modulesCache [()]
      (fun _ => t.copts.any setsModulesCache) (fun _ => droppedOption)

theorem Violates.mem_occurrences (violates : Violates policy t o) :
    o ∈ o.check.occurrences policy t := by
  unfold Check.occurrences
  cases violates with
  | srcsKind entry unfit =>
    exact mem_occurrencesAmong.mpr
      ⟨_, _, entry, SourceAttribute.not_allows_ofPath_iff.mpr unfit, rfl⟩
  | nonArcSrcsKind entry unfit =>
    exact mem_occurrencesAmong.mpr
      ⟨_, _, entry, SourceAttribute.not_allows_ofPath_iff.mpr unfit, rfl⟩
  | sourceOverlap entry other same =>
    refine mem_occurrencesAmong.mpr ⟨_, _, entry, ?_, rfl⟩
    exact decide_eq_true (List.mem_map.mpr ⟨_, other, same⟩)
  | moduleAttributes named mapped =>
    refine mem_occurrencesAmong.mpr ⟨0, (), rfl, ?_, rfl⟩
    simp [named, mapped]
  | rootedInclude entry rooted =>
    exact mem_occurrencesAmong.mpr ⟨_, _, entry, rooted, rfl⟩
  | disabledResource disabled entry =>
    refine mem_occurrencesAmong.mpr ⟨_, _, entry, ?_, rfl⟩
    simp [disabled]
  | assetCatalogContainer entry stray =>
    exact mem_occurrencesAmong.mpr ⟨_, _, entry, Path.isNone_container?_iff.mpr stray, rfl⟩
  | datamodelContainer entry stray =>
    exact mem_occurrencesAmong.mpr ⟨_, _, entry, Path.isNone_container?_iff.mpr stray, rfl⟩

theorem Warns.mem_occurrences (warns : Warns t o) : o ∈ o.check.occurrences policy t := by
  unfold Check.occurrences
  cases warns with
  | headerOverlap entry isHeader same =>
    refine mem_occurrencesAmong.mpr ⟨_, _, entry, ?_, rfl⟩
    exact decide_eq_true (List.mem_map.mpr ⟨_, isHeader, same⟩)
  | modulesCache mem sets =>
    refine mem_occurrencesAmong.mpr ⟨0, (), rfl, ?_, rfl⟩
    exact List.any_eq_true.mpr ⟨_, mem, setsModulesCache_iff.mpr sets⟩

theorem of_mem_occurrences (mem : o ∈ c.occurrences policy t) :
    o.check = c ∧ (Violates policy t o ∨ Warns t o) := by
  unfold Check.occurrences at mem
  cases c <;> obtain ⟨i, a, entry, found, rfl⟩ := mem_occurrencesAmong.mp mem
  case srcsKind =>
    exact ⟨rfl, .inl (.srcsKind entry (SourceAttribute.not_allows_ofPath_iff.mp found))⟩
  case nonArcSrcsKind =>
    exact ⟨rfl, .inl (.nonArcSrcsKind entry (SourceAttribute.not_allows_ofPath_iff.mp found))⟩
  case sourceOverlap =>
    obtain ⟨other, mem, same⟩ := List.mem_map.mp (of_decide_eq_true found)
    exact ⟨rfl, .inl (.sourceOverlap entry mem same)⟩
  case headerOverlap =>
    obtain ⟨header, mem, same⟩ := List.mem_map.mp (of_decide_eq_true found)
    exact ⟨rfl, .inr (.headerOverlap entry mem same)⟩
  case moduleAttributes =>
    obtain ⟨named, mapped⟩ := Bool.and_eq_true_iff.mp found
    obtain ⟨name, named⟩ := Option.isSome_iff_exists.mp named
    obtain ⟨map, mapped⟩ := Option.isSome_iff_exists.mp mapped
    obtain ⟨rfl, -⟩ : i = 0 ∧ () = a := by simpa [List.getElem?_singleton] using entry
    exact ⟨rfl, .inl (.moduleAttributes named mapped)⟩
  case rootedInclude =>
    exact ⟨rfl, .inl (.rootedInclude entry found)⟩
  case disabledResource =>
    obtain ⟨name, files⟩ := a
    obtain ⟨disabled, isSet⟩ := Bool.and_eq_true_iff.mp found
    obtain ⟨files, rfl⟩ := Option.isSome_iff_exists.mp isSet
    exact ⟨rfl, .inl (.disabledResource disabled entry)⟩
  case assetCatalogContainer =>
    exact ⟨rfl, .inl (.assetCatalogContainer entry (Path.isNone_container?_iff.mp found))⟩
  case datamodelContainer =>
    exact ⟨rfl, .inl (.datamodelContainer entry (Path.isNone_container?_iff.mp found))⟩
  case modulesCache =>
    obtain ⟨copt, isCopt, sets⟩ := List.any_eq_true.mp found
    obtain ⟨rfl, -⟩ : i = 0 ∧ () = a := by simpa [List.getElem?_singleton] using entry
    exact ⟨rfl, .inr (.modulesCache isCopt (setsModulesCache_iff.mp sets))⟩

theorem pairwise_occurrences (c : Check) :
    (c.occurrences policy t).Pairwise Occurrence.Before := by
  unfold Check.occurrences
  cases c <;> exact pairwise_occurrencesAmong

/-- The checks in their order. -/
def Check.all : List Check :=
  [srcsKind, nonArcSrcsKind, sourceOverlap, headerOverlap, moduleAttributes, rootedInclude,
    disabledResource, assetCatalogContainer, datamodelContainer, modulesCache]

theorem Check.mem_all (c : Check) : c ∈ Check.all := by
  cases c <;> decide

/-- What all checks find, one after the other. -/
def reported (policy : Policy) (t : Library) : List Occurrence :=
  Check.all.flatMap (Check.occurrences policy t)

theorem mem_reported_iff : o ∈ reported policy t ↔ Violates policy t o ∨ Warns t o := by
  constructor
  · intro mem
    obtain ⟨c, -, mem⟩ := List.mem_flatMap.mp mem
    exact (of_mem_occurrences mem).2
  · intro found
    refine List.mem_flatMap.mpr ⟨o.check, Check.mem_all _, ?_⟩
    exact found.elim Violates.mem_occurrences Warns.mem_occurrences

theorem pairwise_reported (policy : Policy) (t : Library) :
    (reported policy t).Pairwise Occurrence.Before := by
  have ordered : Check.all.Pairwise fun c c' => c.ctorIdx < c'.ctorIdx := by decide
  refine List.pairwise_flatMap.mpr ⟨fun c _ => pairwise_occurrences c, ordered.imp ?_⟩
  intro c c' before o mem o' mem'
  left
  rwa [(of_mem_occurrences mem).1, (of_mem_occurrences mem').1]

theorem kindFindings_eq (a : SourceAttribute) (files : List Path) :
    kindFindings t a files =
      (files.filter fun file => !a.allows (FileKind.ofPath file)).map (unfitFile t a) := by
  induction files with
  | nil => rfl
  | cons file rest ih =>
    unfold kindFindings at ih ⊢
    rw [List.filterMap_cons, List.filter_cons, ih]
    cases a.allows (FileKind.ofPath file) <;> rfl

theorem disabledResources_eq : disabledResources policy t =
    (t.resources.attributes.filter fun entry => policy.disableResources && entry.2.isSome).map
      fun entry => disabledResource entry.1 := by
  unfold disabledResources
  cases policy.disableResources with
  | false => simp
  | true =>
    simp only [ResourceAttributes.setAttributes, if_true, Bool.true_and]
    induction t.resources.attributes with
    | nil => rfl
    | cons entry rest ih =>
      obtain ⟨name, _ | files⟩ := entry
      · simpa using ih
      · simpa [disabledResource] using ih

theorem moduleFindings_eq : moduleFindings t =
    ([()].filter fun _ => t.moduleName.isSome && t.moduleMap.isSome).map fun _ => twoModules := by
  unfold moduleFindings
  cases t.moduleName.isSome && t.moduleMap.isSome <;> rfl

theorem coptFindings_eq : coptFindings t =
    ([()].filter fun _ => t.copts.any setsModulesCache).map fun _ => droppedOption := by
  unfold coptFindings
  cases t.copts.any setsModulesCache <;> rfl

theorem map_finding_reported (policy : Policy) (t : Library) :
    (reported policy t).map Occurrence.finding = findings policy t := by
  simp only [reported, Check.all, List.flatMap_cons, List.flatMap_nil, List.map_append,
    Check.occurrences, map_finding_occurrencesAmong, findings, List.append_assoc, List.append_nil,
    kindFindings_eq, disabledResources_eq, moduleFindings_eq, coptFindings_eq]
  rfl

/-! ### Violations and warnings -/

instance : Std.Irrefl Occurrence.Before where
  irrefl o := by simp [Occurrence.Before]

instance : Std.Antisymm Occurrence.Before where
  antisymm o o' before after := by
    rcases before with earlier | ⟨same, earlier⟩ <;> rcases after with later | ⟨same', later⟩
    · omega
    · rw [same'] at earlier
      omega
    · rw [same] at later
      omega
    · omega

theorem Violates.isError (violates : Violates policy t o) : o.finding.isError = true := by
  cases violates <;> rfl

theorem Warns.isError_eq_false (warns : Warns t o) : o.finding.isError = false := by
  cases warns <;> rfl

def violations (policy : Policy) (t : Library) : List Occurrence :=
  (reported policy t).filter (·.finding.isError)

def warnings (policy : Policy) (t : Library) : List Occurrence :=
  (reported policy t).filter (!·.finding.isError)

theorem mem_violations_iff : o ∈ violations policy t ↔ Violates policy t o := by
  rw [violations, List.mem_filter, mem_reported_iff]
  constructor
  · rintro ⟨violates | warns, isError⟩
    · exact violates
    · simp [warns.isError_eq_false] at isError
  · exact fun violates => ⟨.inl violates, violates.isError⟩

theorem mem_warnings_iff : o ∈ warnings policy t ↔ Warns t o := by
  rw [warnings, List.mem_filter, mem_reported_iff]
  constructor
  · rintro ⟨violates | warns, noError⟩
    · simp [violates.isError] at noError
    · exact warns
  · exact fun warns => ⟨.inr warns, by simp [warns.isError_eq_false]⟩

theorem pairwise_violations : (violations policy t).Pairwise Occurrence.Before :=
  (pairwise_reported policy t).filter _

theorem pairwise_warnings : (warnings policy t).Pairwise Occurrence.Before :=
  (pairwise_reported policy t).filter _

/-- The policy has no part in the warnings. -/
theorem warnings_congr (policy policy' : Policy) (t : Library) :
    warnings policy t = warnings policy' t :=
  pairwise_warnings.eq_of_mem_iff pairwise_warnings fun _ =>
    mem_warnings_iff.trans mem_warnings_iff.symm

/-- There are not two warnings about options that will be dropped. -/
theorem length_modulesCache_le :
    ((warnings policy t).filter (·.check = .modulesCache)).length ≤ 1 := by
  have nodup : ((warnings policy t).filter (·.check = .modulesCache)).Nodup :=
    (pairwise_warnings.filter _).nodup
  have only : (warnings policy t).filter (·.check = .modulesCache) ⊆
      [⟨.modulesCache, 0, droppedOption⟩] := by
    intro o mem
    obtain ⟨warns, isThis⟩ := List.mem_filter.mp mem
    cases mem_warnings_iff.mp warns with
    | headerOverlap => simp at isThis
    | modulesCache => exact List.mem_singleton_self _
  exact (List.subperm_of_subset nodup only).length_le

theorem check_eq : check policy t =
    if violations policy t = [] then .ok ((warnings policy t).map Occurrence.finding)
    else .error
      (.invalidDeclaration t.label ((violations policy t).map Occurrence.finding)) := by
  have errors : (findings policy t).filter Diagnostic.isError =
      (violations policy t).map Occurrence.finding := by
    rw [← map_finding_reported, List.filter_map]
    rfl
  have others : (findings policy t).filter (!·.isError) =
      (warnings policy t).map Occurrence.finding := by
    rw [← map_finding_reported, List.filter_map]
    rfl
  simp only [check, errors, others, List.map_eq_nil_iff]

/-! ### Acceptance -/

theorem Acceptable.not_violates (acceptable : Acceptable policy t) : ¬ Violates policy t o := by
  intro violates
  cases violates with
  | srcsKind entry unfit =>
    exact unfit <| SourceAttribute.srcs_takes_iff.mpr <|
      acceptable.srcs _ (List.mem_of_getElem? entry)
  | nonArcSrcsKind entry unfit =>
    exact unfit <| SourceAttribute.nonArcSrcs_takes_iff.mpr <|
      acceptable.nonArcSrcs _ (List.mem_of_getElem? entry)
  | sourceOverlap entry other same =>
    exact acceptable.apart _ (List.mem_of_getElem? entry) _ other same
  | moduleAttributes named mapped =>
    rcases acceptable.one_module with unnamed | unmapped
    · simp [unnamed] at named
    · simp [unmapped] at mapped
  | rootedInclude entry rooted =>
    simp [acceptable.includes _ (List.mem_of_getElem? entry)] at rooted
  | disabledResource disabled entry =>
    have mem := List.mem_of_getElem? entry
    simp [acceptable.resources disabled, ResourceAttributes.attributes] at mem
  | assetCatalogContainer entry stray =>
    cases isSet : t.resources.assetCatalogs with
    | none => simp [isSet] at entry
    | some files =>
      rw [isSet] at entry
      exact stray (acceptable.assetCatalogs files isSet _ (List.mem_of_getElem? entry))
  | datamodelContainer entry stray =>
    cases isSet : t.resources.datamodels with
    | none => simp [isSet] at entry
    | some files =>
      rw [isSet] at entry
      exact stray (acceptable.datamodels files isSet _ (List.mem_of_getElem? entry))

theorem acceptable_of_not_violates (faultless : ∀ o, ¬ Violates policy t o) :
    Acceptable policy t where
  srcs file mem := by
    obtain ⟨i, entry⟩ := List.getElem?_of_mem mem
    rw [← SourceAttribute.srcs_takes_iff]
    by_contra unfit
    exact faultless _ (.srcsKind entry unfit)
  nonArcSrcs file mem := by
    obtain ⟨i, entry⟩ := List.getElem?_of_mem mem
    rw [← SourceAttribute.nonArcSrcs_takes_iff]
    by_contra unfit
    exact faultless _ (.nonArcSrcsKind entry unfit)
  apart file mem file' mem' same := by
    obtain ⟨i, entry⟩ := List.getElem?_of_mem mem
    exact faultless _ (.sourceOverlap entry mem' same)
  one_module := by
    by_contra both
    obtain ⟨⟨name, named⟩, ⟨map, mapped⟩⟩ := by
      simpa [Option.ne_none_iff_exists'] using both
    exact faultless _ (.moduleAttributes named mapped)
  includes directory mem := by
    obtain ⟨i, entry⟩ := List.getElem?_of_mem mem
    by_contra rooted
    exact faultless _ (.rootedInclude entry (by simpa using rooted))
  resources disabled := by
    refine ResourceAttributes.eq_empty fun (name, files) mem => ?_
    obtain ⟨i, entry⟩ := List.getElem?_of_mem mem
    cases files with
    | none => rfl
    | some files => exact absurd (.disabledResource disabled entry) (faultless _)
  assetCatalogs files isSet file mem := by
    obtain ⟨i, entry⟩ := List.getElem?_of_mem mem
    by_contra stray
    refine faultless _ (.assetCatalogContainer (i := i) ?_ stray)
    rwa [isSet]
  datamodels files isSet file mem := by
    obtain ⟨i, entry⟩ := List.getElem?_of_mem mem
    by_contra stray
    refine faultless _ (.datamodelContainer (i := i) ?_ stray)
    rwa [isSet]

theorem violations_eq_nil_iff : violations policy t = [] ↔ Acceptable policy t := by
  simp only [List.eq_nil_iff_forall_not_mem, mem_violations_iff]
  exact ⟨acceptable_of_not_violates, fun acceptable _ => acceptable.not_violates⟩

theorem check_eq_ok_iff {found : List Diagnostic} : check policy t = .ok found ↔
    Acceptable policy t ∧ (warnings policy t).map Occurrence.finding = found := by
  rw [check_eq, ← violations_eq_nil_iff]
  split
  · next none => simp [none]
  · next some => simp [some]

theorem exists_check_eq_ok_iff :
    (∃ found, check policy t = .ok found) ↔ Acceptable policy t := by
  simp [check_eq_ok_iff]

/-- The attributes that only warnings are about do not decide. -/
theorem acceptable_with_iff (hdrs : List Path) (copts : List String) :
    Acceptable policy { t with hdrs, copts } ↔ Acceptable policy t := by
  constructor <;>
    exact fun ⟨srcs, nonArcSrcs, apart, one_module, includes, resources, catalogs, datamodels⟩ =>
      ⟨srcs, nonArcSrcs, apart, one_module, includes, resources, catalogs, datamodels⟩

theorem Acceptable.of_disabled (acceptable : Acceptable ⟨true⟩ t) : Acceptable ⟨false⟩ t :=
  { acceptable with resources := nofun }

theorem check_eq_ok_of_disabled {found : List Diagnostic} (accepted : check ⟨true⟩ t = .ok found) :
    check ⟨false⟩ t = .ok found := by
  obtain ⟨acceptable, rfl⟩ := check_eq_ok_iff.mp accepted
  exact check_eq_ok_iff.mpr ⟨acceptable.of_disabled, by rw [warnings_congr]⟩

/-- Checking reports all violations and nothing else, each of them once and in the order of the
checks, or else accepts the declaration with all the warnings about it. What only warnings are about
has no part in that, and where resources are allowed no more is refused. -/
theorem check_reports (policy : Policy) (t : Library) :
    ∃ violations warnings : List Occurrence,
      (∀ o, o ∈ violations ↔ Violates policy t o) ∧ violations.Pairwise Occurrence.Before ∧
      (∀ o, o ∈ warnings ↔ Warns t o) ∧ warnings.Pairwise Occurrence.Before ∧
      (warnings.filter (·.check = .modulesCache)).length ≤ 1 ∧
      check policy t =
        (if violations = [] then .ok (warnings.map Occurrence.finding)
        else .error (.invalidDeclaration t.label (violations.map Occurrence.finding))) ∧
      ((∃ found, check policy t = .ok found) ↔ Acceptable policy t) ∧
      (∀ hdrs copts, (∃ found, check policy { t with hdrs, copts } = .ok found) ↔
        ∃ found, check policy t = .ok found) ∧
      ∀ found, check ⟨true⟩ t = .ok found → check ⟨false⟩ t = .ok found :=
  ⟨violations policy t, warnings policy t, fun _ => mem_violations_iff, pairwise_violations,
    fun _ => mem_warnings_iff, pairwise_warnings, length_modulesCache_le, check_eq,
    exists_check_eq_ok_iff,
    fun hdrs copts => by simp only [exists_check_eq_ok_iff, acceptable_with_iff],
    fun _ => check_eq_ok_of_disabled⟩

/-- An attribute that is set to nothing is refused as well. -/
example (label : Label) (file : Path) :
    check ⟨true⟩ { label, resources := { strings := some [], resources := some [file] } } =
      .error (.invalidDeclaration label
        [disabledResource "strings", disabledResource "resources"]) := by cbv

end Validation

end ObjcPlan
