import Mathlib.Data.List.Flatten
import ObjcPlan.Proofs.Arguments
import ObjcPlan.Proofs.Containment
import ObjcPlan.Proofs.DiscoveredInputs
import ObjcPlan.Proofs.Violations

/-! The include directories of a library in its compilations and in those of its dependents. Every
path goes up some directories and then down to some names (`Path.exists_foldl_resolveStep_eq`), so
an include directory leads to the root exactly if all it does is go up as many directories as its
package is deep (`Label.resolved_execPath_eq_nil_iff`). The root is the empty text, and its option
is written without a directory (`Library.analyze_includes`). -/

namespace ObjcPlan

namespace Path

open Component (ofSegment?)

variable {p q : Path}

/-! ### Paths that resolve to nothing -/

theorem components_eq_nil_iff : p.components = [] ↔ p.text = "" := by
  refine ⟨fun none => ?_, components_of_empty⟩
  by_contra named
  rw [components_eq named, List.append_eq_nil_iff] at none
  obtain ⟨noLead, noSteps⟩ := none
  obtain ⟨first, rest, pieces⟩ := List.exists_cons_of_ne_nil p.segments_ne_nil
  rw [pieces, lead] at noLead
  rw [steps, pieces] at noSteps
  have idle := List.filterMap_eq_nil_iff.mp noSteps first List.mem_cons_self
  unfold ofSegment? at idle
  grind

theorem lexical_text_eq_empty_iff : p.lexical.text = "" ↔ p.resolved = [] := by
  rw [← components_eq_nil_iff, components_lexical]

theorem foldl_ups (count : Nat) : (ups count).foldl resolveStep [] = ups count := by
  induction count with
  | zero => rfl
  | succ count ih =>
    rw [ups_succ', List.foldl_append, ih, ← ups_succ']
    cases count <;> rfl

/-- So many `..` lead from some names to nothing exactly if there are as many of these. -/
theorem foldl_ups_names_eq_nil_iff {count : Nat} {names : List String} :
    (ups count).foldl resolveStep (names.map .name) = [] ↔ count = names.length := by
  induction count generalizing names with
  | zero => simp [ups, eq_comm]
  | succ count ih =>
    cases names with
    | nil =>
      show (ups (count + 1)).foldl resolveStep [] = [] ↔ _
      rw [foldl_ups]
      simp [ups]
    | cons name names =>
      show (ups count).foldl resolveStep (names.map .name) = [] ↔ _
      rw [ih, List.length_cons, Nat.add_right_cancel_iff]

/-- Steps go up some directories and then down to some names, from wherever they start. -/
theorem exists_foldl_resolveStep_eq {steps : List Component} (areSteps : ∀ c ∈ steps, c.IsStep) :
    ∃ (names : List String) (count : Nat), ∀ kept, steps.foldl resolveStep kept =
      names.map .name ++ (ups count).foldl resolveStep kept := by
  -- the last step adds a name to what the others come to, cancels one, or goes up once more
  induction steps using List.reverseRecOn with
  | nil => exact ⟨[], 0, fun _ => rfl⟩
  | append_singleton front c ih =>
    obtain ⟨before, last⟩ := List.forall_mem_append.mp areSteps
    obtain ⟨names, count, same⟩ := ih before
    rcases (last c List.mem_cons_self).cases with rfl | ⟨name, rfl⟩
    · cases names with
      | nil =>
        refine ⟨[], count + 1, fun kept => ?_⟩
        rw [List.foldl_append, same, ups_succ', List.foldl_append]
        rfl
      | cons top names =>
        refine ⟨names, count, fun kept => ?_⟩
        rw [List.foldl_append, same]
        rfl
    · refine ⟨name :: names, count, fun kept => ?_⟩
      rw [List.foldl_append, same]
      rfl

/-- Steps lead from some names to nothing exactly if all they do is go up as many directories. -/
theorem foldl_names_eq_nil_iff {steps : List Component} (areSteps : ∀ c ∈ steps, c.IsStep)
    {names : List String} : steps.foldl resolveStep (names.map .name) = [] ↔
      steps.foldl resolveStep [] = ups names.length := by
  obtain ⟨down, count, same⟩ := exists_foldl_resolveStep_eq areSteps
  rw [same, same, foldl_ups, List.append_eq_nil_iff, foldl_ups_names_eq_nil_iff]
  constructor
  · rintro ⟨none, rfl⟩
    rw [none]
    rfl
  · intro up
    cases down with
    | nil =>
      refine ⟨rfl, ?_⟩
      simpa [ups] using congrArg List.length up
    | cons name down =>
      cases counted : names.length with
      | zero => simp [counted, ups] at up
      | succ n => simp [counted, ups, List.replicate_succ] at up

theorem foldl_names (names : List String) (kept : List Component) :
    (names.map .name).foldl resolveStep kept = (names.map .name).reverse ++ kept := by
  induction names generalizing kept with
  | nil => rfl
  | cons name names ih =>
    rw [List.map_cons, List.foldl_cons, ih, List.reverse_cons, List.append_assoc]
    rfl

theorem resolved_of_relative (relative : p.isRooted = false) :
    p.resolved = (p.steps.foldl resolveStep []).reverse := by
  rw [resolved_eq, base, relative]
  rfl

end Path

/-! ### Include directories -/

namespace Label

open ObjcPlan.Path

variable {l : Label}

theorem components_packagePath (l : Label) :
    l.packagePath.components = l.directories.map .name := by
  by_cases named : l.package = ""
  · rw [directories, packagePath, named]
    rfl
  · have whole : l.packagePath.steps = l.packagePath.segments.map .name := by
      rw [← List.filterMap_eq_map]
      exact List.filterMap_congr fun s mem => segment_of_directory named mem
    obtain ⟨first, rest, pieces⟩ := List.exists_cons_of_ne_nil l.packagePath.segments_ne_nil
    have isName := segment_of_directory named (pieces ▸ List.mem_cons_self)
    have noLead : lead l.packagePath.segments = [] := by
      rw [pieces, lead, if_neg, if_neg]
      · rintro rfl
        cases isName
      · rintro rfl
        cases isName
    rw [components_eq named, noLead, List.nil_append, directories, whole, List.map_map,
      List.map_map]
    rfl

theorem resolved_execPath (l : Label) {directory : Path} (relative : directory.isRooted = false) :
    (l.execPath directory).resolved =
      (directory.steps.foldl resolveStep (l.directories.reverse.map .name)).reverse := by
  rw [List.map_reverse, execPath]
  by_cases named : l.packagePath.text = ""
  · have none : l.directories = [] := by
      rw [directories, show l.packagePath = ⟨""⟩ from congrArg Path.mk named]
      rfl
    rw [empty_join named, none, resolved_of_relative relative]
    rfl
  · rw [resolved, components_join named relative, List.foldl_append, components_packagePath,
      foldl_names, List.append_nil]

/-- A directory leads from a package to the root exactly if it goes up as many directories as the
package is deep, and nothing else. -/
theorem resolved_execPath_eq_nil_iff (l : Label) {directory : Path}
    (relative : directory.isRooted = false) :
    (l.execPath directory).resolved = [] ↔ directory.resolved = ups l.directories.length := by
  have palindrome : (ups l.directories.length).reverse = ups l.directories.length :=
    List.reverse_replicate
  rw [resolved_execPath l relative, List.reverse_eq_nil_iff,
    foldl_names_eq_nil_iff isStep_of_mem_steps, List.length_reverse, resolved_of_relative relative,
    List.reverse_eq_iff, palindrome]

end Label

/-- Two ways to search a directory that are the same are written without one together. -/
theorem IncludePath.bare_mem_arguments_iff {i : IncludePath} {p : Path}
    (same : Identity.key (IncludePath.angle p) = Identity.key i) :
    "-I" ∈ i.arguments ↔ p.text = "" := by
  obtain ⟨kind, components⟩ := Prod.mk.inj same
  cases i with
  | angle q =>
    have components : p.components = q.components := components
    rw [← Path.components_eq_nil_iff, components, Path.components_eq_nil_iff]
    show "-I" ++ "" ∈ ["-I" ++ q.text] ↔ _
    rw [List.mem_singleton, String.append_right_inj, eq_comm]
  | quote q => exact absurd kind (show "angle" ≠ "quote" by decide)
  | system q => exact absurd kind (show "angle" ≠ "system" by decide)

namespace Library

/-- Whether the analysis is one of the library, or else of a library with a dependency of which this
holds. -/
inductive Feeds (t : Library) (facts : Facts) : AnalyzedLibrary → Prop
  | own {dependencies : List Dependency} {l : AnalyzedLibrary}
      (analyzed : t.analyze dependencies facts = .ok l) : t.Feeds facts l
  | dependent {u : Library} {dependencies : List Dependency} {l l' : AnalyzedLibrary}
      (feeds : t.Feeds facts l) (isDependency : l.asDependency ∈ dependencies)
      (analyzed : u.analyze dependencies facts = .ok l') : t.Feeds facts l'

variable {o : Options} {toolchain : Toolchain} {facts : Facts} {t u : Library}
  {dependencies : List Dependency} {l l' : AnalyzedLibrary} {warnings : List Diagnostic}
  {directory : Path}

theorem Feeds.exists_plannedFor (feeds : t.Feeds facts l) :
    ∃ u : Library, l.PlannedFor u facts := by
  cases feeds with
  | own analyzed => exact ⟨_, plannedFor_of_analyze analyzed⟩
  | dependent _ _ analyzed => exact ⟨_, plannedFor_of_analyze analyzed⟩

theorem contains_of_mem_listing (analyzed : t.analyze dependencies facts = .ok l)
    {key : ProviderKey} {value : key.Value}
    (mem : value ∈ (t.ownProviders facts).listing dependencies key) :
    (l.providers.get key).contains value = true := by
  rw [providers_of_analyze analyzed, ProviderSet.merge, ProviderSet.get_ofFn]
  exact OrderedSet.contains_ofList_of_mem mem

/-- What a library contributes is among what it offers and what its dependents offer. -/
theorem Feeds.contains (feeds : t.Feeds facts l) (key : ProviderKey) {value : key.Value}
    (mem : value ∈ ((t.ownProviders facts).get key).toList) :
    (l.providers.get key).contains value = true := by
  induction feeds with
  | own analyzed =>
    apply contains_of_mem_listing analyzed
    rw [ProviderSet.listing_eq]
    exact MergeOrder.mem_arrange.mpr (.inl mem)
  | dependent feeds isDependency analyzed ih =>
    obtain ⟨held, isHeld, same⟩ := OrderedSet.contains_iff.mp ih
    rw [OrderedSet.contains, same]
    apply contains_of_mem_listing analyzed
    rw [ProviderSet.listing_eq]
    exact MergeOrder.mem_arrange.mpr (.inr (List.mem_flatMap.mpr ⟨_, isDependency, isHeld⟩))

theorem relative_of_accepted (accepted : Validation.check ⟨facts.disableResources⟩ t = .ok warnings)
    (mem : directory ∈ t.includes) : directory.isRooted = false :=
  (Validation.check_eq_ok_iff.mp accepted).1.includes directory mem

/-- The include directory is the empty text exactly if it leads from the package to the root. -/
theorem lexical_text_eq_empty_iff
    (accepted : Validation.check ⟨facts.disableResources⟩ t = .ok warnings)
    (mem : directory ∈ t.includes) :
    (t.label.execPath directory).lexical.text = "" ↔
      directory.resolved = Path.ups t.label.directories.length := by
  rw [Path.lexical_text_eq_empty_iff]
  exact t.label.resolved_execPath_eq_nil_iff (relative_of_accepted accepted mem)

theorem genfiles_join_text_ne (resolved : Facts.resolve o toolchain = .ok facts) (p : Path) :
    (facts.genfilesDir / p).text ≠ "" :=
  Path.join_text_ne (Facts.root_named resolved .moduleMap)

theorem Feeds.contains_of_contains (feeds : t.Feeds facts l) (key : ProviderKey) {value : key.Value}
    (held : ((t.ownProviders facts).get key).contains value = true) :
    (l.providers.get key).contains value = true := by
  obtain ⟨own, isOwn, same⟩ := OrderedSet.contains_iff.mp held
  rw [OrderedSet.contains, same]
  exact feeds.contains key isOwn

theorem Feeds.contains_include (feeds : t.Feeds facts l) {i : IncludePath}
    (mem : i ∈ t.includes.flatMap (t.includePaths facts)) :
    l.providers.includePath.contains i = true :=
  feeds.contains_of_contains .includePath (OrderedSet.contains_ofList_of_mem mem)

/-- Among the arguments that a library's own include directories make, there is a bare option
exactly if one of them leads to the root. -/
theorem Feeds.bare_mem_iff (resolved : Facts.resolve o toolchain = .ok facts)
    (accepted : Validation.check ⟨facts.disableResources⟩ t = .ok warnings)
    (feeds : t.Feeds facts l) :
    "-I" ∈ (l.providers.includePath.restrict
        (t.includes.flatMap (t.includePaths facts))).toList.flatMap IncludePath.arguments ↔
      ∃ directory ∈ t.includes, directory.resolved = Path.ups t.label.directories.length := by
  constructor
  · intro bare
    obtain ⟨i, isHeld, bare⟩ := List.mem_flatMap.mp bare
    obtain ⟨_, own, isOwn, same⟩ := OrderedSet.mem_restrict.mp isHeld
    obtain ⟨directory, mem, isOne⟩ := List.mem_flatMap.mp isOwn
    refine ⟨directory, mem, (lexical_text_eq_empty_iff accepted mem).mp ?_⟩
    rcases List.mem_pair.mp isOne with rfl | rfl
    · exact (IncludePath.bare_mem_arguments_iff same).mp bare
    · exact absurd ((IncludePath.bare_mem_arguments_iff same).mp bare)
        (genfiles_join_text_ne resolved _)
  · rintro ⟨directory, mem, leads⟩
    have isOwn : .angle (t.label.execPath directory).lexical ∈
        t.includes.flatMap (t.includePaths facts) :=
      List.mem_flatMap.mpr ⟨directory, mem, List.mem_cons_self⟩
    obtain ⟨i, isHeld, same⟩ := OrderedSet.contains_iff.mp (feeds.contains_include isOwn)
    have bare := (IncludePath.bare_mem_arguments_iff same).mpr
      ((lexical_text_eq_empty_iff accepted mem).mpr leads)
    exact List.mem_flatMap.mpr ⟨i, OrderedSet.mem_restrict.mpr ⟨isHeld, _, isOwn, same⟩, bare⟩

/-- The include directories stand together in the arguments, and not at their end. -/
theorem includes_infix (planned : l.PlannedFor u facts) {e : CompileEntry}
    (mem : e ∈ l.compiles) :
    l.providers.includePath.toList.flatMap IncludePath.arguments ++ ["-iquote"] <:+:
      e.action.arguments := by
  rw [planned.compiles] at mem
  obtain ⟨source, _, language, object, _, rfl⟩ := Compilation.mem_plan mem
  have together (before includes : List String) (genfiles : String) :
      includes ++ ["-iquote"] <:+: before ++ includes ++ ["-iquote", genfiles] :=
    ⟨before, [genfiles], by simp⟩
  unfold Compilation.entry Compilation.arguments Compilation.searchArguments
  iterate 6 apply List.infix_append_of_infix_left
  exact List.infix_append_of_infix_right (List.infix_append_of_infix_left (together ..))

/-- The two places of an include directory of an accepted library are its own below the root, which
is the empty text exactly if the directory only goes up from the package to the root, and the one
below the generated files, which is not. In the compilations of the library and of all that depend
on it, directly or not, both are searched. Among the arguments for them there is an `-I` without a
directory, which takes the argument behind it, exactly if a directory leads to the root. -/
theorem analyze_includes (resolved : Facts.resolve o toolchain = .ok facts)
    (accepted : Validation.check ⟨facts.disableResources⟩ t = .ok warnings) :
    let own := t.includes.flatMap (t.includePaths facts)
    let leadsToRoot (directory : Path) :=
      directory.resolved = Path.ups t.label.directories.length
    (∀ directory ∈ t.includes,
      let rooted := (t.label.execPath directory).lexical
      (rooted.text = "" ↔ leadsToRoot directory) ∧ (facts.genfilesDir / rooted).text ≠ "") ∧
    (∀ dependencies, ∃ l, t.analyze dependencies facts = .ok l ∧ t.Feeds facts l) ∧
    ∀ l, t.Feeds facts l →
      let includes := l.providers.includePath.toList.flatMap IncludePath.arguments
      let rendered := (l.providers.includePath.restrict own).toList.flatMap IncludePath.arguments
      (∀ i ∈ own, l.providers.includePath.contains i = true) ∧
      ("-I" ∈ rendered ↔ ∃ directory ∈ t.includes, leadsToRoot directory) ∧
      ∀ e ∈ l.compiles,
        rendered.Sublist includes ∧ includes ++ ["-iquote"] <:+: e.action.arguments := by
  intro own leadsToRoot
  refine ⟨fun directory mem => ?_, fun dependencies => ?_, fun l feeds => ?_⟩
  · exact ⟨lexical_text_eq_empty_iff accepted mem, genfiles_join_text_ne resolved _⟩
  · obtain ⟨l, analyzed⟩ := exists_analyze accepted dependencies
    exact ⟨l, analyzed, .own analyzed⟩
  · intro includes rendered
    obtain ⟨u, planned⟩ := feeds.exists_plannedFor
    have among : rendered.Sublist includes := (OrderedSet.sublist_restrict ..).flatMap _
    exact ⟨fun i => feeds.contains_include, feeds.bare_mem_iff resolved accepted,
      fun e mem => ⟨among, includes_infix planned mem⟩⟩

end Library

namespace Includes

/-- A library with two include directories, one of which leads out of the package and back. -/
def lib : Library where
  label := Shared.core.label
  srcs := ["a.m"]
  includes := ["include", "../core/gen"]

def app : Library where
  label := Refused.app.label
  srcs := ["main.m"]
  deps := [lib.label]

/-- A library whose include directory is the root. -/
def upward : Library where
  label := lib.label
  srcs := ["a.m"]
  includes := [".."]

theorem accepted (t : Library) (isOne : t ∈ [lib, app, upward]) (policy : Validation.Policy) :
    Validation.check policy t = .ok [] := by
  have passed : ∀ t ∈ [lib, app, upward], Validation.check policy t = .ok [] := by
    obtain ⟨_ | _⟩ := policy <;> decide
  exact passed t isOne

theorem genfilesDir {facts : Facts}
    (resolved : Facts.resolve {} (.xcode Toolchain.defaultRoot) = .ok facts) :
    facts.genfilesDir = "mortar-out/ios_x86_64-fastbuild/genfiles" := by
  rw [(Facts.outputDirs_of_resolve resolved).2]
  decide

end Includes

/-- No directory of `lib` leads to the root, so those that `app` takes over are all searched. -/
theorem Library.analyze_includes_inherited :
    ∃ facts l l', Facts.resolve {} (.xcode Toolchain.defaultRoot) = .ok facts ∧
      Validation.check ⟨facts.disableResources⟩ Includes.lib = .ok [] ∧
      Includes.lib.analyze [] facts = .ok l ∧
      Includes.app.analyze [l.asDependency] facts = .ok l' ∧
      let own := Includes.lib.includes.flatMap (Includes.lib.includePaths facts)
      (∀ i ∈ own, l'.providers.includePath.contains i = true) ∧
      "-I" ∉ (l'.providers.includePath.restrict own).toList.flatMap IncludePath.arguments := by
  obtain ⟨facts, resolved⟩ := Outlets.exists_facts
  have accepted := Includes.accepted Includes.lib (by decide) ⟨facts.disableResources⟩
  obtain ⟨_, analyzes, feeds⟩ := analyze_includes resolved accepted
  obtain ⟨l, analyzed, feedsSelf⟩ := analyzes []
  obtain ⟨l', analyzed'⟩ := exists_analyze
    (Includes.accepted Includes.app (by decide) ⟨facts.disableResources⟩) [l.asDependency]
  obtain ⟨taken, bare, _⟩ := feeds l' (.dependent feedsSelf List.mem_cons_self analyzed')
  refine ⟨facts, l, l', resolved, accepted, analyzed, analyzed', taken, fun isBare => ?_⟩
  exact absurd (bare.mp isBare) (by decide)

/-- A library whose include directory is the root is compiled with an option without a directory. -/
theorem Library.analyze_includes_root :
    ∃ facts l, Facts.resolve {} (.xcode Toolchain.defaultRoot) = .ok facts ∧
      Validation.check ⟨facts.disableResources⟩ Includes.upward = .ok [] ∧
      Includes.upward.analyze [] facts = .ok l ∧
      ∃ e ∈ l.compiles,
        ["-I", "-Imortar-out/ios_x86_64-fastbuild/genfiles/"] <:+: e.action.arguments := by
  obtain ⟨facts, resolved⟩ := Outlets.exists_facts
  have accepted := Includes.accepted Includes.upward (by decide) ⟨facts.disableResources⟩
  obtain ⟨l, analyzed⟩ := exists_analyze accepted []
  have planned := plannedFor_of_analyze analyzed
  obtain ⟨e, mem⟩ := planned.exists_compile (by decide)
  refine ⟨facts, l, resolved, accepted, analyzed, e, mem, ?_⟩
  have own : ((Includes.upward.ownProviders facts).get .includePath).toList =
      [.angle "", .angle "mortar-out/ios_x86_64-fastbuild/genfiles/"] := by
    show (OrderedSet.ofList (Includes.upward.includes.flatMap
      (Includes.upward.includePaths facts))).toList = _
    unfold includePaths
    rw [Includes.genfilesDir resolved]
    decide
  have offered : l.providers.get .includePath =
      (Includes.upward.ownProviders facts).get .includePath := by
    rw [providers_of_analyze analyzed, ProviderSet.merge, ProviderSet.get_ofFn]
    show OrderedSet.ofList (_ ++ []) = _
    rw [List.append_nil, OrderedSet.ofList_toList]
  have together := includes_infix planned mem
  rw [show l.providers.includePath.toList = _ from (congrArg _ offered).trans own] at together
  exact (List.prefix_append _ _).isInfix.trans together

end ObjcPlan
