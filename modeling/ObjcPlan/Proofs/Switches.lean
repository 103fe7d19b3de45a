import ObjcPlan.Proofs.Analyses
import ObjcPlan.Proofs.Locality

/-! Switches of a configuration, and what of the analyses of a graph they can change. Two
configurations are compared library by library: as long as the difference between two analyses with
the same dependencies is one that dependents do not see, it goes no further (`Facts.Matches`), and
the plans of whole graphs differ in the same way only (`Facts.Matches.plans_alike`). Pruning inputs
by dependency files only decides how inputs are discovered, and module maps only add to the
arguments and inputs of compilations (`TargetGraph.switches_contained`). -/

namespace ObjcPlan

open TargetGraph

/-- The plan of a graph for facts that are known already, without an earlier run. -/
def TargetGraph.planFor (g : TargetGraph) (s : Setting) (parallel : Bool) :
    Except PlanError WorkspacePlan :=
  (g.schedule parallel).map fun groups =>
    let progress := ((Progress.start g).run s .empty groups).1
    { facts := s.facts
      libraries := progress.resolver.libraries
      failures := progress.failures
      total := g.size
      groups := groups.length
      tally := progress.tally }

theorem TargetGraph.plan_eq (g : TargetGraph) (o : Options) (toolchain : Toolchain)
    (parallel : Bool) : (g.plan o toolchain parallel .empty).1 =
      (Setting.resolve o toolchain).bind fun s => g.planFor s parallel := by
  unfold plan planFor
  cases Setting.resolve o toolchain with
  | error error => rfl
  | ok s => cases ordered : g.schedule parallel <;> simp [Except.bind, Except.map]

/-- Results that are the same failure, or analyses that are related. -/
inductive Alike {ε : Type} (rel : AnalyzedLibrary → AnalyzedLibrary → Prop) :
    Except ε AnalyzedLibrary → Except ε AnalyzedLibrary → Prop
  | ok {l l' : AnalyzedLibrary} (related : rel l l') : Alike rel (.ok l) (.ok l')
  | error (error : ε) : Alike rel (.error error) (.error error)

theorem Alike.cases {ε : Type} {rel : AnalyzedLibrary → AnalyzedLibrary → Prop}
    {result result' : Except ε AnalyzedLibrary} (alike : Alike rel result result') :
    (∃ l l', result = .ok l ∧ result' = .ok l' ∧ rel l l') ∨
      ∃ error, result = .error error ∧ result' = .error error := by
  cases alike with
  | ok related => exact .inl ⟨_, _, rfl, rfl, related⟩
  | error error => exact .inr ⟨error, rfl, rfl⟩

/-- Plans with the same failures, and related analyses of the same libraries. -/
structure WorkspacePlan.Alike (rel : AnalyzedLibrary → AnalyzedLibrary → Prop)
    (p p' : WorkspacePlan) : Prop where
  failures : p.failures = p'.failures
  libraries : ∀ label, Option.Rel rel (p.libraries.get? label) (p'.libraries.get? label)

/-- Facts under which analyses with the same dependencies come to related results. Related analyses
look the same to a dependent. -/
structure Facts.Matches (rel : AnalyzedLibrary → AnalyzedLibrary → Prop) (f f' : Facts) :
    Prop where
  hidden : ∀ {l l' : AnalyzedLibrary}, rel l l' → l.asDependency = l'.asDependency
  analyze : ∀ (t : Library) (dependencies : List Dependency),
    Alike rel (t.analyze dependencies f) (t.analyze dependencies f')

section

variable {rel : AnalyzedLibrary → AnalyzedLibrary → Prop} {g : TargetGraph} {s s' : Setting}
  {groups groups' : List (List Library)} {outcomes outcomes' : Label → Outcome}
  {results results' : Results} {p p' : WorkspacePlan}

theorem TargetGraph.exists_planFor (acyclic : g.Acyclic) (s : Setting) (parallel : Bool) :
    ∃ p groups outcomes, g.planFor s parallel = .ok p ∧ g.Schedule groups ∧
      g.Solution (s.judge .empty) outcomes ∧
      p.Holds g s fun label => (outcomes label).result := by
  obtain ⟨groups, ordered, schedule⟩ := (g.acyclic_iff parallel).mp acyclic
  obtain ⟨outcomes, solution⟩ := schedule.exists_solution (s.judge .empty)
  have idle : (Run.start g s groups).tasks = [].map Task.ofEntry := rfl
  obtain ⟨r, steps, finished, known⟩ := Run.steps_run idle rfl .empty
  obtain ⟨graph, setting, groupCount⟩ := steps.static
  have holds := (Run.steps_keep schedule solution steps).1.holds finished
  rw [graph, setting] at holds
  refine ⟨r.plan, groups, outcomes, ?_, schedule, solution, holds⟩
  rw [planFor, ordered, Run.plan, graph, setting, groupCount, known]
  rfl

/-- What a library is given does not tell related results of its dependencies apart. -/
theorem Facts.Matches.supplies_eq {f f' : Facts} (same : f.Matches rel f') {t : Library}
    (alike : ∀ u ∈ g.libraries, t.Needs u → Alike rel (results u.label) (results' u.label)) :
    g.supplies results t = g.supplies results' t := by
  refine mapM_congr_of_mem fun dep mem => ?_
  unfold supply
  split
  · next u found =>
    obtain ⟨declared, rfl⟩ := get?_declarations_library.mp found
    rcases (alike u declared mem).cases with ⟨l, l', ok, ok', related⟩ | ⟨error, failed, failed'⟩
    · simp only [ok, ok', same.hidden related]
    · simp only [failed, failed']
  · rfl
  · rfl

/-- By induction along the schedule: a library is given the same dependencies in both runs. -/
theorem Facts.Matches.results_alike (same : s.facts.Matches rel s'.facts)
    (writer : s'.writer = s.writer) (schedule : g.Schedule groups) (solution : g.Solution (s.judge .empty) outcomes)
    (solution' : g.Solution (s'.judge .empty) outcomes') :
    ∀ t ∈ g.libraries, Alike rel (outcomes t.label).result (outcomes' t.label).result := by
  refine schedule.induct fun t member below => ?_
  have supplied : g.supplies (fun label => (outcomes label).result) t =
      g.supplies (fun label => (outcomes' label).result) t := same.supplies_eq below
  rw [solution t member, solution' t member, Setting.result_judge_empty,
    Setting.result_judge_empty, ← supplied]
  cases g.supplies (fun label => (outcomes label).result) t with
  | error error => exact .error (Failure.planning error)
  | ok dependencies =>
    simp only [Setting.verdict, writer]
    cases s.writer.fault? t dependencies with
    | some fault => exact .error (Failure.cache fault)
    | none =>
      rcases (same.analyze t dependencies).cases with
        ⟨l, l', ok, ok', related⟩ | ⟨error, failed, failed'⟩
      · rw [ok, ok']
        exact .ok related
      · rw [failed, failed']
        exact .error (Failure.planning error)

theorem WorkspacePlan.Holds.alike (holds : p.Holds g s results) (holds' : p'.Holds g s' results')
    (alike : ∀ t ∈ g.libraries, ObjcPlan.Alike rel (results t.label) (results' t.label)) :
    p.Alike rel p' := by
  constructor
  · refine SortedMap.ext_get? fun label => Option.ext fun error => ?_
    rw [holds.failures, holds'.failures]
    refine and_congr_right ?_
    rintro ⟨t, member, rfl⟩
    rcases (alike t member).cases with ⟨l, l', ok, ok', _⟩ | ⟨error', failed, failed'⟩
    · simp [ok, ok']
    · rw [failed, failed']
  · intro label
    cases found : p.libraries.get? label with
    | some l =>
      obtain ⟨⟨t, member, rfl⟩, planned⟩ := (holds.libraries label l).mp found
      rcases (alike t member).cases with ⟨_, l', ok, ok', related⟩ | ⟨_, failed, _⟩
      · obtain rfl := Except.ok.inj (planned.symm.trans ok)
        rw [(holds'.libraries _ l').mpr ⟨⟨t, member, rfl⟩, ok'⟩]
        exact .some related
      · simp [failed] at planned
    | none =>
      cases found' : p'.libraries.get? label with
      | none => exact .none
      | some l' =>
        obtain ⟨⟨t, member, rfl⟩, planned⟩ := (holds'.libraries label l').mp found'
        rcases (alike t member).cases with ⟨l, _, ok, _, _⟩ | ⟨_, _, failed⟩
        · simp [(holds.libraries _ l).mpr ⟨⟨t, member, rfl⟩, ok⟩] at found
        · simp [failed] at planned

/-- Matching facts make whole plans alike, whether the libraries are analyzed in groups or not. -/
theorem Facts.Matches.plans_alike (same : s.facts.Matches rel s'.facts)
    (writer : s'.writer = s.writer) (acyclic : g.Acyclic) {parallel parallel' : Bool} (planned : g.planFor s parallel = .ok p)
    (planned' : g.planFor s' parallel' = .ok p') : p.Alike rel p' := by
  obtain ⟨_, groups, outcomes, made, schedule, solution, holds⟩ :=
    exists_planFor acyclic s parallel
  obtain ⟨_, _, outcomes', made', _, solution', holds'⟩ := exists_planFor acyclic s' parallel'
  obtain rfl := Except.ok.inj (made.symm.trans planned)
  obtain rfl := Except.ok.inj (made'.symm.trans planned')
  exact holds.alike holds' (same.results_alike writer schedule solution solution')

end

/-! ### Analyses that differ in their compilations -/

/-- Analyses that differ in their compilations only, and there in a way that may depend on the
module map of the library. -/
structure AnalyzedLibrary.Differ (differ : ModuleMap → CompileEntry → CompileEntry → Prop)
    (l l' : AnalyzedLibrary) : Prop where
  rest : l' = { l with compiles := l'.compiles }
  compiles : List.Forall₂ (differ l.moduleMap) l.compiles l'.compiles

theorem Compilation.forall₂_plan {differ : CompileEntry → CompileEntry → Prop}
    {c c' : Compilation} (library : c'.library = c.library)
    (binDir : c'.facts.binDir = c.facts.binDir)
    (entry : ∀ file arc language object,
      differ (c.entry file arc language object) (c'.entry file arc language object)) :
    List.Forall₂ differ c.plan c'.plan := by
  unfold plan
  rw [library, binDir]
  refine List.rel_filterMap (R := Eq) ?_ (List.forall₂_refl _)
  rintro ⟨source, object⟩ _ rfl
  simp only
  cases (FileKind.ofPath source.file).language? with
  | none => exact .none
  | some language => exact .some (entry source.file source.arc language object)

/-- Only the objects of the compilations matter to the archive. -/
theorem Archive.plan?_congr {t : Library} {compiles compiles' : List CompileEntry} {f : Facts}
    (objects : compiles'.map CompileEntry.object = compiles.map CompileEntry.object) :
    plan? t compiles' f = plan? t compiles f := by
  simp only [plan?, objects]

theorem Library.analyze_of_check {t : Library} {f : Facts} {warnings : List Diagnostic}
    (checked : Validation.check ⟨f.disableResources⟩ t = .ok warnings)
    (dependencies : List Dependency) :
    ∃ l, t.analyze dependencies f = .ok l ∧ l.warnings = warnings := by
  unfold analyze
  rw [checked]
  exact ⟨_, rfl, rfl⟩

/-- Facts that differ at most in the two switches. -/
def Facts.AgreeButSwitches (f f' : Facts) : Prop :=
  f' = { f with
    useDotdPruning := f'.useDotdPruning
    enableModuleMaps := f'.enableModuleMaps }

/-- The switches matter to the compilations only. -/
theorem Library.analyze_alike {f f' : Facts} (agree : f.AgreeButSwitches f')
    {differ : ModuleMap → CompileEntry → CompileEntry → Prop} {t : Library}
    (entry : ∀ providers file arc language object,
      differ (.generate t f.genfilesDir)
        ((t.compilation providers f).entry file arc language object)
        ((t.compilation providers f').entry file arc language object))
    (dependencies : List Dependency) :
    Alike (AnalyzedLibrary.Differ differ) (t.analyze dependencies f)
      (t.analyze dependencies f') := by
  obtain ⟨pruning, maps, rfl⟩ : ∃ pruning maps,
    f' = { f with useDotdPruning := pruning, enableModuleMaps := maps } := ⟨_, _, agree⟩
  cases checked : Validation.check ⟨f.disableResources⟩ t with
  | error error =>
    unfold analyze
    rw [checked]
    exact .error error
  | ok warnings =>
    obtain ⟨l, ok, rfl⟩ := t.analyze_of_check checked dependencies
    obtain ⟨l', ok', sameWarnings⟩ := t.analyze_of_check checked dependencies
      (f := { f with useDotdPruning := pruning, enableModuleMaps := maps })
    rw [ok, ok']
    have planned := plannedFor_of_analyze ok
    have planned' := plannedFor_of_analyze ok'
    have providers : l'.providers = l.providers :=
      (providers_of_analyze ok').trans (providers_of_analyze ok).symm
    have compiles : l'.compiles.map CompileEntry.object = l.compiles.map CompileEntry.object := by
      rw [planned'.compiles, planned.compiles, Compilation.objects_plan, Compilation.objects_plan]
      rfl
    have archive : l'.archive = l.archive :=
      planned'.archive.trans ((Archive.plan?_congr compiles).trans planned.archive.symm)
    have fullyLinked : l'.fullyLinked = l.fullyLinked := by
      rw [planned'.fullyLinked, planned.fullyLinked, providers]
      rfl
    refine .ok ⟨?_, ?_⟩
    · cases l'
      simp only [AnalyzedLibrary.mk.injEq, true_and]
      exact ⟨planned'.label.trans planned.label.symm, providers,
        planned'.moduleMap.trans planned.moduleMap.symm, archive, fullyLinked, sameWarnings⟩
    · rw [planned'.compiles, planned.compiles, planned.moduleMap, providers]
      exact Compilation.forall₂_plan rfl rfl (entry l.providers)

/-- Facts that agree but for the switches match as far as their compilations do. -/
theorem Facts.AgreeButSwitches.matches {f f' : Facts} (agree : f.AgreeButSwitches f')
    {differ : ModuleMap → CompileEntry → CompileEntry → Prop}
    (entry : ∀ (t : Library) providers file arc language object,
      differ (.generate t f.genfilesDir)
        ((t.compilation providers f).entry file arc language object)
        ((t.compilation providers f').entry file arc language object)) :
    f.Matches (AnalyzedLibrary.Differ differ) f' where
  hidden differs := by
    rw [differs.rest]
    rfl
  analyze t := t.analyze_alike agree (entry t)

/-! ### What the switches do to a compilation -/

/-- Another way to discover the inputs of a compilation. -/
def CompileEntry.Rediscovered (discovery : Discovery) (_ : ModuleMap) (e e' : CompileEntry) :
    Prop :=
  e' = { e with discovery }

/-- A compilation that uses a module map as well: the options for the map are put in between the
arguments, and inputs may come after those that are there. -/
structure CompileEntry.Mapped (m : ModuleMap) (e e' : CompileEntry) : Prop where
  rest : e' = { e with
    action := { e.action with
      arguments := e'.action.arguments
      inputs := e'.action.inputs } }
  arguments : ∃ before after, e.action.arguments = before ++ after ∧
    e'.action.arguments = before ++ m.compileFlags ++ after
  inputs : e.action.inputs.toList <+: e'.action.inputs.toList

/-- The arguments that come after those about module maps. -/
def Compilation.laterArguments (c : Compilation) (source : Path) (language : Language) (arc : Bool)
    (object depFile : Path) : List String :=
  c.facts.coverage.toList.flatMap CoverageMode.compileFlags ++
    c.facts.bitcode.compileFlag?.toList ++
    c.userArguments ++
    (if language.usesArc then [if arc then "-fobjc-arc" else "-fno-objc-arc"] else []) ++
    ["-c", source.text, "-o", object.text, "-MD", "-MF", depFile.text]

theorem Compilation.arguments_eq (c : Compilation) (source : Path) (language : Language)
    (arc : Bool) (object depFile : Path) :
    c.arguments source language arc object depFile =
      (Profile.baseFlags c.facts language ++ c.searchArguments) ++ c.moduleArguments ++
        c.laterArguments source language arc object depFile := by
  simp only [arguments, laterArguments, List.append_assoc]

theorem Library.moduleArguments_compilation (t : Library) (providers : ProviderSet) (f : Facts) :
    (t.compilation providers f).moduleArguments =
      if f.enableModuleMaps then (ModuleMap.generate t f.genfilesDir).compileFlags else [] := by
  cases enabled : f.enableModuleMaps <;>
    simp [Compilation.moduleArguments, compilation, enabled]

theorem OrderedSet.toList_ofList_prefix {α : Type} [Identity α] (front back : List α) :
    (OrderedSet.ofList front).toList <+: (OrderedSet.ofList (front ++ back)).toList := by
  rw [toList_ofList, toList_ofList, Identity.fresh_append]
  exact List.prefix_append _ _

theorem Facts.matches_pruned (f : Facts) (enabled : Bool) :
    f.Matches (AnalyzedLibrary.Differ (CompileEntry.Rediscovered ⟨enabled⟩))
      { f with useDotdPruning := enabled } := by
  have agree : f.AgreeButSwitches { f with useDotdPruning := enabled } := rfl
  exact agree.matches fun _ _ _ _ _ _ => rfl

theorem Facts.matches_mapped {f : Facts} (disabled : f.enableModuleMaps = false) :
    f.Matches (AnalyzedLibrary.Differ CompileEntry.Mapped) { f with enableModuleMaps := true } := by
  have agree : f.AgreeButSwitches { f with enableModuleMaps := true } := rfl
  refine agree.matches fun t providers file arc language object => ⟨rfl, ?_, ?_⟩
  · refine ⟨Profile.baseFlags f language ++ (t.compilation providers f).searchArguments,
      (t.compilation providers f).laterArguments (t.label.execPath file) language arc object
        (object.withExtension "d"), ?_, ?_⟩
    · refine (Compilation.arguments_eq ..).trans ?_
      rw [t.moduleArguments_compilation, disabled]
      simp [Library.compilation]
    · refine (Compilation.arguments_eq ..).trans ?_
      rw [t.moduleArguments_compilation]
      rfl
  · show (OrderedSet.ofList ((_ : List Path) ++ if f.enableModuleMaps then _ else [])).toList <+:
      (OrderedSet.ofList ((_ : List Path) ++ _)).toList
    rw [disabled, if_neg Bool.false_ne_true, List.append_nil]
    exact OrderedSet.toList_ofList_prefix ..

/-- A graph without cycles is planned under two configurations, with declarations that are written
in the same way. If the configurations differ only in whether inputs are pruned by dependency files,
the plans differ only in how the inputs of compilations are discovered. If they differ only in that
the second one enables module maps, the plans differ only in that its compilations have the options
for the module map of their library among their arguments, and further inputs after the ones they
have. Failures are the same, with their errors, in either case. -/
theorem TargetGraph.switches_contained (g : TargetGraph) (acyclic : g.Acyclic) (s s' : Setting)
    (writer : s'.writer = s.writer) (parallel parallel' : Bool) :
    ∃ p p', g.planFor s parallel = .ok p ∧ g.planFor s' parallel' = .ok p' ∧
      (s'.facts = { s.facts with useDotdPruning := s'.facts.useDotdPruning } →
        p.Alike (AnalyzedLibrary.Differ
          (CompileEntry.Rediscovered ⟨s'.facts.useDotdPruning⟩)) p') ∧
      (s.facts.enableModuleMaps = false → s'.facts = { s.facts with enableModuleMaps := true } →
        p.Alike (AnalyzedLibrary.Differ CompileEntry.Mapped) p') := by
  obtain ⟨p, _, _, planned, _⟩ := exists_planFor acyclic s parallel
  obtain ⟨p', _, _, planned', _⟩ := exists_planFor acyclic s' parallel'
  refine ⟨p, p', planned, planned', fun pruned => ?_, fun disabled mapped => ?_⟩
  · have same := s.facts.matches_pruned s'.facts.useDotdPruning
    rw [← pruned] at same
    exact same.plans_alike writer acyclic planned planned'
  · have same := s.facts.matches_mapped disabled
    rw [← mapped] at same
    exact same.plans_alike writer acyclic planned planned'

/-- The switches of options are those of their facts. -/
theorem Facts.resolve_switched (o : Options) (toolchain : Toolchain) (pruning maps : Bool) :
    resolve { o with useDotdPruning := pruning, enableModuleMaps := maps } toolchain =
      (resolve o toolchain).map fun f =>
        { f with useDotdPruning := pruning, enableModuleMaps := maps } := by
  let switched : Options := { o with useDotdPruning := pruning, enableModuleMaps := maps }
  have validate : switched.validate = o.validate := rfl
  have target : switched.target = o.target := rfl
  unfold resolve
  rw [validate, target]
  cases o.validate with
  | error error => rfl
  | ok _ =>
    cases o.target with
    | error error => rfl
    | ok target =>
      have sdkVersion : switched.sdkVersionFor target.1 = o.sdkVersionFor target.1 := rfl
      simp only [bind, Except.bind, switched, sdkVersion]
      cases o.xcodeVersion.mapM normalizeXcodeVersion with
      | error error => rfl
      | ok version =>
        simp only
        cases systemFrameworks (Platform.ofArch target.1 target.2) (o.sdkVersionFor target.1)
          (toolchain.sdkRoot (Platform.ofArch target.1 target.2)) <;> rfl

/-- Both switches, turned on one at a time for a library with a dependency. -/
theorem TargetGraph.switches_contained_neighbors :
    Neighbors.graph.Acyclic ∧ ∃ p p' p'' : WorkspacePlan,
      (Neighbors.graph.plan {} (.xcode Toolchain.defaultRoot) true .empty).1 = .ok p ∧
        (Neighbors.graph.plan { useDotdPruning := true } (.xcode Toolchain.defaultRoot) false
          .empty).1 = .ok p' ∧
        (Neighbors.graph.plan { enableModuleMaps := true } (.xcode Toolchain.defaultRoot) true
          .empty).1 = .ok p'' ∧
        p.Alike (AnalyzedLibrary.Differ (CompileEntry.Rediscovered ⟨true⟩)) p' ∧
        p.Alike (AnalyzedLibrary.Differ CompileEntry.Mapped) p'' := by
  have acyclic : Neighbors.graph.Acyclic := acyclic_of_isOk true (by decide +kernel)
  let toolchain := Toolchain.xcode Toolchain.defaultRoot
  have resolved : (Facts.resolve {} toolchain).isOk = true := by decide +kernel
  cases found : Facts.resolve {} toolchain with
  | error error => simp [found] at resolved
  | ok f =>
    let switched (pruning maps : Bool) : Facts :=
      { f with useDotdPruning := pruning, enableModuleMaps := maps }
    let s (pruning maps : Bool) : Setting :=
      ⟨switched pruning maps, .ofFacts (switched pruning maps) toolchain.identity, .unicode⟩
    have plan_eq (pruning maps parallel : Bool) :
        (Neighbors.graph.plan { useDotdPruning := pruning, enableModuleMaps := maps } toolchain
          parallel .empty).1 = Neighbors.graph.planFor (s pruning maps) parallel := by
      have resolved := Facts.resolve_switched {} toolchain pruning maps
      rw [TargetGraph.plan_eq, Setting.resolve, resolved, found]
      rfl
    obtain ⟨p, p', planned, planned', pruned, _⟩ := TargetGraph.switches_contained
      Neighbors.graph acyclic (s false false) (s true false) rfl true false
    obtain ⟨q, p'', again, planned'', _, mapped⟩ := TargetGraph.switches_contained
      Neighbors.graph acyclic (s false false) (s false true) rfl true true
    obtain rfl := Except.ok.inj (planned.symm.trans again)
    exact ⟨acyclic, p, p', p'', (plan_eq false false true).trans planned,
      (plan_eq true false false).trans planned', (plan_eq false true true).trans planned'',
      pruned rfl, mapped rfl rfl⟩

end ObjcPlan
