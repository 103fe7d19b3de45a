import ObjcPlan.Proofs.Traversal

/-! What the libraries of a plan offer to their dependents. An analysis merges sets that are merged
already. Under every key this comes to the own values of all that a library reaches, listed along
one traversal and each kept where it first occurs (`TargetGraph.plan_inherits`). -/

namespace ObjcPlan

open Identity TargetGraph

theorem ProviderSet.listing_eq (own : ProviderSet) (dependencies : List Dependency)
    (key : ProviderKey) : own.listing dependencies key =
      key.order.arrange (own.get key).toList (dependencies.flatMap (·.contribution key)) := by
  unfold listing
  cases key.order <;> rfl

/-- What a library contributes by itself. -/
def Library.ownProviders (t : Library) (facts : Facts) : ProviderSet :=
  t.contribution (if t.hasObjects then some (Archive.path t.label facts) else none)
    (ModuleMap.generate t facts.genfilesDir) facts

theorem Library.providers_of_analyze {t : Library} {dependencies : List Dependency} {facts : Facts}
    {library : AnalyzedLibrary} (h : t.analyze dependencies facts = .ok library) :
    library.providers = (t.ownProviders facts).merge dependencies := by
  unfold analyze at h
  cases checked : Validation.check ⟨facts.disableResources⟩ t with
  | error error =>
    rw [checked] at h
    contradiction
  | ok warnings =>
    rw [checked] at h
    obtain rfl := Except.ok.inj h
    rfl

/-- The values that a target contributes by itself under a key. -/
def Declaration.own (facts : Facts) (key : ProviderKey) : Declaration → List key.Value
  | library t => ((t.ownProviders facts).get key).toList
  | foreign info => info.contribution key

namespace TargetGraph

variable {g : TargetGraph} {s : Setting} {outcomes : Label → Outcome} {results : Results}
  {key : ProviderKey} {t : Library}

/-- The values that the dependents of a target take over, where `results` tells what the libraries
come to. -/
def offer (g : TargetGraph) (results : Results) (key : ProviderKey) (label : Label) :
    List key.Value :=
  match g.declarations.get? label with
  | some (.library _) =>
    match results label with
    | .ok library => (library.providers.get key).toList
    | .error _ => []
  | some (.foreign info) => info.contribution key
  | none => []

theorem offer_library {library : AnalyzedLibrary} (member : t ∈ g.libraries)
    (result : results t.label = .ok library) :
    g.offer results key t.label = (library.providers.get key).toList := by
  simp only [offer, get?_declarations_library.mpr ⟨member, rfl⟩, result]

theorem contribution_of_supply {target dep : Label} {dependency : Dependency}
    (had : g.supply results target dep = .ok dependency) :
    dependency.contribution key = g.offer results key dep := by
  unfold supply at had
  unfold offer
  cases declared : g.declarations.get? dep with
  | none =>
    rw [declared] at had
    contradiction
  | some d =>
    rw [declared] at had
    cases d with
    | library u =>
      cases result : results dep with
      | error error =>
        simp only [result] at had
        contradiction
      | ok library =>
        simp only [result] at had ⊢
        obtain rfl := Except.ok.inj had
        rfl
    | foreign info =>
      obtain rfl := Except.ok.inj had
      rfl

theorem Solution.providers_eq (solution : g.Solution (s.judge .empty) outcomes)
    (member : t ∈ g.libraries) {library : AnalyzedLibrary}
    (planned : (outcomes t.label).result = .ok library) (key : ProviderKey) :
    library.providers.get key = .ofList (key.order.arrange
      (Declaration.own s.facts key (.library t))
      (t.deps.flatMap (g.offer (fun label => (outcomes label).result) key))) := by
  rw [solution t member, Setting.result_judge_empty] at planned
  obtain ⟨dependencies, had, _, analyzed⟩ := Setting.verdict_eq_ok_iff.mp planned
  have contributions : dependencies.map (·.contribution key) =
      t.deps.map (g.offer (fun label => (outcomes label).result) key) :=
    map_of_mapM contribution_of_supply had
  rw [Library.providers_of_analyze analyzed, ProviderSet.merge, ProviderSet.get_ofFn,
    ProviderSet.listing_eq, List.flatMap_def, contributions, ← List.flatMap_def]
  rfl

/-- Below a planned library, every target offers what its own values and its dependencies come
to. -/
theorem Solution.merged {groups : List (List Library)} (schedule : g.Schedule groups)
    (solution : g.Solution (s.judge .empty) outcomes) (member : t ∈ g.libraries)
    (isOk : (outcomes t.label).result.isOk = true) (key : ProviderKey) :
    g.Merged key.order (Declaration.own s.facts key)
      (g.offer (fun label => (outcomes label).result) key) [t.label] := by
  rintro d declared ⟨_, start, reaches⟩ seen
  obtain rfl := List.mem_singleton.mp start
  have found := get?_declarations_iff.mpr ⟨declared, rfl⟩
  cases d with
  | library u =>
    have member' := (get?_declarations_library.mp found).1
    have isOk' := solution.isOk_of_reaches schedule member isOk member' reaches
    cases planned : (outcomes u.label).result with
    | error error =>
      rw [planned] at isOk'
      contradiction
    | ok library =>
      rw [Declaration.label, offer_library member' planned, solution.providers_eq member' planned,
        OrderedSet.toList_ofList]
      exact fresh_fresh (List.nil_subset _) _
  | foreign info =>
    have offered : g.offer (fun label => (outcomes label).result) key info.label =
        info.contribution key := by
      unfold offer
      rw [Declaration.label] at found
      simp only [found]
    rw [Declaration.label, offered]
    cases key.order <;> simp [MergeOrder.arrange, Declaration.own, Declaration.deps]

theorem Solution.values_eq {groups : List (List Library)} (schedule : g.Schedule groups)
    (solution : g.Solution (s.judge .empty) outcomes) (member : t ∈ g.libraries)
    {library : AnalyzedLibrary} (result : (outcomes t.label).result = .ok library)
    (key : ProviderKey) : library.providers.get key =
      .ofList ((g.traversal key.order t.label).flatMap (Declaration.own s.facts key)) := by
  have isOk : (outcomes t.label).result.isOk = true := by
    rw [result]
    rfl
  have sound := ((solution.isOk_iff schedule t member).mp isOk).1
  apply OrderedSet.ext
  rw [OrderedSet.toList_ofList, fresh_traversal schedule.acyclic sound.declared
      (solution.merged schedule member isOk key), offer_library member result,
    ← OrderedSet.toList_ofList, OrderedSet.ofList_toList]

/-- How the targets are visited for a key: those of which a linker or a compiler takes the first are
met before what is below them, and all others after it. -/
def visits (key : ProviderKey) : MergeOrder :=
  if key ∈ [.library, .ccLibrary, .define, .includePath, .copt] then .link else .build

theorem order_eq_visits (key : ProviderKey) : key.order = visits key := by
  cases key <;> rfl

/-- The own values of the targets that are reached from a label, one target after the other. -/
def contributions (g : TargetGraph) (facts : Facts) (key : ProviderKey) (label : Label) :
    List key.Value :=
  (g.traversal (visits key) label).flatMap (Declaration.own facts key)

/-- The sets that a planned library holds are its own values and those of all that it reaches, each
where a depth-first traversal along the dependencies first comes to it: a target before what is
below it under the keys in link order, and after it under the others. A foreign library has values
of its own under four keys. The traversal lists every target that the library reaches, once, so no
value of such a target is lost, and none is repeated; the spelling that is kept is the first. -/
theorem plan_inherits (g : TargetGraph) (o : Options) (toolchain : Toolchain) (parallel : Bool)
    {p : WorkspacePlan} (planned : (g.plan o toolchain parallel .empty).1 = .ok p) {label : Label}
    {library : AnalyzedLibrary} (found : p.libraries.get? label = some library)
    (key : ProviderKey) :
    Facts.resolve o toolchain = .ok p.facts ∧
      library.providers.get key = .ofList (g.contributions p.facts key label) ∧
      (∀ t, Declaration.own p.facts key (.library t) =
        ((t.ownProviders p.facts).get key).toList) ∧
      (∀ info, Declaration.own p.facts .header (.foreign info) = info.headers ∧
        Declaration.own p.facts .ccLibrary (.foreign info) = info.libraries ∧
        Declaration.own p.facts .define (.foreign info) = info.defines ∧
        Declaration.own p.facts .includePath (.foreign info) =
          info.quoteIncludes.map .quote ++ info.systemIncludes.map .system ∧
        (key ∉ [.header, .ccLibrary, .define, .includePath] →
          Declaration.own p.facts key (.foreign info) = [])) ∧
      ((g.traversal (visits key) label).map Declaration.label).Nodup ∧
      (∀ d, d ∈ g.traversal (visits key) label ↔
        d ∈ g.declarations.values ∧ g.Reaches label d.label) ∧
      (∀ reached, g.Reaches label reached →
        ∃ d ∈ g.traversal (visits key) label, d.label = reached) ∧
      (∀ d ∈ g.declarations.values, g.Reaches label d.label → ∀ value ∈ d.own p.facts key,
        (library.providers.get key).contains value = true) ∧
      (library.providers.get key).toList.Sublist (g.contributions p.facts key label) ∧
      (∀ value ∈ (library.providers.get key).toList, (g.contributions p.facts key label).find?
        (Identity.key · = Identity.key value) = some value) ∧
      (library.providers.get key).toList.Pairwise fun a b => Identity.key a ≠ Identity.key b := by
  obtain ⟨s, groups, outcomes, resolved, schedule, solution, tells⟩ :=
    Call.tells_of_plan (c := ⟨g, o, toolchain, parallel⟩) planned
  obtain ⟨⟨t, member, rfl⟩, result⟩ := (tells.libraries label library).mp found
  rw [tells.facts]
  have sound := ((solution.isOk_iff schedule t member).mp (by rw [result]; rfl)).1
  have holds : library.providers.get key = .ofList (g.contributions s.facts key t.label) := by
    rw [contributions, ← order_eq_visits]
    exact solution.values_eq schedule member result key
  have kept := congrArg OrderedSet.toList holds
  rw [OrderedSet.toList_ofList] at kept
  refine ⟨Setting.facts_of_resolve resolved, holds, fun _ => rfl,
    fun _ => ⟨rfl, rfl, rfl, rfl, ?_⟩, g.nodup_traversal _ _, fun d => mem_traversal_iff,
    fun reached reaches => ?_, fun d declared reaches value mem => ?_, ?_, fun value mem => ?_,
    (library.providers.get key).distinct⟩
  · intro other
    cases key <;> simp at other <;> rfl
  · obtain ⟨d, declared⟩ := Option.isSome_iff_exists.mp (sound.declared reached reaches)
    obtain ⟨mem, rfl⟩ := get?_declarations_iff.mp declared
    exact ⟨d, mem_traversal_iff.mpr ⟨mem, reaches⟩, rfl⟩
  · rw [holds]
    exact OrderedSet.contains_ofList_of_mem
      (List.mem_flatMap.mpr ⟨d, mem_traversal_iff.mpr ⟨declared, reaches⟩, mem⟩)
  · rw [kept]
    exact fresh_sublist [] _
  · rw [kept] at mem
    exact find?_of_mem_fresh mem

end TargetGraph

namespace Shared

def zlib : ForeignLibrary where
  label := ⟨"zlib", "zlib", by decide, by decide⟩
  libraries := ["zlib/libz.a"]
  headers := ["zlib/zlib.h"]
  defines := ["ZLIB=1", "CONST", "ZLIB=1"]
  quoteIncludes := ["zlib"]
  systemIncludes := ["zlib/include", "zlib/./include"]

def core : Library where
  label := ⟨"core", "core", by decide, by decide⟩
  hdrs := ["core.h"]
  copts := ["-Wshadow"]
  deps := [zlib.label]

def ui : Library where
  label := ⟨"ui", "ui", by decide, by decide⟩
  hdrs := ["ui.h"]
  copts := ["-Wall", "-O2"]
  deps := [zlib.label, core.label]

def viewer : Library where
  label := ⟨"viewer", "viewer", by decide, by decide⟩
  hdrs := ["viewer.h", "./viewer.h"]
  copts := ["-Wall"]
  deps := [ui.label, core.label]

/-- Both dependencies of `viewer` depend on `zlib`, and one of them on the other. -/
def graph : TargetGraph where
  declarations := ⟨[(core.label, .library core), (ui.label, .library ui),
    (viewer.label, .library viewer), (zlib.label, .foreign zlib)], by decide⟩
  keyed := by decide

theorem declarations_graph : graph.declarations.values =
    [.library core, .library ui, .library viewer, .foreign zlib] := rfl

example : (graph.traversal .link viewer.label).map Declaration.label =
    [viewer.label, ui.label, zlib.label, core.label] := by
  rw [traversal, declarations_graph]
  cbv

theorem sound {groups : List (List Library)} (schedule : graph.Schedule groups)
    (policy : Validation.Policy) : graph.Sound policy viewer := by
  refine schedule.induct (fun t member below => (sound_iff member).mpr ⟨?_, ?_, below⟩) viewer
    (by decide)
  · have passed : ∀ t ∈ graph.libraries, (Validation.check policy t).isOk = true := by
      obtain ⟨_ | _⟩ := policy <;> decide
    cases checked : Validation.check policy t with
    | error error => simpa [checked] using passed t member
    | ok warnings => exact ⟨warnings, rfl⟩
  · have declared : ∀ t ∈ graph.libraries, ∀ dep ∈ t.deps, graph.contains dep = true := by decide
    exact declared t member

end Shared

/-- The header that `viewer` declares in two spellings is there once, after those of all that it
reaches. Its own options come before those of the libraries below it, and the foreign library has
definitions and directories to search. -/
theorem TargetGraph.plan_inherits_shared :
    ∃ p library, (Shared.graph.plan {} (.xcode Toolchain.defaultRoot) true .empty).1 = .ok p ∧
      p.libraries.get? Shared.viewer.label = some library ∧
      library.providers.values .header =
        ["zlib/zlib.h", "core/core.h", "ui/ui.h", "viewer/viewer.h"] ∧
      library.providers.values .ccLibrary = ["zlib/libz.a"] ∧
      library.providers.values .copt = ["-Wall", "-Wall", "-O2", "-Wshadow"] ∧
      library.providers.values .define = ["ZLIB=1", "CONST"] ∧
      library.providers.values .includePath = ["-iquote zlib", "-isystem zlib/include"] := by
  let c : Call := ⟨Shared.graph, {}, .xcode Toolchain.defaultRoot, true⟩
  obtain ⟨p, planned⟩ := c.exists_plan .empty (by decide) (by decide +kernel)
  obtain ⟨s, groups, outcomes, resolved, schedule, solution, tells⟩ := Call.tells_of_plan planned
  have member : Shared.viewer ∈ Shared.graph.libraries := by decide
  have written : Shared.graph.WrittenBelow s.writer Shared.viewer := by
    rw [Setting.writer_of_resolve resolved]
    exact writtenBelow_unicode _ _
  have isOk := (solution.isOk_iff schedule Shared.viewer member).mpr
    ⟨Shared.sound schedule _, written⟩
  cases result : (outcomes Shared.viewer.label).result with
  | error error => simp [result] at isOk
  | ok library =>
    have found := (tells.libraries Shared.viewer.label library).mpr ⟨⟨_, member, rfl⟩, result⟩
    have post : Shared.graph.traversal .build Shared.viewer.label = [.foreign Shared.zlib,
        .library Shared.core, .library Shared.ui, .library Shared.viewer] := by
      rw [traversal, Shared.declarations_graph]
      cbv
    have pre : Shared.graph.traversal .link Shared.viewer.label = [.library Shared.viewer,
        .library Shared.ui, .foreign Shared.zlib, .library Shared.core] := by
      rw [traversal, Shared.declarations_graph]
      cbv
    have values (key : ProviderKey) : library.providers.values key =
        (OrderedSet.ofList (Shared.graph.contributions p.facts key
          Shared.viewer.label)).toList.flatMap key.render := by
      obtain ⟨_, holds, _⟩ := TargetGraph.plan_inherits Shared.graph {}
        (.xcode Toolchain.defaultRoot) true planned found key
      rw [ProviderSet.values, holds]
    refine ⟨p, library, planned, found, ?_, ?_, ?_, ?_, ?_⟩
    · rw [values, contributions, show visits .header = .build from rfl, post]
      rfl
    · rw [values, contributions, show visits .ccLibrary = .link from rfl, pre]
      rfl
    · rw [values, contributions, show visits .copt = .link from rfl, pre]
      rfl
    · rw [values, contributions, show visits .define = .link from rfl, pre]
      rfl
    · rw [values, contributions, show visits .includePath = .link from rfl, pre]
      rfl

end ObjcPlan
