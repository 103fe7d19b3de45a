import ObjcPlan.Proofs.Analyses

/-! What a library links. Its own archive and those of all libraries below it are one ordered set,
which the fully linked archive takes over as it stands; the archives of foreign libraries are kept
apart from it (`TargetGraph.plan_links`). -/

namespace ObjcPlan

open Identity TargetGraph

theorem Declaration.own_library (facts : Facts) (t : Library) :
    (library t).own facts .library = (t.archive? facts).toList := by
  show (OrderedSet.ofList (t.archive? facts).toList).toList = _
  rw [OrderedSet.toList_ofList]
  cases t.archive? facts <;> rfl

theorem Library.archive?_eq_some_iff {t : Library} {facts : Facts} {path : Path} :
    t.archive? facts = some path ↔ t.hasObjects = true ∧ path = Archive.path t.label facts := by
  unfold archive?
  split
  · next hasObjects => simp [hasObjects, eq_comm]
  · next noObjects => simp [noObjects]

/-- The fully linked archive takes what the library offers, if that starts with its own archive. -/
theorem Archive.inputs_eq {own : Option Path} {providers : ProviderSet}
    (first : ∀ path, own = some path → providers.library.toList.head? = some path) :
    OrderedSet.ofList (own.toList ++ providers.library.toList) = providers.library := by
  cases own with
  | none => exact OrderedSet.ofList_toList _
  | some path => exact OrderedSet.ofList_cons_of_head? (first path rfl)

namespace TargetGraph

variable {g : TargetGraph} {p : WorkspacePlan} {label : Label} {library : AnalyzedLibrary}

/-- Under a link order, a target comes before what is below it. -/
theorem traversal_link {d : Declaration} (found : g.declarations.get? label = some d) :
    ∃ below, g.traversal .link label = d :: below := by
  obtain ⟨declared, same⟩ := get?_declarations_iff.mp found
  rw [traversal, walk]
  split
  · next absent => exact absurd same (ne_of_find? absent d declared)
  · next d' found' =>
    obtain ⟨declared', same'⟩ := find?_label found'
    obtain rfl := declaration_eq_of_label_eq declared' declared (same'.trans same.symm)
    exact ⟨_, rfl⟩

/-- Whether a path is the archive of a library that has objects and that a label reaches. -/
def Archives (g : TargetGraph) (facts : Facts) (label : Label) (path : Path) : Prop :=
  ∃ u ∈ g.libraries, g.Reaches label u.label ∧ u.hasObjects = true ∧
    path = Archive.path u.label facts

theorem Plans.archives (plans : g.Plans p) (found : p.libraries.get? label = some library)
    {path : Path} (mem : path ∈ library.providers.library.toList) :
    g.Archives p.facts label path := by
  obtain ⟨d, declared, reaches, own⟩ := plans.mem_values found .library mem
  cases d with
  | foreign info => cases own
  | library u =>
    rw [Declaration.own_library, Option.mem_toList] at own
    obtain ⟨hasObjects, same⟩ := Library.archive?_eq_some_iff.mp own
    exact ⟨u, library_mem_values.mp declared, reaches, hasObjects, same⟩

theorem Plans.contains_archive (plans : g.Plans p)
    (found : p.libraries.get? label = some library) {path : Path}
    (archives : g.Archives p.facts label path) :
    library.providers.library.contains path = true := by
  obtain ⟨u, member, reaches, hasObjects, rfl⟩ := archives
  refine plans.contains_value found (library_mem_values.mpr member) reaches .library ?_
  rw [Declaration.own_library, Option.mem_toList]
  exact Library.archive?_eq_some_iff.mpr ⟨hasObjects, rfl⟩

theorem Plans.own_archive_first (plans : g.Plans p) {t : Library} (member : t ∈ g.libraries)
    (found : p.libraries.get? t.label = some library) {path : Path}
    (own : t.archive? p.facts = some path) :
    library.providers.library.toList.head? = some path := by
  obtain ⟨below, listed⟩ := traversal_link (get?_declarations_library.mpr ⟨member, rfl⟩)
  have values : library.providers.library = .ofList
      ((g.traversal .link t.label).flatMap (Declaration.own p.facts .library)) :=
    plans.values found .library
  rw [values, listed, List.flatMap_cons, Declaration.own_library, own, OrderedSet.toList_ofList]
  rfl

/-- A library links exactly the archives of the libraries with objects that it reaches, each once,
its own first. Its fully linked archive is planned unless there are none, with this list as its
inputs, as the inputs of its action and at the end of its arguments. The archives of the foreign
libraries that it reaches are listed apart, and none of them is linked, unless it is the archive of
such a library as well. -/
theorem plan_links (g : TargetGraph) (o : Options) (toolchain : Toolchain) (parallel : Bool)
    {p : WorkspacePlan} (planned : (g.plan o toolchain parallel .empty).1 = .ok p) {label : Label}
    {library : AnalyzedLibrary} (found : p.libraries.get? label = some library) :
    (∀ path ∈ library.providers.library.toList, g.Archives p.facts label path) ∧
      (∀ path, g.Archives p.facts label path → library.providers.library.contains path = true) ∧
      (library.providers.library.toList.Pairwise fun a b => a.components ≠ b.components) ∧
      (∀ t ∈ g.libraries, t.label = label → t.hasObjects = true →
        library.providers.library.toList.head? = some (Archive.path label p.facts)) ∧
      (library.fullyLinked = none ↔ library.providers.library.toList = []) ∧
      (∀ plan, library.fullyLinked = some plan →
        plan.inputs = library.providers.library.toList ∧
          plan.action.inputs.toList = library.providers.library.toList ∧
          plan.action.arguments = "-static" :: Archive.targetArguments p.facts plan.archive ++
            library.providers.library.toList.map Path.text) ∧
      ∀ info ∈ g.foreign, g.Reaches label info.label → ∀ path ∈ info.libraries,
        library.providers.ccLibrary.contains path = true ∧
          (library.providers.library.contains path = true ∨
              (∃ plan, library.fullyLinked = some plan ∧
                plan.action.inputs.contains path = true) →
            ∃ archive, g.Archives p.facts label archive ∧
              archive.components = path.components) := by
  have plans := plans_of_plan planned
  obtain ⟨t, member, rfl, plannedFor⟩ := plans.library found
  -- the own archive is listed first, so that to put it before the list changes nothing
  have first : ∀ path, t.archive? p.facts = some path →
      library.providers.library.toList.head? = some path :=
    fun path own => plans.own_archive_first member found own
  have linked : ∀ plan, library.fullyLinked = some plan →
      plan.action.inputs = library.providers.library := fun plan isLinked => by
    obtain ⟨_, _, inputs, _⟩ := plannedFor.fullyLinked_eq isLinked
    rw [inputs, Archive.inputs_eq first]
  refine ⟨fun path => plans.archives found, fun path => plans.contains_archive found,
    library.providers.library.distinct, ?_, ?_, ?_, ?_⟩
  · intro u member' same hasObjects
    obtain rfl := eq_of_label_eq member' member same
    exact first _ (Library.archive?_eq_some_iff.mpr ⟨hasObjects, rfl⟩)
  · rw [plannedFor.fullyLinked_eq_none_iff, and_iff_right_iff_imp]
    intro nothing
    by_contra own
    obtain ⟨path, own⟩ := Option.ne_none_iff_exists'.mp own
    simpa [nothing] using first path own
  · intro plan isLinked
    obtain ⟨_, _, _, inputs, arguments⟩ := plannedFor.fullyLinked_eq isLinked
    rw [linked plan isLinked] at inputs arguments
    exact ⟨inputs, congrArg OrderedSet.toList (linked plan isLinked), arguments⟩
  · intro info isForeign reaches path mem
    have declared := foreign_mem_values.mpr isForeign
    refine ⟨plans.contains_value found declared reaches .ccLibrary mem, fun enters => ?_⟩
    have among : library.providers.library.contains path = true := by
      rcases enters with among | ⟨plan, isLinked, among⟩
      · exact among
      · rwa [linked plan isLinked] at among
    obtain ⟨archive, listed, same⟩ := OrderedSet.contains_iff.mp among
    exact ⟨archive, plans.archives found listed, same.symm⟩

end TargetGraph

namespace Bundle

def zlib : ForeignLibrary where
  label := Shared.zlib.label
  libraries := ["zlib/libz.a"]

def core : Library where
  label := Shared.core.label
  srcs := ["core.m"]
  moduleMap := some "core.modulemap"

/-- A library of headers, which has nothing to archive. -/
def facade : Library where
  label := ⟨"facade", "facade", by decide, by decide⟩
  hdrs := ["facade.h"]
  deps := [core.label, zlib.label]

def app : Library where
  label := Refused.app.label
  srcs := ["app.m"]
  deps := [facade.label, core.label]

def graph : TargetGraph where
  declarations := ⟨[(app.label, .library app), (core.label, .library core),
    (facade.label, .library facade), (zlib.label, .foreign zlib)], by decide⟩
  keyed := by decide

theorem exists_plan : ∃ p, (graph.plan {} (.xcode Toolchain.defaultRoot) true .empty).1 = .ok p ∧
    ∀ t ∈ graph.libraries, ∃ library, p.libraries.get? t.label = some library :=
  exists_whole_plan rfl (by decide) (by decide +kernel) (by decide)
    (by rintro ⟨_ | _⟩ <;> decide)

theorem reaches_facade : graph.Reaches app.label facade.label :=
  .single ⟨app, by decide, rfl, by decide⟩

theorem reaches_core : graph.Reaches app.label core.label :=
  .single ⟨app, by decide, rfl, by decide⟩

theorem reaches_zlib : graph.Reaches app.label zlib.label :=
  reaches_facade.tail ⟨facade, by decide, rfl, by decide⟩

end Bundle

/-- The archives of `app` and `core` are linked, and the foreign one below `facade` is not. -/
theorem TargetGraph.plan_links_bundle :
    ∃ p library linked,
      (Bundle.graph.plan {} (.xcode Toolchain.defaultRoot) true .empty).1 = .ok p ∧
      p.libraries.get? Bundle.app.label = some library ∧ library.fullyLinked = some linked ∧
      linked.inputs.head? = some (Archive.path Bundle.app.label p.facts) ∧
      linked.action.inputs.contains (Archive.path Bundle.core.label p.facts) = true ∧
      (∀ path ∈ linked.inputs, path = Archive.path Bundle.app.label p.facts ∨
        path = Archive.path Bundle.core.label p.facts) ∧
      library.providers.ccLibrary.contains "zlib/libz.a" = true := by
  obtain ⟨p, planned, all⟩ := Bundle.exists_plan
  obtain ⟨library, found⟩ := all Bundle.app (by decide)
  obtain ⟨only, every, _, first, absent, linked, foreign⟩ := TargetGraph.plan_links Bundle.graph {}
    (.xcode Toolchain.defaultRoot) true planned found
  have own := first Bundle.app (by decide) rfl (by decide)
  cases isLinked : library.fullyLinked with
  | none =>
    rw [absent.mp isLinked] at own
    contradiction
  | some plan =>
    obtain ⟨inputs, declared, _⟩ := linked plan isLinked
    have same : plan.action.inputs = library.providers.library := OrderedSet.ext declared
    refine ⟨p, library, plan, planned, found, isLinked, inputs ▸ own, ?_, ?_, ?_⟩
    · rw [same]
      exact every _ ⟨Bundle.core, by decide, Bundle.reaches_core, by decide, rfl⟩
    · intro path mem
      rw [inputs] at mem
      obtain ⟨u, member, _, hasObjects, rfl⟩ := only path mem
      have objects : ∀ u ∈ Bundle.graph.libraries, u.hasObjects = true →
          u = Bundle.app ∨ u = Bundle.core := by
        decide
      rcases objects u member hasObjects with rfl | rfl
      · exact .inl rfl
      · exact .inr rfl
    · exact (foreign Bundle.zlib (by decide) Bundle.reaches_zlib _ (by decide)).1

end ObjcPlan
