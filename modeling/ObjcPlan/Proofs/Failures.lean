import ObjcPlan.Proofs.Calls

/-! Which libraries of a plan fail, and why. A library is planned exactly if everything below it is
declared and it and all libraries below it pass their checks (`TargetGraph.Sound`), as long as the
declarations can be written (`TargetGraph.WrittenBelow`). Otherwise its failure names the first
dependency that it cannot have, and only a library that can have all of them fails with a fault of
the writer or with the errors of its own declaration (`TargetGraph.failureOf`). -/

namespace ObjcPlan

/-- A computation over a list ends in the fault of the first bad element, if there is one. -/
theorem mapM_find? {α β ε : Type} {f : α → Except ε β} {bad : α → Bool} {fault : α → ε}
    (refuses : ∀ a, bad a = true → f a = .error (fault a))
    (accepts : ∀ a, bad a = false → ∃ b, f a = .ok b) (l : List α) :
    (∃ a, l.find? bad = some a ∧ l.mapM f = .error (fault a)) ∨
      l.find? bad = none ∧ ∃ bs, l.mapM f = .ok bs := by
  induction l with
  | nil => exact .inr ⟨rfl, [], rfl⟩
  | cons a rest ih =>
    rw [List.mapM_cons, List.find?_cons]
    cases isBad : bad a with
    | true => exact .inl ⟨a, rfl, by rw [refuses a isBad]; rfl⟩
    | false =>
      obtain ⟨b, ok⟩ := accepts a isBad
      rw [ok]
      rcases ih with ⟨c, found, error⟩ | ⟨none_found, bs, rest_ok⟩
      · exact .inl ⟨c, found, by rw [error]; rfl⟩
      · exact .inr ⟨none_found, b :: bs, by rw [rest_ok]; rfl⟩

/-- What can be read off the arguments of a computation over a list can be read off its results. -/
theorem map_of_mapM {α β γ ε : Type} {f : α → Except ε β} {value : β → γ} {value' : α → γ}
    (same : ∀ {a b}, f a = .ok b → value b = value' a) {l : List α} {bs : List β}
    (h : l.mapM f = .ok bs) : bs.map value = l.map value' := by
  induction l generalizing bs with
  | nil =>
    obtain rfl := Except.ok.inj h
    rfl
  | cons a rest ih =>
    rw [List.mapM_cons] at h
    obtain ⟨b, first, h⟩ := exists_of_bind h
    obtain ⟨bs, later, h⟩ := exists_of_bind h
    obtain rfl := Except.ok.inj h
    rw [List.map_cons, List.map_cons, same first, ih later]

namespace TargetGraph

variable {g : TargetGraph} {s : Setting} {outcomes : Label → Outcome} {t : Library}

/-- Whether the library with the first label names the second as a dependency. -/
def Names (g : TargetGraph) (label dependency : Label) : Prop :=
  ∃ t ∈ g.libraries, t.label = label ∧ dependency ∈ t.deps

/-- Whether a label can be reached from another along dependencies. -/
abbrev Reaches (g : TargetGraph) : Label → Label → Prop :=
  Relation.ReflTransGen g.Names

/-- Whether everything that a library reaches is declared, and all libraries among it, with itself,
pass their checks. -/
structure Sound (g : TargetGraph) (policy : Validation.Policy) (t : Library) : Prop where
  declared : ∀ label, g.Reaches t.label label → g.contains label = true
  checked : ∀ u ∈ g.libraries, g.Reaches t.label u.label →
    ∃ warnings, Validation.check policy u = .ok warnings

/-- The fault that the writer reports for a target as a dependency: only foreign libraries are
described by what they declare. -/
def foreignFault? (g : TargetGraph) (w : Writer) (dep : Label) : Option String :=
  match g.declarations.get? dep with
  | some (.foreign info) => w.foreignFault? info
  | _ => none

/-- The first fault that the writer reports for a library or the foreign libraries among its
dependencies. -/
def fault? (g : TargetGraph) (w : Writer) (t : Library) : Option String :=
  (w.libraryFault? t).or (t.deps.findSome? (g.foreignFault? w))

/-- Whether a library and all libraries that it reaches can be written. -/
def WrittenBelow (g : TargetGraph) (w : Writer) (t : Library) : Prop :=
  ∀ u ∈ g.libraries, g.Reaches t.label u.label → g.fault? w u = none

/-- The failure of a library, if it has one, given which targets failed: the first dependency that
failed or is not declared, or else a fault of the writer, or else the errors of the declaration. -/
def failureOf (g : TargetGraph) (policy : Validation.Policy) (w : Writer) (failed : Label → Bool)
    (t : Library) : Option Failure :=
  match t.deps.find? fun dep => failed dep || !g.contains dep with
  | some dep =>
    if failed dep then some (.planning (.dependencyFailed t.label dep))
    else some (.planning (.dependencyNotFound t.label dep))
  | none =>
    match g.fault? w t with
    | some fault => some (.cache fault)
    | none =>
      let errors := (Validation.findings policy t).filter Diagnostic.isError
      if errors = [] then none else some (.planning (.invalidDeclaration t.label errors))

theorem contains_label (member : t ∈ g.libraries) : g.contains t.label = true := by
  rw [contains, SortedMap.contains, get?_declarations_library.mpr ⟨member, rfl⟩]
  rfl

/-- What a library reaches is itself, a dependency, or reached by a dependency that is a library. -/
theorem Reaches.cases {label : Label} (reaches : g.Reaches t.label label)
    (member : t ∈ g.libraries) :
    label = t.label ∨ label ∈ t.deps ∨
      ∃ u ∈ g.libraries, t.Needs u ∧ g.Reaches u.label label := by
  rcases reaches.cases_head with same | ⟨dep, ⟨t', declared, same, mem⟩, rest⟩
  · exact .inl same.symm
  · obtain rfl := eq_of_label_eq declared member same
    rcases rest.cases_head with rfl | ⟨_, ⟨u, declared', rfl, _⟩, _⟩
    · exact .inr (.inl mem)
    · exact .inr (.inr ⟨u, declared', mem, rest⟩)

theorem forall_reaches_iff {P : Library → Prop} (member : t ∈ g.libraries) :
    (∀ u ∈ g.libraries, g.Reaches t.label u.label → P u) ↔
      P t ∧ ∀ u ∈ g.libraries, t.Needs u → ∀ v ∈ g.libraries, g.Reaches u.label v.label → P v := by
  constructor
  · intro all
    have step {u : Library} (needs : t.Needs u) : g.Names t.label u.label :=
      ⟨t, member, rfl, needs⟩
    exact ⟨all t member .refl, fun u _ needs v declared reaches =>
      all v declared (.head (step needs) reaches)⟩
  · rintro ⟨own, below⟩ v declared reaches
    rcases reaches.cases member with same | mem | ⟨u, declared', needs, rest⟩
    · exact eq_of_label_eq declared member same ▸ own
    · exact below v declared mem v declared .refl
    · exact below u declared' needs v declared rest

theorem sound_iff {policy : Validation.Policy} (member : t ∈ g.libraries) :
    g.Sound policy t ↔
      (∃ warnings, Validation.check policy t = .ok warnings) ∧
        (∀ dep ∈ t.deps, g.contains dep = true) ∧
        ∀ u ∈ g.libraries, t.Needs u → g.Sound policy u := by
  constructor
  · intro sound
    have step {dep : Label} (mem : dep ∈ t.deps) : g.Names t.label dep := ⟨t, member, rfl, mem⟩
    obtain ⟨own, below⟩ := (forall_reaches_iff member).mp sound.checked
    exact ⟨own, fun dep mem => sound.declared dep (.single (step mem)), fun u declared needs =>
      ⟨fun label reaches => sound.declared label (.head (step needs) reaches),
        below u declared needs⟩⟩
  · rintro ⟨own, deps, below⟩
    refine ⟨fun label reaches => ?_, (forall_reaches_iff member).mpr
      ⟨own, fun u declared needs => (below u declared needs).checked⟩⟩
    rcases reaches.cases member with rfl | mem | ⟨u, declared, needs, rest⟩
    · exact contains_label member
    · exact deps label mem
    · exact (below u declared needs).declared label rest

theorem writtenBelow_iff {w : Writer} (member : t ∈ g.libraries) :
    g.WrittenBelow w t ↔
      g.fault? w t = none ∧ ∀ u ∈ g.libraries, t.Needs u → g.WrittenBelow w u :=
  forall_reaches_iff member

theorem fault?_unicode (g : TargetGraph) (t : Library) : g.fault? .unicode t = none := by
  have unwritten (dep : Label) : g.foreignFault? .unicode dep = none := by
    unfold foreignFault?
    split <;> rfl
  simp only [fault?, Writer.unicode, Option.none_or, List.findSome?_eq_none_iff]
  exact fun dep _ => unwritten dep

theorem writtenBelow_unicode (g : TargetGraph) (t : Library) : g.WrittenBelow .unicode t :=
  fun u _ _ => g.fault?_unicode u

def failedIn (g : TargetGraph) (results : Results) (label : Label) : Bool :=
  (g.library? label).isSome && !(results label).isOk

theorem failedIn_label {results : Results} (member : t ∈ g.libraries) :
    g.failedIn results t.label = !(results t.label).isOk := by
  simp [failedIn, library?_eq_some_iff.mpr ⟨member, rfl⟩]

theorem supply_of_bad {results : Results} {target dep : Label}
    (bad : (g.failedIn results dep || !g.contains dep) = true) :
    g.supply results target dep = .error
      (if g.failedIn results dep then .dependencyFailed target dep
        else .dependencyNotFound target dep) := by
  unfold supply
  unfold failedIn library? contains SortedMap.contains at *
  cases declaration : g.declarations.get? dep with
  | none => simp
  | some declared =>
    cases declared with
    | library u =>
      cases result : results dep <;>
        simp_all [Declaration.library?]
    | foreign info => simp [declaration, Declaration.library?] at bad

theorem supply_of_fine {results : Results} {target dep : Label}
    (fine : (g.failedIn results dep || !g.contains dep) = false) :
    ∃ dependency, g.supply results target dep = .ok dependency := by
  unfold supply
  unfold failedIn library? contains SortedMap.contains at fine
  cases declaration : g.declarations.get? dep with
  | none => simp [declaration] at fine
  | some declared =>
    cases declared with
    | library u =>
      cases result : results dep <;>
        simp_all [Declaration.library?]
    | foreign info => simp

theorem supplies_find? (g : TargetGraph) (results : Results) (t : Library) :
    (∃ dep, (t.deps.find? fun dep => g.failedIn results dep || !g.contains dep) = some dep ∧
        g.supplies results t = .error
          (if g.failedIn results dep then .dependencyFailed t.label dep
            else .dependencyNotFound t.label dep)) ∨
      (t.deps.find? fun dep => g.failedIn results dep || !g.contains dep) = none ∧
        ∃ dependencies, g.supplies results t = .ok dependencies :=
  mapM_find? (f := g.supply results t.label) (fun _ => supply_of_bad) (fun _ => supply_of_fine)
    t.deps

theorem foreignFault?_of_supply {results : Results} {target dep : Label} {dependency : Dependency}
    (w : Writer) (had : g.supply results target dep = .ok dependency) :
    w.dependencyFault? dependency = g.foreignFault? w dep := by
  unfold supply at had
  unfold foreignFault?
  split at had
  · next u found =>
    split at had
    · obtain rfl := Except.ok.inj had
      rw [found]
      rfl
    · contradiction
  · next info found =>
    obtain rfl := Except.ok.inj had
    rw [found]
    rfl
  · contradiction

/-- The inputs of an analysis have the faults of the declarations that they come from. -/
theorem fault?_of_supplies {results : Results} {dependencies : List Dependency} (w : Writer)
    (had : g.supplies results t = .ok dependencies) :
    w.fault? t dependencies = g.fault? w t := by
  have faults := map_of_mapM (foreignFault?_of_supply w) had
  have first := congrArg (List.findSome? id) faults
  rw [List.findSome?_map, List.findSome?_map] at first
  exact congrArg (w.libraryFault? t).or first

theorem Solution.failure_eq (solution : g.Solution (s.judge .empty) outcomes)
    (member : t ∈ g.libraries) :
    g.failureOf ⟨s.facts.disableResources⟩ s.writer
        (g.failedIn fun label => (outcomes label).result) t =
      match (outcomes t.label).result with
      | .ok _ => none
      | .error failure => some failure := by
  rw [solution t member, Setting.result_judge_empty]
  unfold failureOf
  rcases g.supplies_find? (fun label => (outcomes label).result) t with
    ⟨dep, found, refused⟩ | ⟨none_found, dependencies, had⟩
  · rw [found, refused]
    simp only [Setting.verdict]
    split <;> rfl
  · rw [none_found, had]
    simp only [Setting.verdict, fault?_of_supplies s.writer had]
    cases g.fault? s.writer t with
    | some fault => rfl
    | none =>
      rcases t.analyze_eq dependencies s.facts with
        ⟨error, refused, same⟩ | ⟨_, library, passed, same, _⟩
      · rw [same]
        unfold Validation.check at refused
        simp only [Except.mapError]
        grind
      · rw [same]
        unfold Validation.check at passed
        simp only [Except.mapError]
        grind

theorem failureOf_eq_none {policy : Validation.Policy} {w : Writer} {failed : Label → Bool} :
    g.failureOf policy w failed t = none ↔
      (∃ warnings, Validation.check policy t = .ok warnings) ∧ g.fault? w t = none ∧
        ∀ dep ∈ t.deps, failed dep = false ∧ g.contains dep = true := by
  unfold failureOf Validation.check
  cases found : t.deps.find? fun dep => failed dep || !g.contains dep with
  | some dep =>
    have mem := List.mem_of_find?_eq_some found
    have bad := List.find?_some found
    constructor
    · intro none
      simp only at none
      split at none <;> contradiction
    · rintro ⟨_, _, fine⟩
      simp [fine dep mem] at bad
  | none =>
    have fine : ∀ dep ∈ t.deps, failed dep = false ∧ g.contains dep = true := by
      simpa using List.find?_eq_none.mp found
    cases g.fault? w t with
    | some fault => simp
    | none =>
      simp only
      split
      · simpa using fine
      · simp

/-- With an empty cache, a library is planned exactly if everything below it is sound and can be
written. -/
theorem Solution.isOk_iff {groups : List (List Library)} (schedule : g.Schedule groups)
    (solution : g.Solution (s.judge .empty) outcomes) : ∀ t ∈ g.libraries,
      ((outcomes t.label).result.isOk = true ↔
        g.Sound ⟨s.facts.disableResources⟩ t ∧ g.WrittenBelow s.writer t) := by
  refine schedule.induct fun t member below => ?_
  have planned : (outcomes t.label).result.isOk = true ↔
      g.failureOf ⟨s.facts.disableResources⟩ s.writer
        (g.failedIn fun label => (outcomes label).result) t = none := by
    rw [solution.failure_eq member]
    cases (outcomes t.label).result <;> simp
  rw [planned, failureOf_eq_none, sound_iff member, writtenBelow_iff member]
  constructor
  · rintro ⟨passed, written, fine⟩
    have kept : ∀ u ∈ g.libraries, t.Needs u →
        g.Sound ⟨s.facts.disableResources⟩ u ∧ g.WrittenBelow s.writer u := by
      intro u declared needs
      have unfailed := (fine u.label needs).1
      rw [failedIn_label declared] at unfailed
      exact (below u declared needs).mp (by simpa using unfailed)
    exact ⟨⟨passed, fun dep mem => (fine dep mem).2, fun u declared needs =>
      (kept u declared needs).1⟩, written, fun u declared needs => (kept u declared needs).2⟩
  · rintro ⟨⟨passed, deps, sound⟩, written, writtenBelow⟩
    refine ⟨passed, written, fun dep mem => ⟨?_, deps dep mem⟩⟩
    unfold failedIn
    cases found : g.library? dep with
    | none => rfl
    | some u =>
      obtain ⟨declared, rfl⟩ := library?_eq_some_iff.mp found
      have kept := (below u declared mem).mpr ⟨sound u declared mem, writtenBelow u declared mem⟩
      simp [kept]

theorem Solution.isOk_of_reaches {groups : List (List Library)} (schedule : g.Schedule groups)
    (solution : g.Solution (s.judge .empty) outcomes) (member : t ∈ g.libraries)
    (isOk : (outcomes t.label).result.isOk = true) {u : Library} (member' : u ∈ g.libraries)
    (reaches : g.Reaches t.label u.label) : (outcomes u.label).result.isOk = true := by
  obtain ⟨sound, written⟩ := (solution.isOk_iff schedule t member).mp isOk
  refine (solution.isOk_iff schedule u member').mpr ⟨⟨fun label further => ?_, ?_⟩, ?_⟩
  · exact sound.declared label (reaches.trans further)
  · exact fun v declared further => sound.checked v declared (reaches.trans further)
  · exact fun v declared further => written v declared (reaches.trans further)

end TargetGraph

namespace WorkspacePlan

variable {p : WorkspacePlan} {g : TargetGraph} {s : Setting} {outcomes : Label → Outcome}
  {results : Results}

theorem Holds.contains_failure (holds : p.Holds g s results) (label : Label) :
    p.failures.contains label = g.failedIn results label := by
  have failure := holds.failures label
  unfold SortedMap.contains TargetGraph.failedIn
  cases declared : g.library? label with
  | none =>
    have absent : ∀ t ∈ g.libraries, t.label ≠ label := fun t member same => by
      simp [TargetGraph.library?_eq_some_iff.mpr ⟨member, same⟩] at declared
    cases found : p.failures.get? label with
    | none => rfl
    | some error =>
      obtain ⟨⟨t, member, same⟩, _⟩ := (failure error).mp found
      exact absurd same (absent t member)
  | some t =>
    obtain ⟨member, rfl⟩ := TargetGraph.library?_eq_some_iff.mp declared
    cases result : results t.label with
    | error error => simp [(failure error).mpr ⟨⟨t, member, rfl⟩, result⟩]
    | ok library =>
      cases found : p.failures.get? t.label with
      | none => rfl
      | some error => simp [((failure error).mp found).2] at result

theorem Holds.contains_library (holds : p.Holds g s results) {t : Library}
    (member : t ∈ g.libraries) : p.libraries.contains t.label = (results t.label).isOk := by
  have planned := holds.libraries t.label
  unfold SortedMap.contains
  cases result : results t.label with
  | ok library => simp [(planned library).mpr ⟨⟨t, member, rfl⟩, result⟩]
  | error error =>
    cases found : p.libraries.get? t.label with
    | none => rfl
    | some library => simp [((planned library).mp found).2] at result

theorem failed_tally (outcomes : List Outcome) :
    (Tally.of outcomes).failed = outcomes.countP fun outcome => !outcome.result.isOk :=
  List.countP_congr fun outcome _ => by cases outcome <;> rfl

end WorkspacePlan

namespace Refused

def base : Library where
  label := ⟨"app", "base", by decide, by decide⟩
  moduleName := some "Base"
  moduleMap := some "base.modulemap"

def app : Library where
  label := ⟨"app", "app", by decide, by decide⟩
  deps := [base.label]

/-- A library with a header whose name is shown with a replacement character. -/
def logo : Library where
  label := ⟨"app", "logo", by decide, by decide⟩
  hdrs := ["logo\uFFFD.h"]

def graph : TargetGraph where
  declarations :=
    ⟨[(app.label, .library app), (base.label, .library base), (logo.label, .library logo)],
      by decide⟩
  keyed := by decide

/-- The writer where that character stands for a byte that is not Unicode. -/
def writer : Writer where
  libraryFault? t :=
    if t = logo then some "path contains invalid UTF-8 characters" else none
  foreignFault? _ := none

def toolchain : Toolchain := { Toolchain.xcode Toolchain.defaultRoot with writer }

end Refused

end ObjcPlan
