import Mathlib.Data.List.Basic
import ObjcPlan.Workspace

/-! How a graph comes about, one declaration after the other. Under a label it holds the first
declaration of that label (`get?_declareAll`), so it is told by the set of the declarations that it
accepted and not by their order (`declareAll_congr`).

A graph keeps both kinds of targets in one map. In a `Registry` each kind has a map of its own, and
only the check before each declaration keeps the two apart. A call says the same and does the same
to either form (`declare_registry`). -/

namespace ObjcPlan

namespace SortedMap

variable {κ α β : Type} [Ord κ]

/-- The entries whose values `part` keeps, with what it makes of these. -/
def filterMap (part : α → Option β) (m : SortedMap κ α) : SortedMap κ β where
  entries := m.entries.filterMap fun entry => (part entry.2).map (entry.1, ·)
  sorted := by
    refine List.pairwise_filterMap.mpr (m.sorted.imp fun lt a kept b kept' => ?_)
    obtain ⟨_, _, rfl⟩ := Option.map_eq_some_iff.mp kept
    obtain ⟨_, _, rfl⟩ := Option.map_eq_some_iff.mp kept'
    exact lt

variable {part : α → Option β} {m : SortedMap κ α}

theorem mem_entries_filterMap {key : κ} {b : β} :
    (key, b) ∈ (m.filterMap part).entries ↔ ∃ a, (key, a) ∈ m.entries ∧ part a = some b := by
  simp only [filterMap, List.mem_filterMap, Option.map_eq_some_iff, Prod.mk.injEq]
  constructor
  · rintro ⟨⟨_, a⟩, mem, _, kept, rfl, rfl⟩
    exact ⟨a, mem, kept⟩
  · rintro ⟨a, mem, kept⟩
    exact ⟨_, mem, b, kept, rfl, rfl⟩

theorem get?_filterMap [Std.LawfulEqOrd κ] (key : κ) :
    (m.filterMap part).get? key = (m.get? key).bind part := by
  refine Option.ext fun b => ?_
  simp only [Option.bind_eq_some_iff, get?_eq_some_iff, mem_entries_filterMap]

variable [Std.LawfulEqOrd κ] [Std.TransOrd κ] {key : κ} {a : α}

theorem filterMap_insert_some {b : β} (kept : part a = some b) :
    (m.insert key a).filterMap part = (m.filterMap part).insert key b := by
  refine ext_get? fun other => ?_
  by_cases own : other = key
  · simp [own, get?_filterMap, get?_insert_self, kept]
  · simp [get?_filterMap, get?_insert_of_ne _ _ own]

theorem filterMap_insert_none (dropped : part a = none) (free : m.get? key = none) :
    (m.insert key a).filterMap part = m.filterMap part := by
  refine ext_get? fun other => ?_
  by_cases own : other = key
  · simp [own, get?_filterMap, get?_insert_self, dropped, free]
  · simp [get?_filterMap, get?_insert_of_ne _ _ own]

end SortedMap

namespace TargetGraph

/-- The graph after a call. A call that fails leaves the graph as it is. -/
def declare (g : TargetGraph) (d : Declaration) : TargetGraph :=
  match g.add d with
  | .ok next => next
  | .error _ => g

def declareAll (g : TargetGraph) (calls : List Declaration) : TargetGraph :=
  calls.foldl declare g

/-- The declarations of those calls that succeed. -/
def accepted (g : TargetGraph) : List Declaration → List Declaration
  | [] => []
  | d :: calls =>
    match g.add d with
    | .ok next => d :: next.accepted calls
    | .error _ => g.accepted calls

variable {g : TargetGraph} {d : Declaration} {calls : List Declaration} {label : Label}

/-- What a call can come to. -/
theorem add_cases (g : TargetGraph) (d : Declaration) :
    g.contains d.label = true ∧ g.add d = .error (.duplicateTarget d.label) ∧ g.declare d = g ∨
      g.contains d.label = false ∧ g.add d = .ok (g.declare d) ∧
        (g.declare d).declarations = g.declarations.insert d.label d := by
  unfold declare
  cases taken : g.contains d.label with
  | true => simp [add, taken]
  | false => simp [add, taken]

theorem contains_eq_false_iff : g.contains label = false ↔ g.declarations.get? label = none :=
  Option.isSome_eq_false_iff.trans Option.isNone_iff_eq_none

theorem get?_declare (g : TargetGraph) (d : Declaration) (label : Label) :
    (g.declare d).declarations.get? label =
      (g.declarations.get? label).or ([d].find? (·.label = label)) := by
  rcases add_cases g d with ⟨taken, -, same⟩ | ⟨free, -, inserted⟩
  · obtain ⟨earlier, found⟩ := Option.isSome_iff_exists.mp taken
    rw [same]
    by_cases own : d.label = label
    · simp [← own, found]
    · simp [own]
  · rw [inserted]
    by_cases own : d.label = label
    · simp [← own, SortedMap.get?_insert_self, contains_eq_false_iff.mp free]
    · simp [own, SortedMap.get?_insert_of_ne _ _ (Ne.symm own)]

/-- What the graph held before stays, and of the declarations of a label the first one stays. -/
theorem get?_declareAll (g : TargetGraph) (calls : List Declaration) (label : Label) :
    (g.declareAll calls).declarations.get? label =
      (g.declarations.get? label).or (calls.find? (·.label = label)) := by
  induction calls generalizing g with
  | nil => simp [declareAll]
  | cons d calls ih =>
    calc ((g.declare d).declareAll calls).declarations.get? label
      _ = ((g.declarations.get? label).or ([d].find? (·.label = label))).or
            (calls.find? (·.label = label)) := by rw [ih, get?_declare]
      _ = (g.declarations.get? label).or (([d] ++ calls).find? (·.label = label)) := by
        rw [List.find?_append, Option.or_assoc]

/-- The accepted declarations are the first ones of labels that were free at the start. -/
theorem mem_accepted_iff {e : Declaration} :
    e ∈ g.accepted calls ↔
      g.contains e.label = false ∧ calls.find? (·.label = e.label) = some e := by
  induction calls generalizing g with
  | nil => simp [accepted]
  | cons d calls ih =>
    rcases add_cases g d with ⟨taken, refused, -⟩ | ⟨free, added, -⟩
    · have skipped : g.accepted (d :: calls) = g.accepted calls := by simp only [accepted, refused]
      rw [skipped, ih]
      by_cases own : d.label = e.label
      · simp [← own, taken]
      · simp [own]
    · -- From here on the label of `d` is taken, and all other labels are as free as before.
      have kept : g.accepted (d :: calls) = d :: (g.declare d).accepted calls := by
        simp only [accepted, added]
      rw [kept, List.mem_cons, ih, contains_eq_false_iff, get?_declare, contains_eq_false_iff]
      rw [contains_eq_false_iff] at free
      by_cases own : d.label = e.label
      · simp [← own, free, eq_comm]
      · have other : e ≠ d := fun same => own (congrArg _ same.symm)
        simp [own, other]

theorem get?_declareAll_empty (calls : List Declaration) (label : Label) :
    (empty.declareAll calls).declarations.get? label = calls.find? (·.label = label) :=
  get?_declareAll empty calls label

/-- A graph that starts empty holds what it accepted. -/
theorem mem_values_declareAll {e : Declaration} :
    e ∈ (empty.declareAll calls).declarations.values ↔ e ∈ empty.accepted calls := by
  calc e ∈ (empty.declareAll calls).declarations.values
    _ ↔ (empty.declareAll calls).declarations.get? e.label = some e := by
      rw [get?_declarations_iff, and_iff_left rfl]
    _ ↔ calls.find? (·.label = e.label) = some e := by rw [get?_declareAll_empty]
    _ ↔ e ∈ empty.accepted calls := (mem_accepted_iff.trans (and_iff_right rfl)).symm

theorem contains_declareAll_iff :
    (empty.declareAll calls).contains label = true ↔
      ∃ e ∈ empty.accepted calls, e.label = label := by
  simp only [contains, SortedMap.contains, Option.isSome_iff_exists, get?_declarations_iff,
    mem_values_declareAll]

theorem ext_declarations {h : TargetGraph} (same : g.declarations = h.declarations) : g = h := by
  cases g
  cases h
  cases same
  rfl

/-- The order of the calls leaves no trace, nor do those that failed. -/
theorem declareAll_congr {calls' : List Declaration}
    (same : ∀ d, d ∈ empty.accepted calls ↔ d ∈ empty.accepted calls') :
    empty.declareAll calls = empty.declareAll calls' := by
  refine ext_declarations (SortedMap.ext_get? fun label => Option.ext fun d => ?_)
  simp only [get?_declarations_iff, mem_values_declareAll, same]

end TargetGraph

/-- The declared targets of a workspace in two maps, one for each kind. -/
structure Registry where
  libraries : SortedMap Label Library
  foreign : SortedMap Label ForeignLibrary

namespace Registry

def empty : Registry := ⟨.empty, .empty⟩

def contains (r : Registry) (label : Label) : Bool :=
  r.libraries.contains label || r.foreign.contains label

/-- What a call says, and the maps after it. -/
def declare (r : Registry) : Declaration → Except PlanError Unit × Registry
  | .library t =>
    if r.contains t.label then (.error (.duplicateTarget t.label), r)
    else (.ok (), { r with libraries := r.libraries.insert t.label t })
  | .foreign info =>
    if r.contains info.label then (.error (.duplicateTarget info.label), r)
    else (.ok (), { r with foreign := r.foreign.insert info.label info })

def declareAll (r : Registry) (calls : List Declaration) : Registry :=
  calls.foldl (fun r d => (r.declare d).2) r

/-- The first dependency that neither map knows, with the key of the library that names it. -/
def undeclared? (r : Registry) : Option (Label × Label) :=
  r.libraries.entries.findSome? fun (label, t) =>
    (t.deps.find? fun dep => !r.contains dep).map (label, ·)

/-- No label is in both maps, and every key is the label of what it leads to. -/
structure WellFormed (r : Registry) : Prop where
  apart : ∀ label, ¬(r.libraries.contains label = true ∧ r.foreign.contains label = true)
  libraries_keyed : ∀ entry ∈ r.libraries.entries, entry.2.label = entry.1
  foreign_keyed : ∀ entry ∈ r.foreign.entries, entry.2.label = entry.1

end Registry

namespace TargetGraph

/-- The two maps of a graph. -/
def registry (g : TargetGraph) : Registry where
  libraries := g.declarations.filterMap Declaration.library?
  foreign := g.declarations.filterMap Declaration.foreign?

variable {g : TargetGraph} {d : Declaration}

theorem get?_registry_libraries (label : Label) :
    g.registry.libraries.get? label = (g.declarations.get? label).bind Declaration.library? :=
  SortedMap.get?_filterMap label

theorem get?_registry_foreign (label : Label) :
    g.registry.foreign.get? label = (g.declarations.get? label).bind Declaration.foreign? :=
  SortedMap.get?_filterMap label

theorem contains_registry (label : Label) : g.registry.contains label = g.contains label := by
  simp only [Registry.contains, contains, SortedMap.contains, get?_registry_libraries,
    get?_registry_foreign]
  rcases g.declarations.get? label with _ | _ | _ <;> rfl

theorem wellFormed_registry (g : TargetGraph) : g.registry.WellFormed where
  apart label := by
    simp only [SortedMap.contains, get?_registry_libraries, get?_registry_foreign]
    rcases g.declarations.get? label with _ | _ | _ <;>
      simp [Declaration.library?, Declaration.foreign?]
  libraries_keyed := by
    rintro ⟨_, _⟩ mem
    obtain ⟨_ | _, held, ⟨⟩⟩ := SortedMap.mem_entries_filterMap.mp mem
    exact g.keyed _ held
  foreign_keyed := by
    rintro ⟨_, _⟩ mem
    obtain ⟨_ | _, held, ⟨⟩⟩ := SortedMap.mem_entries_filterMap.mp mem
    exact g.keyed _ held

/-- A call says and does the same to both forms of a graph. -/
theorem declare_registry (g : TargetGraph) (d : Declaration) :
    g.registry.declare d = ((g.add d).map fun _ => (), (g.declare d).registry) := by
  rcases add_cases g d with ⟨taken, refused, same⟩ | ⟨free, added, inserted⟩
  · rw [← contains_registry] at taken
    rw [refused, same]
    cases d <;> exact if_pos taken
  · have absent := contains_eq_false_iff.mp free
    rw [← contains_registry, Bool.eq_false_iff] at free
    rw [added]
    cases d with
    | library t =>
      have kept : (Declaration.library t).library? = some t := rfl
      have dropped : (Declaration.library t).foreign? = none := rfl
      have after : (g.declare (.library t)).registry =
          { g.registry with libraries := g.registry.libraries.insert t.label t } := by
        unfold registry
        rw [inserted, SortedMap.filterMap_insert_some kept,
          SortedMap.filterMap_insert_none dropped absent]
        rfl
      rw [after]
      exact if_neg free
    | foreign info =>
      have kept : (Declaration.foreign info).foreign? = some info := rfl
      have dropped : (Declaration.foreign info).library? = none := rfl
      have after : (g.declare (.foreign info)).registry =
          { g.registry with foreign := g.registry.foreign.insert info.label info } := by
        unfold registry
        rw [inserted, SortedMap.filterMap_insert_some kept,
          SortedMap.filterMap_insert_none dropped absent]
        rfl
      rw [after]
      exact if_neg free

theorem declare_registry_eq_error_iff :
    g.registry.declare d = (.error (.duplicateTarget d.label), g.registry) ↔
      g.contains d.label = true := by
  rw [declare_registry]
  rcases add_cases g d with ⟨taken, refused, same⟩ | ⟨free, added, -⟩
  · simp [taken, refused, same, Except.map]
  · simp [free, added, Except.map]

theorem declare_registry_eq_ok_iff :
    (g.registry.declare d).1 = .ok () ↔ g.contains d.label = false := by
  rw [declare_registry]
  rcases add_cases g d with ⟨taken, refused, -⟩ | ⟨free, added, -⟩
  · simp [taken, refused, Except.map]
  · simp [free, added, Except.map]

theorem declareAll_registry (g : TargetGraph) (calls : List Declaration) :
    g.registry.declareAll calls = (g.declareAll calls).registry := by
  induction calls generalizing g with
  | nil => rfl
  | cons d calls ih =>
    calc (g.registry.declare d).2.declareAll calls
      _ = (g.declare d).registry.declareAll calls := by rw [declare_registry]
      _ = ((g.declare d).declareAll calls).registry := ih _

theorem entries_registry_libraries (g : TargetGraph) :
    g.registry.libraries.entries = g.libraries.map fun t => (t.label, t) := by
  simp only [registry, SortedMap.filterMap, libraries, SortedMap.values, List.filterMap_map,
    List.map_filterMap]
  refine List.filterMap_congr fun entry held => ?_
  have key := g.keyed entry held
  rcases entry with ⟨_, _ | _⟩
  · exact key ▸ rfl
  · rfl

theorem undeclared?_registry (g : TargetGraph) : g.registry.undeclared? = g.undeclared? := by
  simp only [Registry.undeclared?, undeclared?, entries_registry_libraries, List.findSome?_map,
    contains_registry, Function.comp_def]

/-- Under a label stays what was declared first, as a library or as a foreign library. With a map
for each kind, no label comes to be in both maps and every key is the label of its target; both
forms of the graph agree after every sequence of calls and in what the next call says. A call fails
if and only if one before it succeeded with its label, and then changes nothing. Sequences that
declared the same set, in whatever order and with whatever failures in between, give graphs with
the same check of the dependencies, the same orders and the same plans. -/
theorem first_declaration_stays (calls : List Declaration) :
    let g := empty.declareAll calls
    let r := Registry.empty.declareAll calls
    (r = g.registry ∧ r.undeclared? = g.undeclared? ∧
      ∀ d, (r.declare d).1 = (g.add d).map fun _ => ()) ∧
    r.WellFormed ∧
    (∀ d,
      (r.declare d = (.error (.duplicateTarget d.label), r) ↔
        ∃ e ∈ empty.accepted calls, e.label = d.label) ∧
      ((r.declare d).1 = .ok () ↔ ∀ e ∈ empty.accepted calls, e.label ≠ d.label)) ∧
    (∀ label,
      r.libraries.get? label = (calls.find? (·.label = label)).bind Declaration.library? ∧
      r.foreign.get? label = (calls.find? (·.label = label)).bind Declaration.foreign?) ∧
    ∀ calls', (∀ d, d ∈ empty.accepted calls ↔ d ∈ empty.accepted calls') →
      let g' := empty.declareAll calls'
      r = Registry.empty.declareAll calls' ∧ g.validate = g'.validate ∧
      g.buildOrder = g'.buildOrder ∧ g.buildGroups = g'.buildGroups ∧
      ∀ o toolchain parallel cache,
        g.plan o toolchain parallel cache = g'.plan o toolchain parallel cache := by
  intro g r
  have forms (calls : List Declaration) :
      Registry.empty.declareAll calls = (empty.declareAll calls).registry :=
    declareAll_registry empty calls
  have both : r = g.registry := forms calls
  rw [both]
  refine ⟨⟨rfl, undeclared?_registry g, fun d => ?_⟩, wellFormed_registry g, fun d => ⟨?_, ?_⟩,
    fun label => ?_, fun calls' same => ?_⟩
  · rw [declare_registry]
  · rw [declare_registry_eq_error_iff, contains_declareAll_iff]
  · rw [declare_registry_eq_ok_iff, Bool.eq_false_iff, ne_eq, contains_declareAll_iff]
    simp only [not_exists, not_and, ne_eq]
  · rw [get?_registry_libraries, get?_registry_foreign, get?_declareAll_empty]
    exact ⟨rfl, rfl⟩
  · have equal : g = empty.declareAll calls' := declareAll_congr same
    rw [forms, ← equal]
    exact ⟨rfl, rfl, rfl, rfl, fun _ _ _ _ => rfl⟩

end TargetGraph

end ObjcPlan
