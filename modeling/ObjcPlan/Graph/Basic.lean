import ObjcPlan.Error
import ObjcPlan.Declaration
import ObjcPlan.SortedMap

/-!
Target graphs: the declared targets of a workspace by label. A label is declared once, as a library
or as a foreign library, and the first declaration stays.
-/

namespace ObjcPlan

inductive Declaration
  | library (declared : Library)
  | foreign (info : ForeignLibrary)
  deriving DecidableEq

namespace Declaration

def label : Declaration → Label
  | library declared => declared.label
  | foreign info => info.label

def library? : Declaration → Option Library
  | library declared => some declared
  | foreign _ => none

def foreign? : Declaration → Option ForeignLibrary
  | library _ => none
  | foreign info => some info

end Declaration

/-- Declarations, each under its own label. -/
structure TargetGraph where
  declarations : SortedMap Label Declaration
  keyed : ∀ entry ∈ declarations.entries, entry.2.label = entry.1

namespace TargetGraph

def empty : TargetGraph := ⟨.empty, by simp [SortedMap.empty]⟩

instance : Inhabited TargetGraph := ⟨empty⟩

/-- Whether a target of either kind has this label. -/
def contains (g : TargetGraph) (label : Label) : Bool :=
  g.declarations.contains label

/-- The graph with one more declaration, unless its label is taken. -/
def add (g : TargetGraph) (declaration : Declaration) : Except PlanError TargetGraph :=
  if g.contains declaration.label then .error (.duplicateTarget declaration.label)
  else .ok {
    declarations := g.declarations.insert declaration.label declaration
    keyed := fun entry mem => by
      rcases SortedMap.mem_insertEntry mem with rfl | mem
      · rfl
      · exact g.keyed entry mem }

def library? (g : TargetGraph) (label : Label) : Option Library :=
  (g.declarations.get? label).bind Declaration.library?

def libraries (g : TargetGraph) : List Library :=
  g.declarations.values.filterMap Declaration.library?

def foreign (g : TargetGraph) : List ForeignLibrary :=
  g.declarations.values.filterMap Declaration.foreign?

theorem get?_declarations_iff {g : TargetGraph} {label : Label} {declaration : Declaration} :
    g.declarations.get? label = some declaration ↔
      declaration ∈ g.declarations.values ∧ declaration.label = label := by
  rw [SortedMap.get?_eq_some_iff]
  constructor
  · exact fun entry => ⟨List.mem_map_of_mem entry, g.keyed _ entry⟩
  · rintro ⟨mem, rfl⟩
    obtain ⟨⟨key, _⟩, entry, rfl⟩ := List.mem_map.mp mem
    have same := g.keyed _ entry
    exact same ▸ entry

theorem library_mem_values {g : TargetGraph} {t : Library} :
    .library t ∈ g.declarations.values ↔ t ∈ g.libraries := by
  rw [libraries, List.mem_filterMap]
  refine ⟨fun mem => ⟨_, mem, rfl⟩, ?_⟩
  rintro ⟨_ | _, mem, ⟨⟩⟩
  exact mem

theorem foreign_mem_values {g : TargetGraph} {info : ForeignLibrary} :
    .foreign info ∈ g.declarations.values ↔ info ∈ g.foreign := by
  rw [foreign, List.mem_filterMap]
  refine ⟨fun mem => ⟨_, mem, rfl⟩, ?_⟩
  rintro ⟨_ | _, mem, ⟨⟩⟩
  exact mem

theorem get?_declarations_library {g : TargetGraph} {label : Label} {t : Library} :
    g.declarations.get? label = some (.library t) ↔ t ∈ g.libraries ∧ t.label = label := by
  rw [get?_declarations_iff, library_mem_values]
  rfl

theorem get?_declarations_foreign {g : TargetGraph} {label : Label} {info : ForeignLibrary} :
    g.declarations.get? label = some (.foreign info) ↔ info ∈ g.foreign ∧ info.label = label := by
  rw [get?_declarations_iff, foreign_mem_values]
  rfl

theorem library?_eq_some_iff {g : TargetGraph} {label : Label} {t : Library} :
    g.library? label = some t ↔ t ∈ g.libraries ∧ t.label = label := by
  rw [← get?_declarations_library, library?]
  cases g.declarations.get? label with
  | none => simp
  | some declaration => cases declaration <;> simp [Declaration.library?]

theorem eq_of_label_eq {g : TargetGraph} {t u : Library} (ht : t ∈ g.libraries)
    (hu : u ∈ g.libraries) (same : t.label = u.label) : t = u := by
  have ht := library?_eq_some_iff.mpr ⟨ht, same⟩
  have hu := library?_eq_some_iff.mpr ⟨hu, rfl⟩
  exact Option.some.inj (ht.symm.trans hu)

theorem nodup_labels_filterMap (g : TargetGraph) {α : Type} {label : α → Label}
    {part : Declaration → Option α} (faithful : ∀ {d a}, part d = some a → d.label = label a) :
    ((g.declarations.values.filterMap part).map label).Nodup := by
  rw [SortedMap.values, List.filterMap_map]
  refine List.pairwise_map.mpr (List.pairwise_filterMap.mpr ?_)
  refine g.declarations.sorted.imp_of_mem fun {x y} hx hy lt a ha b hb same => ?_
  refine SortedMap.key_ne_of_lt lt ?_
  rw [← g.keyed x hx, ← g.keyed y hy, faithful ha, faithful hb, same]

theorem nodup_labels (g : TargetGraph) : (g.libraries.map (·.label)).Nodup :=
  g.nodup_labels_filterMap fun {d _} h => by
    cases d <;> cases h
    rfl

theorem nodup_foreign_labels (g : TargetGraph) : (g.foreign.map (·.label)).Nodup :=
  g.nodup_labels_filterMap fun {d _} h => by
    cases d <;> cases h
    rfl

def size (g : TargetGraph) : Nat :=
  g.libraries.length

def isEmpty (g : TargetGraph) : Bool :=
  g.libraries.isEmpty

/-- The libraries that a library names as its dependencies. Foreign libraries are ready from the
start, so they play no part in any order. -/
def libraryDeps (g : TargetGraph) (t : Library) : List Label :=
  t.deps.filter fun dep => (g.library? dep).isSome

/-- The first dependency that is not declared, with the library that names it. -/
def undeclared? (g : TargetGraph) : Option (Label × Label) :=
  g.libraries.findSome? fun t =>
    (t.deps.find? fun dep => !g.contains dep).map (t.label, ·)

/-- Checks that every dependency is declared. -/
def validate (g : TargetGraph) : Except PlanError Unit :=
  match g.undeclared? with
  | some (target, dependency) => .error (.dependencyNotFound target dependency)
  | none => .ok ()

end TargetGraph

end ObjcPlan
