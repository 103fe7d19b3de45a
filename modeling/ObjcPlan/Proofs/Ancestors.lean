import ObjcPlan.Proofs.Lexical
import Mathlib.Data.List.DropRight

/-! The directories above paths, and among them containers: directories of a given kind. The
container of a file has the names of the innermost directory above it whose own name fits
(`Path.container?_eq_find?`). A root, a `.` or a `..` that also leads there is left out, so the
container is above the file exactly if there is none (`Path.isAbove_iff`). -/

namespace ObjcPlan

namespace Path

variable {p q a : Path} {suffixes : List String}

/-- The directories above the path, from the one that holds it on. -/
def ancestors (p : Path) : List Path :=
  match _found : p.parent? with
  | some above => above :: above.ancestors
  | none => []
termination_by p.text.length
decreasing_by exact length_parent? _found

/-- The names among the components. -/
def names (p : Path) : List String :=
  p.components.filterMap Component.name?

/-- Whether a name ends with one of the suffixes. -/
def fits (suffixes : List String) (name : String) : Bool :=
  suffixes.any fun suffix => suffix.toList.isSuffixOf name.toList

/-- Whether the last component is a name that ends with one of the suffixes. -/
def isContainer (suffixes : List String) (p : Path) : Bool :=
  p.fileName?.any (fits suffixes)

/-! ### Ancestors -/

theorem ancestors_of_none (top : p.parent? = none) : p.ancestors = [] := by
  rw [ancestors]
  split
  · next above found => simp [top] at found
  · rfl

theorem ancestors_of_some (found : p.parent? = some a) : p.ancestors = a :: a.ancestors := by
  rw [ancestors]
  split
  · next above found' =>
    obtain rfl := Option.some.inj (found.symm.trans found')
    rfl
  · next top => simp [found] at top

theorem names_of_parent?_eq_none (top : p.parent? = none) : p.names = [] := by
  unfold parent? at top
  unfold names
  split at top
  · next first rest pieces =>
    rw [components_of_rooted pieces,
      dropLastSegment?_eq_none_iff.mp (Option.map_eq_none_iff.mp top)]
    rfl
  · split at top <;> cases top
  · next rooted current =>
    have none := dropLastSegment?_eq_none_iff.mp (Option.map_eq_none_iff.mp top)
    rw [filterMap_name?_components, steps, none]
    rfl

theorem prefix_of_mem_ancestors (mem : a ∈ p.ancestors) :
    a.components <+: p.components.dropLast := by
  induction p using ancestors.induct with
  | case1 p above found ih =>
    rw [ancestors_of_some found] at mem
    rw [← components_parent? found]
    rcases List.mem_cons.mp mem with rfl | higher
    · exact List.prefix_rfl
    · exact (ih higher).trans (List.dropLast_prefix _)
  | case2 p top => simp [ancestors_of_none top] at mem

/-- Each directory above a path starts with those after it. -/
theorem pairwise_ancestors (p : Path) :
    p.ancestors.Pairwise fun a b => b.components <+: a.components := by
  induction p using ancestors.induct with
  | case1 p above found ih =>
    rw [ancestors_of_some found]
    refine List.pairwise_cons.mpr ⟨fun b mem => ?_, ih⟩
    exact (prefix_of_mem_ancestors mem).trans (List.dropLast_prefix _)
  | case2 p top =>
    rw [ancestors_of_none top]
    exact List.Pairwise.nil

/-! ### Containers -/

theorem names_dropLast_of_parent?_eq_none (top : p.parent? = none) :
    p.components.dropLast.filterMap Component.name? = [] := by
  have shorter := (List.dropLast_sublist p.components).filterMap Component.name?
  rw [show p.components.filterMap Component.name? = [] from names_of_parent?_eq_none top] at shorter
  exact List.sublist_nil.mp shorter

theorem isContainer_of_concat {front : List Component} {c : Component}
    (whole : p.components = front ++ [c]) :
    p.isContainer suffixes = c.name?.any (fits suffixes) := by
  simp [isContainer, fileName?, whole]

/-- The names above a path up to the last that fits are those of the first directory above it whose
name fits. -/
theorem rdropWhile_names (suffixes : List String) (p : Path) :
    (p.components.dropLast.filterMap Component.name?).rdropWhile (!fits suffixes ·) =
      (p.ancestors.find? (isContainer suffixes)).elim [] names := by
  -- the last component of the parent is the next name to keep or to drop, or else is no name
  induction p using ancestors.induct with
  | case1 p above found ih =>
    rw [ancestors_of_some found, ← components_parent? found]
    rcases List.eq_nil_or_concat above.components with none | ⟨front, c, whole⟩
    · have misfit : above.isContainer suffixes = false := by
        simp [isContainer, fileName?, none]
      rw [List.find?_cons_of_neg (by simp [misfit]), ← ih, none]
      rfl
    · rw [whole, List.concat_eq_append, List.dropLast_concat] at ih
      rw [List.concat_eq_append] at whole
      have last : above.isContainer suffixes = c.name?.any (fits suffixes) :=
        isContainer_of_concat whole
      cases isName : c.name? with
      | none =>
        rw [List.find?_cons_of_neg (by simp [last, isName]), ← ih, whole, List.filterMap_append,
          List.filterMap_cons_none isName, List.filterMap_nil, List.append_nil]
      | some name =>
        have names : (front ++ [c]).filterMap Component.name? =
            front.filterMap Component.name? ++ [name] := by
          simp [isName]
        by_cases fitting : fits suffixes name = true
        · rw [List.find?_cons_of_pos (by simp [last, isName, fitting]), whole, names,
            List.rdropWhile_concat_neg _ _ _ (by simp [fitting]), ← names, ← whole]
          rfl
        · rw [List.find?_cons_of_neg (by simp [last, isName, fitting]), ← ih, whole, names,
            List.rdropWhile_concat_pos _ _ _ (by simp [fitting])]
  | case2 p top =>
    rw [ancestors_of_none top, names_dropLast_of_parent?_eq_none top]
    rfl

/-- The container is told by the names above the path up to the last that fits. -/
theorem container?_eq (suffixes : List String) (p : Path) :
    p.container? suffixes =
      match (p.components.dropLast.filterMap Component.name?).rdropWhile (!fits suffixes ·) with
      | [] => none
      | kept => some (ofComponents (kept.map .name)) := by
  unfold container?
  cases found : p.parent? with
  | none =>
    rw [names_dropLast_of_parent?_eq_none found]
    rfl
  | some above =>
    rw [← components_parent? found]
    show (match (above.components.filterMap Component.name?).reverse.dropWhile
      (!fits suffixes ·) with | [] => _ | kept => _) = _
    unfold List.rdropWhile
    cases (above.components.filterMap Component.name?).reverse.dropWhile (!fits suffixes ·) with
    | nil => rfl
    | cons last rest =>
      simp

theorem isSome_container?_iff : (p.container? suffixes).isSome = true ↔
    ∃ name ∈ p.components.dropLast.filterMap Component.name?, fits suffixes name = true := by
  rw [container?_eq]
  split
  · next nil =>
    have misfits := List.rdropWhile_eq_nil_iff.mp nil
    simpa using misfits
  · next notNil =>
    have fitting := mt List.rdropWhile_eq_nil_iff.mpr notNil
    push Not at fitting
    simpa only [Option.isSome_some, true_iff, Bool.not_eq_true, Bool.not_eq_false'] using fitting

/-- Two paths above which are the same components have the same container. -/
theorem container?_congr (same : p.components = q.components) :
    p.container? suffixes = q.container? suffixes := by
  rw [container?_eq, container?_eq, same]

theorem isStep_of_mem_names {name : String} (mem : name ∈ p.names) :
    (Component.name name).IsStep := by
  unfold names at mem
  rw [filterMap_name?_components] at mem
  obtain ⟨c, isStep, isName⟩ := List.mem_filterMap.mp mem
  obtain rfl : c = .name name := by
    cases c <;> simp_all [Component.name?]
  exact isStep_of_mem_steps _ isStep

theorem components_ofComponents_names (p : Path) :
    (ofComponents (p.names.map .name)).components = p.names.map .name := by
  apply components_ofComponents
  intro c mem
  obtain ⟨name, isName, rfl⟩ := List.mem_map.mp mem
  exact isStep_of_mem_names isName

theorem isContainer_iff : p.isContainer suffixes = true ↔
    ∃ front name, p.components = front ++ [.name name] ∧ fits suffixes name = true := by
  constructor
  · intro isContainer
    obtain ⟨name, isName, fitting⟩ := (Option.any_eq_true ..).mp isContainer
    obtain ⟨c, last, isName⟩ := Option.bind_eq_some_iff.mp isName
    obtain ⟨front, whole⟩ := List.getLast?_eq_some_iff.mp last
    cases c with
    | name text =>
      obtain rfl := Option.some.inj isName
      exact ⟨front, _, whole, fitting⟩
    | _ => cases isName
  · rintro ⟨front, name, whole, fitting⟩
    rw [isContainer_of_concat whole]
    exact fitting

/-- The container of a path has the names of the first directory above it whose name fits. -/
theorem container?_eq_find? (suffixes : List String) (p : Path) :
    p.container? suffixes =
      (p.ancestors.find? (isContainer suffixes)).map fun a => ofComponents (a.names.map .name) := by
  rw [container?_eq, rdropWhile_names]
  cases found : p.ancestors.find? (isContainer suffixes) with
  | none => rfl
  | some a =>
    obtain ⟨front, name, whole, _⟩ := isContainer_iff.mp (List.find?_some found)
    have names : a.names ≠ [] := by simp [names, whole, Component.name?]
    obtain ⟨first, rest, names⟩ := List.exists_cons_of_ne_nil names
    simp [names]

/-- The second is, of the directories above the first whose names fit, the longest one. -/
structure IsInnermost (suffixes : List String) (p a : Path) : Prop where
  mem : a ∈ p.ancestors
  fits : a.isContainer suffixes = true
  longest : ∀ b ∈ p.ancestors, b.isContainer suffixes = true → b.components <+: a.components

/-- Where each directory starts with those after it, the first that passes a test is the longest
one. -/
theorem prefix_of_find? {dirs : List Path} {test : Path → Bool}
    (sorted : dirs.Pairwise fun a b => b.components <+: a.components)
    (found : dirs.find? test = some a) :
    ∀ b ∈ dirs, test b = true → b.components <+: a.components := by
  intro b mem passes
  obtain ⟨_, nearer, farther, rfl, fails⟩ := List.find?_eq_some_iff_append.mp found
  have below := (List.pairwise_cons.mp (List.pairwise_append.mp sorted).2.1).1
  rcases List.mem_append.mp mem with near | far
  · simpa [passes] using fails b near
  · rcases List.mem_cons.mp far with rfl | far
    · exact List.prefix_rfl
    · exact below b far

theorem isInnermost_of_find? (found : p.ancestors.find? (isContainer suffixes) = some a) :
    IsInnermost suffixes p a :=
  ⟨List.mem_of_find?_eq_some found, List.find?_some found,
    prefix_of_find? p.pairwise_ancestors found⟩

/-- Whether the path has no root, no leading `.` and no `..`. -/
def HasOnlyNames (p : Path) : Prop :=
  ∀ c ∈ p.components, c.name?.isSome = true

instance (p : Path) : Decidable p.HasOnlyNames :=
  inferInstanceAs (Decidable (∀ c ∈ p.components, _))

/-- Whether the first is a directory above the second, in some spelling. -/
def IsAbove (dir p : Path) : Prop :=
  ∃ a ∈ p.ancestors, a.components = dir.components

instance (dir p : Path) : Decidable (dir.IsAbove p) :=
  inferInstanceAs (Decidable (∃ a ∈ p.ancestors, _))

theorem map_names_of_hasOnlyNames (onlyNames : p.HasOnlyNames) :
    p.names.map .name = p.components := by
  have map {cs : List Component} (onlyNames : ∀ c ∈ cs, c.name?.isSome = true) :
      (cs.filterMap Component.name?).map .name = cs := by
    induction cs with
    | nil => rfl
    | cons c rest ih =>
      obtain ⟨first, others⟩ := List.forall_mem_cons.mp onlyNames
      cases c with
      | name text => exact congrArg (.name text :: ·) (ih others)
      | _ => cases first
  exact map onlyNames

/-- If some components that end in a name start with the names among them, these are all. -/
theorem isName_of_prefix {front rest : List Component} {name : String}
    (start : ((front ++ [Component.name name]).filterMap Component.name?).map Component.name <+:
      front ++ [.name name] ++ rest) : ∀ c ∈ front ++ [.name name], c.name?.isSome = true := by
  induction front with
  | nil => simp [Component.name?]
  | cons c front ih =>
    cases c with
    | name text =>
      have start := (List.cons_prefix_cons.mp start).2
      exact List.forall_mem_cons.mpr ⟨rfl, ih start⟩
    | _ =>
      have names : (front ++ [Component.name name]).filterMap Component.name? ≠ [] := by
        simp [Component.name?]
      obtain ⟨first, others, names⟩ := List.exists_cons_of_ne_nil names
      rw [List.cons_append, List.filterMap_cons_none rfl, names] at start
      cases (List.cons_prefix_cons.mp start).1

theorem isAbove_iff {dir : Path} (innermost : IsInnermost suffixes p a)
    (same : dir.components = a.names.map .name) : dir.IsAbove p ↔ a.HasOnlyNames := by
  constructor
  · rintro ⟨b, isAncestor, same'⟩
    obtain ⟨front, name, whole, _⟩ := isContainer_iff.mp innermost.fits
    have start := (prefix_of_mem_ancestors innermost.mem).trans (List.dropLast_prefix _)
    have start' := (prefix_of_mem_ancestors isAncestor).trans (List.dropLast_prefix _)
    obtain ⟨rest, isRest⟩ := start
    rw [same', same, ← isRest, names, whole] at start'
    unfold HasOnlyNames
    rw [whole]
    exact isName_of_prefix start'
  · intro onlyNames
    exact ⟨a, innermost.mem, by rw [same, map_names_of_hasOnlyNames onlyNames]⟩

theorem components_eq_iff {dir : Path} (innermost : IsInnermost suffixes p a)
    (same : dir.components = a.names.map .name) :
    dir.components = a.components ↔ a.HasOnlyNames := by
  constructor
  · intro whole
    exact (isAbove_iff innermost same).mp ⟨a, innermost.mem, whole.symm⟩
  · intro onlyNames
    rw [same, map_names_of_hasOnlyNames onlyNames]

/-- Whether the first has the names of the innermost directory above the second that fits. It is
that directory, and above the second at all, exactly if that has nothing but names. -/
def IsContainerOf (suffixes : List String) (dir p : Path) : Prop :=
  ∃ a, IsInnermost suffixes p a ∧ dir.components = a.names.map .name ∧
    (dir.components = a.components ↔ a.HasOnlyNames) ∧ (dir.IsAbove p ↔ a.HasOnlyNames)

theorem container?_eq_none_iff : p.container? suffixes = none ↔
    ∀ a ∈ p.ancestors, a.isContainer suffixes = false := by
  rw [container?_eq_find?, Option.map_eq_none_iff, List.find?_eq_none]
  simp

theorem isContainerOf_of_container? {dir : Path} (found : p.container? suffixes = some dir) :
    IsContainerOf suffixes dir p := by
  rw [container?_eq_find?] at found
  obtain ⟨a, isFirst, rfl⟩ := Option.map_eq_some_iff.mp found
  have innermost := isInnermost_of_find? isFirst
  have same := a.components_ofComponents_names
  exact ⟨a, innermost, same, components_eq_iff innermost same, isAbove_iff innermost same⟩

theorem IsContainerOf.congr {dir dir' : Path} (same : dir.components = dir'.components)
    (holds : IsContainerOf suffixes dir p) : IsContainerOf suffixes dir' p := by
  unfold IsContainerOf IsAbove at holds ⊢
  rwa [← same]

end Path

end ObjcPlan
