import Mathlib.Data.List.GetD
import Mathlib.Order.Bounds.Basic
import ObjcPlan.Proofs.Locality

/-! How deep a library stands: the length of the longest chain of libraries below it, each of which
needs the next. The groups of a graph are its libraries by depth, each group in the order of labels
(`mem_buildGroups_iff`). -/

namespace ObjcPlan.TargetGraph

variable {g : TargetGraph} {groups : List (List Library)} {waiting : List Library} {t u : Library}

/-- One library of the graph needs another, or itself. -/
def Requires (g : TargetGraph) (t u : Library) : Prop :=
  t ∈ g.libraries ∧ u ∈ g.libraries ∧ t.Needs u

/-- The libraries of a cycle of names are libraries of the graph. -/
theorem exists_transGen_requires {label : Label} (names : Relation.TransGen g.Names label u.label)
    (declared : u ∈ g.libraries) :
    ∃ t ∈ g.libraries, t.label = label ∧ Relation.TransGen g.Requires t u := by
  induction names using Relation.TransGen.head_induction_on with
  | single names =>
    obtain ⟨t, member, rfl, needs⟩ := names
    exact ⟨t, member, rfl, .single ⟨member, declared, needs⟩⟩
  | head names _ ih =>
    obtain ⟨t, member, rfl, needs⟩ := names
    obtain ⟨next, member', rfl, path⟩ := ih
    exact ⟨t, member, rfl, .head ⟨member, member', needs⟩ path⟩

theorem acyclic_iff_requires : g.Acyclic ↔ ∀ t, ¬ Relation.TransGen g.Requires t t := by
  constructor
  · intro acyclic t cycle
    have names (t u : Library) (requires : g.Requires t u) : g.Names t.label u.label :=
      ⟨t, requires.1, rfl, requires.2.2⟩
    exact acyclic t.label (Relation.TransGen.lift Library.label names t t cycle)
  · intro acyclic label cycle
    obtain ⟨_, ⟨u, member, rfl, _⟩, _⟩ := Relation.TransGen.head'_iff.mp cycle
    obtain ⟨t, member', same, path⟩ := exists_transGen_requires cycle member
    obtain rfl := eq_of_label_eq member' member same
    exact acyclic t path

/-! ### Depths -/

/-- The lengths of the chains of libraries that go down from a library. -/
def chainLengths (g : TargetGraph) (t : Library) : Set Nat :=
  { n | ∃ chain, List.IsChain g.Requires (t :: chain) ∧ chain.length = n }

/-- Whether the longest chain of libraries below a library of the graph has length `k`. -/
def HasDepth (g : TargetGraph) (t : Library) (k : Nat) : Prop :=
  t ∈ g.libraries ∧ IsGreatest (g.chainLengths t) k

theorem zero_mem_chainLengths : 0 ∈ g.chainLengths t :=
  ⟨[], .singleton t, rfl⟩

theorem succ_mem_chainLengths {n : Nat} :
    n + 1 ∈ g.chainLengths t ↔ ∃ u, g.Requires t u ∧ n ∈ g.chainLengths u := by
  constructor
  · rintro ⟨_ | ⟨u, chain⟩, path, length⟩
    · contradiction
    · obtain ⟨first, rest⟩ := List.isChain_cons_cons.mp path
      exact ⟨u, first, chain, rest, Nat.succ.inj length⟩
  · rintro ⟨u, first, chain, rest, rfl⟩
    exact ⟨u :: chain, List.isChain_cons_cons.mpr ⟨first, rest⟩, rfl⟩

theorem HasDepth.eq {k k' : Nat} (depth : g.HasDepth t k) (depth' : g.HasDepth t k') : k = k' :=
  depth.2.unique depth'.2

theorem HasDepth.lt_of_requires {k n : Nat} (depth : g.HasDepth t k) (depth' : g.HasDepth u n)
    (requires : g.Requires t u) : n < k :=
  depth.2.2 (succ_mem_chainLengths.mpr ⟨u, requires, depth'.2.1⟩)

/-- A library above the ground needs one that stands right below it. -/
theorem HasDepth.exists_requires {k : Nat} (depth : g.HasDepth t (k + 1)) :
    ∃ u, g.Requires t u ∧ k ∈ g.chainLengths u :=
  succ_mem_chainLengths.mp depth.2.1

/-- A chain that is longer than all chains below it by one is the longest. -/
theorem hasDepth_of_below {k : Nat} (member : t ∈ g.libraries) (reached : k ∈ g.chainLengths t)
    (below : ∀ u, g.Requires t u → ∃ n < k, g.HasDepth u n) : g.HasDepth t k := by
  refine ⟨member, reached, ?_⟩
  rintro (_ | n) isLength
  · exact Nat.zero_le k
  · obtain ⟨u, requires, isLength⟩ := succ_mem_chainLengths.mp isLength
    obtain ⟨m, less, depth⟩ := below u requires
    exact lt_of_le_of_lt (depth.2.2 isLength) less

/-! ### Groups -/

/-- With the induction on what waits go the depths of both sides: the libraries that wait stand at
`k` at least, and all others stand lower. -/
theorem hasDepth_groupsOf? (h : groupsOf? waiting = some groups) (declared : waiting ⊆ g.libraries)
    {k : Nat} (deep : ∀ t ∈ waiting, k ∈ g.chainLengths t)
    (others : ∀ t ∈ g.libraries, t ∉ waiting → ∃ n < k, g.HasDepth t n) :
    ∀ i, ∀ t ∈ groups.getD i [], g.HasDepth t (k + i) := by
  induction waiting using groupsOf?.induct generalizing k groups with
  | case1 =>
    rw [groupsOf?, if_pos rfl] at h
    obtain rfl := Option.some.inj h
    simp
  | case2 waiting _ stuck => simp_all [groupsOf?]
  | case3 waiting some_wait some_free ih =>
    rw [groupsOf?, if_neg some_wait, dif_neg some_free] at h
    obtain ⟨rest, found, rfl⟩ := Option.map_eq_some_iff.mp h
    have now : ∀ t ∈ free waiting, g.HasDepth t k := by
      intro t mem
      have waits := List.mem_of_mem_filter mem
      refine hasDepth_of_below (declared waits) (deep t waits) fun u requires => ?_
      exact others u requires.2.1 fun waits' => not_needs_of_free mem waits' requires.2.2
    rintro (_ | i) t mem
    · exact now t mem
    · rw [Nat.add_comm i 1, ← Nat.add_assoc]
      refine ih found (fun t mem => declared (List.mem_of_mem_filter mem)) (fun t mem => ?_)
        (fun t member done => ?_) i t (by simpa using mem)
      · obtain ⟨u, waits, needs⟩ := needs_of_bound mem
        have requires : g.Requires t u :=
          ⟨declared (List.mem_of_mem_filter mem), declared waits, needs⟩
        exact succ_mem_chainLengths.mpr ⟨u, requires, deep u waits⟩
      · by_cases waits : t ∈ waiting
        · have split := (free_append_bound waiting).mem_iff.mpr waits
          have isFree := (List.mem_append.mp split).resolve_right done
          exact ⟨k, Nat.lt_succ_self k, now t isFree⟩
        · obtain ⟨n, less, depth⟩ := others t member waits
          exact ⟨n, Nat.lt_succ_of_lt less, depth⟩

theorem sublist_groupsOf? (h : groupsOf? waiting = some groups) :
    ∀ group ∈ groups, group ≠ [] ∧ group.Sublist waiting := by
  induction waiting using groupsOf?.induct generalizing groups with
  | case1 =>
    rw [groupsOf?, if_pos rfl] at h
    obtain rfl := Option.some.inj h
    simp
  | case2 waiting _ stuck => simp_all [groupsOf?]
  | case3 waiting some_wait some_free ih =>
    rw [groupsOf?, if_neg some_wait, dif_neg some_free] at h
    obtain ⟨rest, found, rfl⟩ := Option.map_eq_some_iff.mp h
    refine List.forall_mem_cons.mpr ⟨⟨some_free, List.filter_sublist⟩, fun group mem => ?_⟩
    obtain ⟨nonempty, sublist⟩ := ih found group mem
    exact ⟨nonempty, sublist.trans List.filter_sublist⟩

theorem groupsOf?_of_buildGroups (h : g.buildGroups = .ok groups) :
    groupsOf? g.libraries = some groups := by
  unfold buildGroups at h
  split at h
  · next found =>
    obtain rfl := Except.ok.inj h
    exact found
  · contradiction

/-- The group with number `k` holds the libraries with depth `k`. -/
theorem mem_buildGroups_iff (h : g.buildGroups = .ok groups) (k : Nat) (t : Library) :
    t ∈ groups.getD k [] ↔ g.HasDepth t k := by
  have found := groupsOf?_of_buildGroups h
  have placed : ∀ i, ∀ t ∈ groups.getD i [], g.HasDepth t i := by
    simpa using hasDepth_groupsOf? found (List.Subset.refl _) (k := 0)
      (fun t _ => zero_mem_chainLengths) (fun t member absent => absurd member absent)
  refine ⟨placed k t, fun depth => ?_⟩
  have handled := (flatten_groupsOf? found).mem_iff.mpr depth.1
  obtain ⟨group, isGroup, mem⟩ := List.mem_flatten.mp handled
  obtain ⟨i, inside, rfl⟩ := List.getElem_of_mem isGroup
  have mem : t ∈ groups.getD i [] := by rwa [List.getD_eq_getElem _ _ inside]
  obtain rfl := (placed i t mem).eq depth
  exact mem

theorem sorted_libraries (g : TargetGraph) :
    g.libraries.Pairwise fun t u => compare t.label u.label = .lt := by
  have library_label {d : Declaration} {t : Library} (h : t ∈ d.library?) : d.label = t.label := by
    cases d <;> cases h
    rfl
  rw [libraries, SortedMap.values, List.filterMap_map]
  refine List.pairwise_filterMap.mpr ?_
  refine g.declarations.sorted.imp_of_mem fun {x y} hx hy lt t ht u hu => ?_
  rw [← library_label ht, ← library_label hu, g.keyed x hx, g.keyed y hy]
  exact lt

end ObjcPlan.TargetGraph
