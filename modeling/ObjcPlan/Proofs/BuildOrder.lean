import ObjcPlan.Proofs.DegreeTable
import ObjcPlan.Proofs.Depths

/-! The order of the queue. Libraries leave it by depth, since those that join its end stand one
deeper than the one that leaves (`Queue.depth_of_ready`), so the order is the groups one after the
other, each in some order of its own. Both ways to order a graph fail on the same graphs, those with
a cycle (`TargetGraph.orders_by_depth`). -/

namespace ObjcPlan.TargetGraph

variable {g : TargetGraph} {groups : List (List Library)} {done queue order : List Library}
  {waiting : List Waiting} {next : Library} {depth : Library → Nat}

/-! ### Depths along the queue -/

/-- What was handled and what is in the queue goes by depth, and the queue spans two depths at
most. -/
structure Leveled (depth : Library → Nat) (done queue : List Library) : Prop where
  sorted : (done ++ queue).Pairwise fun t u => depth t ≤ depth u
  near : ∀ t ∈ queue, ∀ u ∈ queue, depth t ≤ depth u + 1

section

variable (deep : ∀ t ∈ g.libraries, g.HasDepth t (depth t))

include deep

theorem depth_eq_zero {t : Library} (member : t ∈ g.libraries)
    (none_needed : ∀ u, ¬ g.Requires t u) : depth t = 0 := by
  cases isDepth : depth t with
  | zero => rfl
  | succ k =>
    obtain ⟨u, requires, _⟩ := (isDepth ▸ deep t member).exists_requires
    exact absurd requires (none_needed u)

/-- A library that needs one of depth `k`, and no deeper ones, stands right above it. -/
theorem depth_eq_succ {t u : Library} (requires : g.Requires t u)
    (deepest : ∀ v, g.Requires t v → depth v ≤ depth u) : depth t = depth u + 1 := by
  have above := (deep t requires.1).lt_of_requires (deep u requires.2.1) requires
  cases isDepth : depth t with
  | zero => omega
  | succ k =>
    obtain ⟨v, requires', reached⟩ := (isDepth ▸ deep t requires.1).exists_requires
    have le := (deep v requires'.2.1).2.2 reached
    have := deepest v requires'
    omega

/-- The library that joins the queue was only waiting for the one that leaves it, which is one of
the deepest that were handled. -/
theorem Queue.depth_of_ready (q : g.Queue done (next :: queue) waiting)
    (leveled : Leveled depth done (next :: queue)) {t : Library}
    (joins : t ∈ Waiting.ready (Waiting.settle next waiting)) : depth t = depth next + 1 := by
  have needed := q.step.ready t (List.mem_append_right _ joins)
  obtain ⟨settled, isReady, rfl⟩ := List.mem_map.mp joins
  obtain ⟨isSettled, met⟩ := List.mem_filter.mp isReady
  obtain ⟨w, waits, rfl⟩ := List.mem_map.mp isSettled
  rw [library_after] at needed ⊢
  have needs : w.library.Needs next := by
    by_contra idle
    have unchanged : Waiting.after next w = w := if_neg idle
    rw [unchanged] at met
    exact q.blocked w waits (by simpa using met)
  have declared : w.library ∈ g.libraries :=
    q.complete.subset (List.mem_append_right _ (List.mem_map_of_mem waits))
  refine depth_eq_succ deep ⟨declared, q.declared (.inr List.mem_cons_self), needs⟩ ?_
  rintro u ⟨_, member, needs'⟩
  rcases List.mem_append.mp (needed u member needs') with mem | mem
  · exact (List.pairwise_append.mp leveled.sorted).2.2 u mem next List.mem_cons_self
  · rw [List.mem_singleton.mp mem]

theorem Leveled.step (q : g.Queue done (next :: queue) waiting)
    (leveled : Leveled depth done (next :: queue)) :
    Leveled depth (done ++ [next]) (queue ++ Waiting.ready (Waiting.settle next waiting)) := by
  have joins {t : Library} := q.depth_of_ready deep leveled (t := t)
  obtain ⟨_, inQueue, across⟩ := List.pairwise_append.mp leveled.sorted
  have after := (List.pairwise_cons.mp inQueue).1
  have near : ∀ t ∈ queue, depth t ≤ depth next + 1 := fun t mem =>
    leveled.near t (List.mem_cons_of_mem _ mem) next List.mem_cons_self
  constructor
  · have split : done ++ [next] ++ (queue ++ Waiting.ready (Waiting.settle next waiting)) =
        done ++ next :: queue ++ Waiting.ready (Waiting.settle next waiting) := by simp
    rw [split]
    refine List.pairwise_append.mpr ⟨leveled.sorted, ?_, fun t before u mem => ?_⟩
    · exact List.pairwise_of_forall_mem_list fun t mem u mem' => (joins mem).le.trans (joins mem').ge
    · rw [joins mem]
      rcases List.mem_append.mp before with mem | mem
      · exact Nat.le_succ_of_le (across t mem next List.mem_cons_self)
      · rcases List.mem_cons.mp mem with rfl | mem
        · exact Nat.le_succ _
        · exact near t mem
  · have bounds : ∀ t ∈ queue ++ Waiting.ready (Waiting.settle next waiting),
        depth next ≤ depth t ∧ depth t ≤ depth next + 1 := by
      intro t mem
      rcases List.mem_append.mp mem with mem | mem
      · exact ⟨after t mem, near t mem⟩
      · rw [joins mem]
        exact ⟨Nat.le_succ _, le_rfl⟩
    exact fun t mem u mem' => (bounds t mem).2.trans (Nat.succ_le_succ (bounds u mem').1)

theorem Leveled.start :
    Leveled depth [] (Waiting.ready (g.libraries.map (Waiting.start g))) := by
  have q := Queue.start g
  have ground : ∀ t ∈ Waiting.ready (g.libraries.map (Waiting.start g)), depth t = 0 := by
    refine fun t mem => depth_eq_zero deep (q.declared (.inr mem)) ?_
    rintro u ⟨_, member, needs⟩
    simpa using q.ready t mem u member needs
  constructor
  · exact List.pairwise_of_forall_mem_list fun t mem u mem' =>
      (ground t mem).le.trans (Nat.zero_le _)
  · exact fun t mem u mem' => (ground t mem).le.trans (Nat.zero_le _)

theorem sorted_orderOf? (q : g.Queue done queue waiting) (leveled : Leveled depth done queue)
    (found : orderOf? queue waiting = some order) :
    (done ++ order).Pairwise fun t u => depth t ≤ depth u := by
  fun_induction orderOf? queue waiting generalizing done order with
  | case1 waiting empty =>
    obtain rfl := Option.some.inj found
    exact leveled.sorted
  | case2 waiting nonempty => contradiction
  | case3 waiting next queue settled =>
    rename_i ih
    obtain ⟨rest, later, rfl⟩ := Option.map_eq_some_iff.mp found
    simpa using ih q.step (leveled.step deep q) later

end

/-! ### Groups along the order -/

theorem filter_append_of_sorted {α : Type} {p : α → Bool} {l : List α}
    (first : l.Pairwise fun a b => p b = true → p a = true) :
    l.filter p ++ l.filter (fun a => !p a) = l := by
  induction l with
  | nil => rfl
  | cons a rest ih =>
    obtain ⟨now, later⟩ := List.pairwise_cons.mp first
    cases passes : p a with
    | true => simp [passes, ih later]
    | false =>
      have none_pass : ∀ b ∈ rest, p b = false := fun b mem => by
        cases passes' : p b with
        | false => rfl
        | true => simp [now b mem passes'] at passes
      have fails : rest.filter p = [] := List.filter_eq_nil_iff.mpr fun b mem => by
        simp [none_pass b mem]
      simpa [passes, fails] using none_pass

/-- A list that goes by rank is its parts of each rank, one after the other. -/
theorem flatten_ranks {α : Type} {rank : α → Nat} {l : List α}
    (sorted : l.Pairwise fun a b => rank a ≤ rank b) {n : Nat} (bound : ∀ a ∈ l, rank a < n) :
    ((List.range n).map fun k => l.filter (rank · = k)).flatten = l := by
  induction n generalizing l with
  | zero =>
    rw [List.eq_nil_iff_forall_not_mem.mpr fun a mem => absurd (bound a mem) (Nat.not_lt_zero _)]
    rfl
  | succ n ih =>
    have lower := ih (l := l.filter (rank · < n)) (sorted.filter _) fun a mem => by
      simpa using (List.mem_filter.mp mem).2
    have top : l.filter (rank · = n) = l.filter fun a => !decide (rank a < n) :=
      List.filter_congr fun a mem => by
        have := bound a mem
        simp only [decide_eq_decide, ← decide_not, not_lt]
        omega
    have below : ∀ k ∈ List.range n,
        l.filter (rank · = k) = (l.filter (rank · < n)).filter (rank · = k) := by
      intro k mem
      have := List.mem_range.mp mem
      rw [List.filter_filter]
      refine List.filter_congr fun a _ => ?_
      by_cases same : rank a = k <;> simp [same, this]
    rw [List.range_succ, List.map_append, List.flatten_append, List.map_congr_left below, lower]
    simp only [List.map_cons, List.map_nil, List.flatten_singleton, top]
    refine filter_append_of_sorted (sorted.imp fun {a b} le passes => ?_)
    simp only [decide_eq_true_eq] at passes ⊢
    omega

/-- Each library comes after those that it needs. -/
theorem Ready.mem_of_eq {order : List Library} (ready : g.Ready done (order.map ([·])))
    {before after : List Library} {t u : Library} (split : order = before ++ t :: after)
    (requires : g.Requires t u) : u ∈ done ++ before := by
  induction before generalizing done order with
  | nil =>
    subst split
    rw [List.append_nil]
    exact ready.1 t (by simp) u requires.2.1 requires.2.2
  | cons first before ih =>
    subst split
    simpa using ih ready.2 rfl

theorem exists_hasDepth (h : g.buildGroups = .ok groups) {t : Library} (member : t ∈ g.libraries) :
    ∃ k < groups.length, g.HasDepth t k := by
  have handled := (flatten_groupsOf? (groupsOf?_of_buildGroups h)).mem_iff.mpr member
  obtain ⟨group, isGroup, mem⟩ := List.mem_flatten.mp handled
  obtain ⟨k, inside, rfl⟩ := List.getElem_of_mem isGroup
  refine ⟨k, inside, (mem_buildGroups_iff h k t).mp ?_⟩
  rwa [List.getD_eq_getElem _ _ inside]

theorem nodup_getD_groups (h : g.buildGroups = .ok groups) (k : Nat) : (groups.getD k []).Nodup := by
  by_cases inside : k < groups.length
  · rw [List.getD_eq_getElem _ _ inside]
    have sublist := (sublist_groupsOf? (groupsOf?_of_buildGroups h) _
      (List.getElem_mem inside)).2
    exact g.nodup_libraries.sublist sublist
  · rw [List.getD_eq_default _ _ (Nat.le_of_not_lt inside)]
    exact List.nodup_nil

/-- An order by depth is the groups one after the other, each in an order of its own. -/
theorem exists_parts (h : g.buildGroups = .ok groups) (complete : order.Perm g.libraries)
    (sorted : ∀ depth : Library → Nat, (∀ t ∈ g.libraries, g.HasDepth t (depth t)) →
      order.Pairwise fun t u => depth t ≤ depth u) :
    ∃ parts, order = parts.flatten ∧ List.Forall₂ List.Perm parts groups := by
  have standing : ∀ t ∈ g.libraries, ∃ k < groups.length, g.HasDepth t k :=
    fun t member => exists_hasDepth h member
  choose! depth inside deep using standing
  refine ⟨(List.range groups.length).map fun k => order.filter (depth · = k), ?_, ?_⟩
  · exact (flatten_ranks (sorted depth deep) fun t mem => inside t (complete.subset mem)).symm
  · have listed : groups = (List.range groups.length).map (groups.getD · []) := by
      refine List.ext_getElem (by simp) fun k isGroup _ => ?_
      rw [List.getElem_map, List.getElem_range, List.getD_eq_getElem _ _ isGroup]
    rw [listed, List.length_map, List.length_range, List.forall₂_map_left_iff,
      List.forall₂_map_right_iff, List.forall₂_same]
    intro k _
    refine (List.perm_ext_iff_of_nodup ?_ ?_).mpr fun t => ?_
    · exact (complete.nodup_iff.mpr g.nodup_libraries).filter _
    · exact nodup_getD_groups h k
    · rw [mem_buildGroups_iff h, List.mem_filter, complete.mem_iff, decide_eq_true_iff]
      constructor
      · rintro ⟨member, rfl⟩
        exact deep t member
      · exact fun isDepth => ⟨isDepth.1, (deep t isDepth.1).eq isDepth⟩

theorem buildOrder_eq_error_of_stuck {stuck : List Library} (isStuck : g.Stuck stuck) :
    g.buildOrder = .error (.circularDependency g.cycle) := by
  unfold buildOrder
  rcases orderOf?_cases (Queue.start g) with ⟨order, _, complete, ready⟩ | ⟨none_found, _⟩
  · have schedule : g.Schedule (order.map ([·])) :=
      ⟨by rwa [← List.flatMap_def, List.flatMap_singleton'], ready⟩
    exact absurd isStuck schedule.not_stuck
  · simp only [none_found]

/-- The two ways to order the libraries of a graph. Without a cycle among them, not even of one
library alone, both succeed: the group with number `k` holds the libraries below which the longest
chain has length `k`, by label, and the build order holds every library once, after all those that
it needs, in the order of the groups. With a cycle both fail with the same error. Labels that are
not those of libraries play no part, nor does it matter how often a dependency is listed.

The numbers of libraries to wait for, which are lowered for each library that is handled, are never
lowered below zero. -/
theorem orders_by_depth (g : TargetGraph) :
    (((∀ t, ¬ Relation.TransGen g.Requires t t) ∧ ∃ groups order,
        g.buildGroups = .ok groups ∧ g.buildOrder = .ok order ∧
        (∀ k t, t ∈ groups.getD k [] ↔ g.HasDepth t k) ∧
        (∀ group ∈ groups,
          group ≠ [] ∧ group.Pairwise fun t u => compare t.label u.label = .lt) ∧
        order.Perm g.libraries ∧
        (∀ before t after, order = before ++ t :: after → ∀ u, g.Requires t u → u ∈ before) ∧
        ∃ parts, order = parts.flatten ∧ List.Forall₂ List.Perm parts groups) ∨
      ((∃ t, Relation.TransGen g.Requires t t) ∧
        g.buildGroups = .error (.circularDependency g.cycle) ∧
        g.buildOrder = .error (.circularDependency g.cycle))) ∧
    g.tabulatedOrder? = some g.buildOrder := by
  refine ⟨?_, tabulatedOrder?_eq g⟩
  rcases g.schedule_cases true with ⟨groups, grouped, schedule⟩ | ⟨refused, stuck, isStuck⟩
  · left
    have grouped : g.buildGroups = .ok groups := grouped
    have acyclic := acyclic_iff_requires.mp schedule.acyclic
    rcases orderOf?_cases (Queue.start g) with ⟨order, found, complete, ready⟩ | ⟨_, _, isStuck⟩
    · have ordered : g.buildOrder = .ok order := by simp only [buildOrder, found]
      refine ⟨acyclic, groups, order, grouped, ordered, mem_buildGroups_iff grouped, ?_, complete,
        ?_, ?_⟩
      · intro group mem
        obtain ⟨nonempty, sublist⟩ := sublist_groupsOf? (groupsOf?_of_buildGroups grouped) group mem
        exact ⟨nonempty, g.sorted_libraries.sublist sublist⟩
      · exact fun before t after split u requires => ready.mem_of_eq split requires
      · exact exists_parts grouped complete fun depth deep =>
          sorted_orderOf? deep (Queue.start g) (Leveled.start deep) found
    · exact absurd isStuck schedule.not_stuck
  · right
    have cycle := mt acyclic_iff_requires.mpr isStuck.not_acyclic
    rw [not_forall_not] at cycle
    exact ⟨cycle, refused, buildOrder_eq_error_of_stuck isStuck⟩

end ObjcPlan.TargetGraph
