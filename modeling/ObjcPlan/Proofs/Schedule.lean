import Mathlib.Data.Finset.Card
import ObjcPlan.Workspace

/-! Schedules: groups that hold every library of a graph once, each library in a later group than
the libraries it depends on. `groupsOf?` and `orderOf?` find a schedule unless some libraries each
wait for another of them, and then there is none (`Schedule.not_stuck`), so the two ways to order a
graph succeed on the same graphs. -/

namespace ObjcPlan

def Library.Needs (t u : Library) : Prop := u.label ∈ t.deps

namespace TargetGraph

variable {g : TargetGraph} {done : List Library} {groups : List (List Library)}

/-- Whether groups can be handled in turn once `done` was handled: each library only needs libraries
that were handled before its group. -/
def Ready (g : TargetGraph) : List Library → List (List Library) → Prop
  | _, [] => True
  | done, group :: groups =>
    (∀ t ∈ group, ∀ u ∈ g.libraries, t.Needs u → u ∈ done) ∧ g.Ready (done ++ group) groups

/-- The groups hold every library once, each after the libraries that it needs. -/
structure Schedule (g : TargetGraph) (groups : List (List Library)) : Prop where
  complete : groups.flatten.Perm g.libraries
  ready : g.Ready [] groups

/-- Libraries of the graph that each wait for another of them. -/
structure Stuck (g : TargetGraph) (waiting : List Library) : Prop where
  ne_nil : waiting ≠ []
  declared : waiting ⊆ g.libraries
  waits : ∀ t ∈ waiting, ∃ u ∈ waiting, t.Needs u

/-- The first group that holds one of the stuck libraries would come too early for it. -/
theorem Ready.disjoint_of_stuck {waiting : List Library} (ready : g.Ready done groups)
    (stuck : g.Stuck waiting) (apart : ∀ t ∈ waiting, t ∉ done) :
    ∀ t ∈ waiting, t ∉ groups.flatten := by
  induction groups generalizing done with
  | nil => simp
  | cons group groups ih =>
    obtain ⟨first, later⟩ := ready
    have not_now : ∀ t ∈ waiting, t ∉ group := by
      intro t mem now
      obtain ⟨u, mem', needs⟩ := stuck.waits t mem
      exact apart u mem' (first t now u (stuck.declared mem') needs)
    have not_later := ih later fun t mem => by simp [apart t mem, not_now t mem]
    intro t mem
    rw [List.flatten_cons, List.mem_append, not_or]
    exact ⟨not_now t mem, not_later t mem⟩

theorem Schedule.not_stuck {waiting : List Library} (schedule : g.Schedule groups) :
    ¬ g.Stuck waiting := by
  intro stuck
  obtain ⟨t, mem⟩ := List.exists_mem_of_ne_nil _ stuck.ne_nil
  have absent := schedule.ready.disjoint_of_stuck stuck (by simp) t mem
  exact absent (schedule.complete.mem_iff.mpr (stuck.declared mem))

/-- What holds of a library once it holds of all that it needs holds of every library. -/
theorem Schedule.induct (schedule : g.Schedule groups) {motive : Library → Prop}
    (step : ∀ t ∈ g.libraries, (∀ u ∈ g.libraries, t.Needs u → motive u) → motive t) :
    ∀ t ∈ g.libraries, motive t := by
  suffices ∀ groups done, g.Ready done groups → groups.flatten ⊆ g.libraries →
      (∀ t ∈ done, motive t) → ∀ t ∈ groups.flatten, motive t by
    intro t mem
    exact this groups [] schedule.ready schedule.complete.subset (by simp) t
      (schedule.complete.mem_iff.mpr mem)
  intro groups
  induction groups with
  | nil => simp
  | cons group groups ih =>
    intro done ⟨first, later⟩ declared before
    rw [List.flatten_cons, List.append_subset] at declared
    have now : ∀ t ∈ group, motive t := fun t mem =>
      step t (declared.1 mem) fun u mem' needs => before u (first t mem u mem' needs)
    intro t mem
    rw [List.flatten_cons, List.mem_append] at mem
    rcases mem with mem | mem
    · exact now t mem
    · refine ih _ later declared.2 (fun t mem => ?_) t mem
      rcases List.mem_append.mp mem with mem | mem
      · exact before t mem
      · exact now t mem

/-! ### Groups -/

theorem free_append_bound (waiting : List Library) :
    (free waiting ++ bound waiting).Perm waiting :=
  List.filter_append_perm _ _

theorem not_needs_of_free {waiting : List Library} {t u : Library} (ht : t ∈ free waiting)
    (hu : u ∈ waiting) : ¬ t.Needs u := by
  obtain ⟨_, isFree⟩ := List.mem_filter.mp ht
  simpa [Library.Needs] using List.all_eq_true.mp isFree u hu

theorem needs_of_bound {waiting : List Library} {t : Library} (ht : t ∈ bound waiting) :
    ∃ u ∈ waiting, t.Needs u := by
  obtain ⟨_, isBound⟩ := List.mem_filter.mp ht
  simpa [isFree, Library.Needs] using isBound

theorem flatten_groupsOf? {waiting : List Library} (h : groupsOf? waiting = some groups) :
    groups.flatten.Perm waiting := by
  induction waiting using groupsOf?.induct generalizing groups with
  | case1 =>
    rw [groupsOf?, if_pos rfl] at h
    obtain rfl := Option.some.inj h
    exact .refl _
  | case2 waiting _ stuck => simp_all [groupsOf?]
  | case3 waiting some_wait some_free ih =>
    rw [groupsOf?, if_neg some_wait, dif_neg some_free] at h
    obtain ⟨rest, found, rfl⟩ := Option.map_eq_some_iff.mp h
    exact ((ih found).append_left _).trans (free_append_bound waiting)

theorem ready_groupsOf? {waiting : List Library} (h : groupsOf? waiting = some groups)
    (cover : ∀ u ∈ g.libraries, u ∈ done ∨ u ∈ waiting) : g.Ready done groups := by
  induction waiting using groupsOf?.induct generalizing done groups with
  | case1 =>
    rw [groupsOf?, if_pos rfl] at h
    obtain rfl := Option.some.inj h
    trivial
  | case2 waiting _ stuck => simp_all [groupsOf?]
  | case3 waiting some_wait some_free ih =>
    rw [groupsOf?, if_neg some_wait, dif_neg some_free] at h
    obtain ⟨rest, found, rfl⟩ := Option.map_eq_some_iff.mp h
    refine ⟨fun t mem u declared needs => ?_, ih found fun u declared => ?_⟩
    · exact (cover u declared).resolve_right fun waits => not_needs_of_free mem waits needs
    · rw [List.mem_append, or_assoc, ← List.mem_append, (free_append_bound waiting).mem_iff]
      exact cover u declared

theorem stuck_of_groupsOf? {waiting : List Library} (h : groupsOf? waiting = none)
    (declared : waiting ⊆ g.libraries) : ∃ stuck, g.Stuck stuck := by
  induction waiting using groupsOf?.induct with
  | case1 => simp [groupsOf?] at h
  | case2 waiting some_wait none_free =>
    refine ⟨waiting, some_wait, declared, fun t mem => needs_of_bound ?_⟩
    have := (free_append_bound waiting).mem_iff.mpr mem
    simpa [none_free] using this
  | case3 waiting some_wait some_free ih =>
    rw [groupsOf?, if_neg some_wait, dif_neg some_free, Option.map_eq_none_iff] at h
    exact ih h fun t mem => declared (List.mem_of_mem_filter mem)

/-! ### The queue -/

/-- The labels of the libraries that a library still waits for once `done` was handled. -/
def awaited (g : TargetGraph) (done : List Library) (t : Library) : Finset Label :=
  (g.libraryDeps t).toFinset \ (done.map (·.label)).toFinset

theorem mem_awaited {t : Library} {label : Label} :
    label ∈ g.awaited done t ↔
      label ∈ t.deps ∧ (∃ u ∈ g.libraries, u.label = label) ∧ ∀ u ∈ done, u.label ≠ label := by
  simp only [awaited, libraryDeps, Finset.mem_sdiff, List.mem_toFinset, List.mem_filter,
    Option.isSome_iff_exists, library?_eq_some_iff, List.mem_map, not_exists, not_and, and_assoc]

theorem awaited_append (done : List Library) (next t : Library) :
    g.awaited (done ++ [next]) t = (g.awaited done t).erase next.label := by
  ext label
  simp only [mem_awaited, Finset.mem_erase, List.mem_append, List.mem_singleton]
  grind

theorem mem_awaited_of_needs {next t : Library} (declared : next ∈ g.libraries)
    (fresh : ∀ u ∈ done, u.label ≠ next.label) (needs : t.Needs next) :
    next.label ∈ g.awaited done t :=
  mem_awaited.mpr ⟨needs, ⟨next, declared, rfl⟩, fresh⟩

/-- A library that is handled is one less to wait for, for those that need it. -/
theorem card_awaited_append {next : Library} (declared : next ∈ g.libraries)
    (fresh : ∀ u ∈ done, u.label ≠ next.label) (t : Library) :
    (g.awaited (done ++ [next]) t).card =
      if next.label ∈ t.deps then (g.awaited done t).card - 1 else (g.awaited done t).card := by
  rw [awaited_append]
  split
  · next needed => exact Finset.card_erase_of_mem (mem_awaited_of_needs declared fresh needed)
  · next idle =>
    have waits : next.label ∉ g.awaited done t := fun h => idle (mem_awaited.mp h).1
    rw [Finset.erase_eq_of_notMem waits]

theorem mem_done_of_card_awaited {t u : Library} (none_awaited : (g.awaited done t).card = 0)
    (handled : done ⊆ g.libraries) (declared : u ∈ g.libraries) (needs : t.Needs u) :
    u ∈ done := by
  by_contra absent
  have : u.label ∈ g.awaited done t := by
    refine mem_awaited.mpr ⟨needs, ⟨u, declared, rfl⟩, fun v mem same => absent ?_⟩
    exact eq_of_label_eq (handled mem) declared same ▸ mem
  rw [Finset.card_eq_zero.mp none_awaited] at this
  contradiction

theorem library_after (next : Library) (w : Waiting) :
    (Waiting.after next w).library = w.library := by
  unfold Waiting.after
  split <;> rfl

theorem library_settle (next : Library) (waiting : List Waiting) :
    (Waiting.settle next waiting).map (·.library) = waiting.map (·.library) := by
  simp [Waiting.settle, Function.comp_def, library_after]

theorem ready_append_blocked (waiting : List Waiting) :
    (Waiting.ready waiting ++ (Waiting.blocked waiting).map (·.library)).Perm
      (waiting.map (·.library)) := by
  have split : Waiting.blocked waiting = waiting.filter fun w => !decide (w.unmet = 0) := by
    simp [Waiting.blocked]
  rw [Waiting.ready, split, ← List.map_append]
  exact (List.filter_append_perm _ _).map _

/-- Where the queue stands: what was handled, what is in the queue, and what waits, with the numbers
of libraries that it waits for. -/
structure Queue (g : TargetGraph) (done queue : List Library) (waiting : List Waiting) : Prop where
  complete : (done ++ queue ++ waiting.map (·.library)).Perm g.libraries
  ready : ∀ t ∈ queue, ∀ u ∈ g.libraries, t.Needs u → u ∈ done
  counted : ∀ w ∈ waiting, w.unmet = (g.awaited done w.library).card
  blocked : ∀ w ∈ waiting, w.unmet ≠ 0

namespace Queue

variable {queue : List Library} {waiting : List Waiting} {next : Library}

theorem declared (q : g.Queue done queue waiting) {t : Library} (h : t ∈ done ∨ t ∈ queue) :
    t ∈ g.libraries :=
  q.complete.subset (by simp only [List.mem_append]; tauto)

theorem head_ne (q : g.Queue done (next :: queue) waiting) :
    ∀ u ∈ done, u.label ≠ next.label := by
  have distinct := (q.complete.map (·.label)).nodup_iff.mpr g.nodup_labels
  rw [List.append_assoc, List.map_append, List.nodup_append] at distinct
  exact fun u mem => distinct.2.2 _ (List.mem_map_of_mem mem) _ (by simp)

theorem counted_after (q : g.Queue done (next :: queue) waiting) {w : Waiting} (mem : w ∈ waiting) :
    (Waiting.after next w).unmet = (g.awaited (done ++ [next]) w.library).card := by
  rw [card_awaited_append (q.declared (.inr List.mem_cons_self)) q.head_ne, ← q.counted w mem]
  unfold Waiting.after
  split <;> rfl

theorem step (q : g.Queue done (next :: queue) waiting) :
    g.Queue (done ++ [next]) (queue ++ Waiting.ready (Waiting.settle next waiting))
      (Waiting.blocked (Waiting.settle next waiting)) where
  complete := by
    have parts := ready_append_blocked (Waiting.settle next waiting)
    rw [library_settle] at parts
    simpa using ((parts.append_left queue).append_left (done ++ [next])).trans (by
      simpa using q.complete)
  ready := by
    intro t mem u declared needs
    rcases List.mem_append.mp mem with mem | mem
    · exact List.mem_append_left _ (q.ready t (List.mem_cons_of_mem _ mem) u declared needs)
    · obtain ⟨settled, isReady, rfl⟩ := List.mem_map.mp mem
      obtain ⟨isSettled, met⟩ := List.mem_filter.mp isReady
      obtain ⟨w, waits, rfl⟩ := List.mem_map.mp isSettled
      rw [library_after] at needs
      have none_awaited := (q.counted_after waits).symm.trans (by simpa using met)
      refine mem_done_of_card_awaited none_awaited (fun v mem => q.declared ?_) declared needs
      simpa [or_assoc] using Or.inl (List.mem_append.mp mem)
  counted := by
    intro settled mem
    obtain ⟨w, waits, rfl⟩ := List.mem_map.mp (List.mem_of_mem_filter mem)
    rw [library_after]
    exact q.counted_after waits
  blocked := fun w mem => by simpa using (List.mem_filter.mp mem).2

theorem waits (q : g.Queue done [] waiting) :
    ∀ t ∈ waiting.map (·.library), ∃ u ∈ waiting.map (·.library), t.Needs u := by
  intro t mem
  obtain ⟨w, waits, rfl⟩ := List.mem_map.mp mem
  have nonempty := Finset.card_pos.mp (Nat.pos_of_ne_zero (q.counted w waits ▸ q.blocked w waits))
  obtain ⟨label, awaited⟩ := nonempty
  obtain ⟨needed, ⟨u, declared, rfl⟩, open_⟩ := mem_awaited.mp awaited
  have placed := q.complete.mem_iff.mpr declared
  rw [List.append_nil, List.mem_append] at placed
  exact ⟨u, placed.resolve_left fun handled => open_ u handled rfl, needed⟩

end Queue

theorem orderOf?_cases {queue : List Library} {waiting : List Waiting}
    (q : g.Queue done queue waiting) :
    (∃ order, orderOf? queue waiting = some order ∧ (done ++ order).Perm g.libraries ∧
        g.Ready done (order.map ([·]))) ∨
      orderOf? queue waiting = none ∧ ∃ stuck, g.Stuck stuck := by
  fun_induction orderOf? queue waiting generalizing done with
  | case1 waiting empty =>
    obtain rfl := List.isEmpty_iff.mp empty
    refine .inl ⟨[], rfl, ?_, trivial⟩
    simpa using q.complete
  | case2 waiting nonempty =>
    refine .inr ⟨rfl, waiting.map (·.library), ?_, ?_, q.waits⟩
    · simpa using nonempty
    · exact fun t mem => q.complete.subset (List.mem_append_right _ mem)
  | case3 waiting next queue settled =>
    rename_i ih
    rcases ih q.step with ⟨order, found, complete, ready⟩ | ⟨none_found, stuck⟩
    · refine .inl ⟨next :: order, by rw [found]; rfl, by simpa using complete, ?_, ready⟩
      intro t mem
      obtain rfl := List.mem_singleton.mp mem
      exact q.ready t List.mem_cons_self
    · exact .inr ⟨by rw [none_found]; rfl, stuck⟩

theorem unmet_start (t : Library) : (Waiting.start g t).unmet = (g.awaited [] t).card := by
  have distinct : (OrderedSet.ofList (g.libraryDeps t)).toList.Nodup :=
    (OrderedSet.ofList (g.libraryDeps t)).distinct
  have members : (OrderedSet.ofList (g.libraryDeps t)).toList.toFinset =
      (g.libraryDeps t).toFinset := by
    ext label
    have : label ∈ (OrderedSet.ofList (g.libraryDeps t)).keys ↔ _ := OrderedSet.mem_keys_ofList
    simp only [OrderedSet.keys, Identity.key, id_eq, List.map_id_fun] at this
    simpa using this
  rw [awaited, List.map_nil, List.toFinset_nil, Finset.sdiff_empty, ← members,
    List.toFinset_card_of_nodup distinct]
  rfl

theorem Queue.start (g : TargetGraph) :
    g.Queue [] (Waiting.ready (g.libraries.map (Waiting.start g)))
      (Waiting.blocked (g.libraries.map (Waiting.start g))) where
  complete := by
    have parts := ready_append_blocked (g.libraries.map (Waiting.start g))
    simpa [Function.comp_def, Waiting.start] using parts
  ready := by
    intro _ mem u declared needs
    obtain ⟨_, isReady, rfl⟩ := List.mem_map.mp mem
    obtain ⟨isStart, met⟩ := List.mem_filter.mp isReady
    obtain ⟨t, _, rfl⟩ := List.mem_map.mp isStart
    have none_awaited := (unmet_start t).symm.trans (by simpa using met)
    exact mem_done_of_card_awaited none_awaited (List.nil_subset _) declared needs
  counted := by
    intro _ mem
    obtain ⟨t, _, rfl⟩ := List.mem_map.mp (List.mem_of_mem_filter mem)
    exact unmet_start t
  blocked := fun w mem => by simpa using (List.mem_filter.mp mem).2

/-! ### Both orders -/

/-- Groups and single libraries come from schedules, or some libraries are stuck and both end in
the same error. -/
theorem schedule_cases (g : TargetGraph) (parallel : Bool) :
    (∃ groups, g.schedule parallel = .ok groups ∧ g.Schedule groups) ∨
      g.schedule parallel = .error (.circularDependency g.cycle) ∧ ∃ stuck, g.Stuck stuck := by
  cases parallel with
  | true =>
    simp only [schedule, if_true, buildGroups]
    cases found : groupsOf? g.libraries with
    | some groups =>
      exact .inl ⟨groups, rfl, flatten_groupsOf? found,
        ready_groupsOf? found fun u declared => .inr declared⟩
    | none => exact .inr ⟨rfl, stuck_of_groupsOf? found (List.Subset.refl _)⟩
  | false =>
    simp only [schedule, buildOrder]
    rcases orderOf?_cases (Queue.start g) with ⟨order, found, complete, ready⟩ | ⟨none_found, stuck⟩
    · refine .inl ⟨order.map ([·]), by simp [found, Except.map], ?_, ready⟩
      rwa [← List.flatMap_def, List.flatMap_singleton']
    · exact .inr ⟨by simp [none_found, Except.map], stuck⟩

/-- A graph can be ordered for analyses side by side exactly if it can be ordered for analyses one
by one, and else with the same error. -/
theorem schedule_agree (g : TargetGraph) (parallel parallel' : Bool) :
    (∃ groups groups', g.schedule parallel = .ok groups ∧ g.schedule parallel' = .ok groups' ∧
        g.Schedule groups ∧ g.Schedule groups') ∨
      ∃ error, g.schedule parallel = .error error ∧ g.schedule parallel' = .error error := by
  rcases g.schedule_cases parallel with ⟨groups, ok, schedule⟩ | ⟨error, _, stuck⟩ <;>
    rcases g.schedule_cases parallel' with ⟨groups', ok', schedule'⟩ | ⟨error', _, stuck'⟩
  · exact .inl ⟨groups, groups', ok, ok', schedule, schedule'⟩
  · exact absurd stuck' schedule.not_stuck
  · exact absurd stuck schedule'.not_stuck
  · exact .inr ⟨_, error, error'⟩

end TargetGraph

end ObjcPlan
