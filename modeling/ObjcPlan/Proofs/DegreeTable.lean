import ObjcPlan.Proofs.Schedule

/-! The queue with a table of numbers. `orderOf?` counts for the libraries that still wait and
leaves the others alone. Here every library keeps its number, and each one that names the library at
the head of the queue has it lowered, whether it still waits or not. That comes to the same order
(`tabulatedOrder?_eq`), and no number is lowered that is zero: a library that names the head was
waiting for it. -/

namespace ObjcPlan.TargetGraph

namespace Waiting

/-- One library less to wait for, for those that need the one that was handled. Zero cannot be made
less. -/
def lower? (next : Library) (w : Waiting) : Option Waiting :=
  if next.label ∈ w.library.deps then
    if w.unmet = 0 then none else some { w with unmet := w.unmet - 1 }
  else some w

/-- The libraries of a table whose numbers were lowered to zero. -/
def released (next : Library) (table : List Waiting) : List Library :=
  (table.filter fun w => next.label ∈ w.library.deps ∧ w.unmet = 0).map (·.library)

theorem length_released_add_blocked {next : Library} {table table' : List Waiting}
    (lowered : table.mapM (lower? next) = some table') :
    (released next table').length + (blocked table').length = (blocked table).length := by
  induction table generalizing table' with
  | nil =>
    obtain rfl := Option.some.inj lowered
    rfl
  | cons w rest ih =>
    rw [List.mapM_cons] at lowered
    obtain ⟨w', first, lowered⟩ := Option.bind_eq_some_iff.mp lowered
    obtain ⟨rest', others, same⟩ := Option.bind_eq_some_iff.mp lowered
    obtain rfl := Option.some.inj same
    have := ih others
    unfold lower? at first
    split at first
    · next needed =>
      split at first
      · contradiction
      · next positive =>
        obtain rfl := Option.some.inj first
        by_cases met : w.unmet - 1 = 0 <;> simp_all [released, blocked] <;> omega
    · next idle =>
      obtain rfl := Option.some.inj first
      by_cases met : w.unmet = 0 <;> simp_all [released, blocked]
      omega

variable {next : Library} {table : List Waiting}

theorem unmet_after_le (next : Library) (w : Waiting) : (after next w).unmet ≤ w.unmet := by
  unfold after
  split
  · exact Nat.sub_le w.unmet 1
  · exact le_rfl

/-- What need not wait before does not wait after. -/
theorem blocked_settle_blocked :
    blocked (settle next (blocked table)) = blocked (settle next table) := by
  simp only [blocked, settle, List.filter_map, List.filter_filter]
  refine congrArg _ (List.filter_congr fun w _ => ?_)
  have := unmet_after_le next w
  by_cases met : w.unmet = 0 <;> simp_all

/-- Among the libraries that need not wait, those that do not name `next` are not released by it. -/
theorem ready_settle_blocked
    (positive : ∀ w ∈ table, next.label ∈ w.library.deps → w.unmet ≠ 0) :
    ready (settle next (blocked table)) = released next (settle next table) := by
  simp only [ready, released, blocked, settle, List.filter_map, List.filter_filter]
  refine congrArg _ (congrArg _ (List.filter_congr fun w mem => ?_))
  have positive := positive w mem
  by_cases needed : next.label ∈ w.library.deps <;> simp_all [after]

end Waiting

open Waiting

/-- The order in which the libraries of `queue` are handled and those that their handling releases.
There is none if a number in the table would be lowered below zero. -/
def tabulated? (queue : List Library) (table : List Waiting) : Option (List Library) :=
  match queue with
  | [] => some []
  | next :: queue =>
    match _lowered : table.mapM (lower? next) with
    | none => none
    | some table' => (tabulated? (queue ++ released next table') table').map (next :: ·)
termination_by queue.length + (blocked table).length
decreasing_by
  have := length_released_add_blocked _lowered
  simp only [List.length_append, List.length_cons]
  omega

/-- The build order with a table of the numbers of all libraries, which is refused if libraries are
left over. -/
def tabulatedOrder? (g : TargetGraph) : Option (Except PlanError (List Library)) :=
  let table := g.libraries.map (Waiting.start g)
  (tabulated? (ready table) table).map fun order =>
    if order.length = g.size then .ok order else .error (.circularDependency g.cycle)

theorem mapM_eq_some_map {α β : Type} {f : α → Option β} {f' : α → β} {l : List α}
    (h : ∀ a ∈ l, f a = some (f' a)) : l.mapM f = some (l.map f') := by
  induction l with
  | nil => rfl
  | cons a rest ih =>
    obtain ⟨first, others⟩ := List.forall_mem_cons.mp h
    simp [List.mapM_cons, first, ih others]

/-- The numbers of all libraries once `done` was handled. -/
def table (g : TargetGraph) (done : List Library) : List Waiting :=
  g.libraries.map fun t => ⟨t, (g.awaited done t).card⟩

variable {g : TargetGraph} {done queue : List Library} {next : Library} {waiting : List Waiting}

theorem table_start (g : TargetGraph) : g.libraries.map (Waiting.start g) = g.table [] :=
  List.map_congr_left fun t _ => congrArg (Waiting.mk t) (unmet_start t)

section

variable (declared : next ∈ g.libraries) (fresh : ∀ u ∈ done, u.label ≠ next.label)

include declared fresh

theorem settle_table : settle next (g.table done) = g.table (done ++ [next]) := by
  rw [settle, table, List.map_map]
  refine List.map_congr_left fun t _ => ?_
  rw [card_awaited_append declared fresh, Function.comp_apply, after]
  split <;> rfl

/-- Where a number is lowered it was not zero. -/
theorem positive_of_mem_table {w : Waiting} (mem : w ∈ g.table done)
    (needed : next.label ∈ w.library.deps) : w.unmet ≠ 0 := by
  obtain ⟨t, _, rfl⟩ := List.mem_map.mp mem
  exact Finset.card_ne_zero_of_mem (mem_awaited_of_needs declared fresh needed)

/-- Where a number is lowered it was not zero. -/
theorem mapM_lower?_table :
    (g.table done).mapM (lower? next) = some (g.table (done ++ [next])) := by
  have lowered : ∀ w ∈ g.table done, lower? next w = some (after next w) := by
    intro w mem
    unfold lower? after
    split
    · next needed => exact if_neg (positive_of_mem_table declared fresh mem needed)
    · rfl
  rw [← settle_table declared fresh]
  exact mapM_eq_some_map lowered

end

theorem Queue.length_done (q : g.Queue done queue waiting) :
    done.length + queue.length + waiting.length = g.size := by
  simpa [size, Nat.add_assoc] using q.complete.length_eq

/-- By induction along the queue: the libraries that wait are those whose number in the table is not
zero. -/
theorem orderOf?_eq_tabulated? (q : g.Queue done queue waiting)
    (waits : waiting = blocked (g.table done)) :
    ∃ order, tabulated? queue (g.table done) = some order ∧
      orderOf? queue waiting = if (done ++ order).length = g.size then some order else none := by
  fun_induction orderOf? queue waiting generalizing done with
  | case1 waiting empty =>
    have total := q.length_done
    rw [List.isEmpty_iff.mp empty] at total
    exact ⟨[], by rw [tabulated?], (if_pos (by simpa using total)).symm⟩
  | case2 waiting nonempty =>
    have total := q.length_done
    have left_over := List.length_pos_iff.mpr (mt List.isEmpty_iff.mpr nonempty)
    exact ⟨[], by rw [tabulated?], (if_neg (by simp at total ⊢; omega)).symm⟩
  | case3 waiting next queue settled =>
    rename_i ih
    have declared := q.declared (.inr List.mem_cons_self)
    have step := mapM_lower?_table declared q.head_ne
    have waits' : blocked settled = blocked (g.table (done ++ [next])) := by
      simp only [settled, waits]
      rw [blocked_settle_blocked, settle_table declared q.head_ne]
    have joins : ready settled = released next (g.table (done ++ [next])) := by
      simp only [settled, waits]
      rw [← settle_table declared q.head_ne]
      exact ready_settle_blocked fun w mem needed =>
        positive_of_mem_table declared q.head_ne mem needed
    obtain ⟨order, tabulated, found⟩ := ih q.step waits'
    refine ⟨next :: order, ?_, ?_⟩
    · rw [tabulated?]
      split
      · next refused => simp [step] at refused
      · next table' lowered =>
        obtain rfl := Option.some.inj (step.symm.trans lowered)
        rw [← joins, tabulated]
        rfl
    · rw [found]
      simp only [List.append_assoc, List.singleton_append]
      split <;> rfl

/-- No number in the table is ever lowered below zero, and the table leads to the build order. -/
theorem tabulatedOrder?_eq (g : TargetGraph) : g.tabulatedOrder? = some g.buildOrder := by
  have q := Queue.start g
  rw [table_start] at q
  obtain ⟨order, tabulated, found⟩ := orderOf?_eq_tabulated? q rfl
  rw [List.nil_append] at found
  simp only [tabulatedOrder?, buildOrder, table_start, tabulated, found, Option.map_some]
  split <;> rfl

end ObjcPlan.TargetGraph
