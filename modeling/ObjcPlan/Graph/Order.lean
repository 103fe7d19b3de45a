import ObjcPlan.Graph.Cycle

/-!
Orders in which the libraries of a graph can be analyzed. Groups hold libraries that only depend on
earlier groups; the build order is a single list. A graph has both or neither, and it has neither
when libraries depend on each other in a cycle.
-/

namespace ObjcPlan.TargetGraph

/-- Whether a library depends on none of those that wait. -/
def isFree (waiting : List Library) (t : Library) : Bool :=
  waiting.all fun other => other.label ∉ t.deps

/-- The libraries that depend on none of the others. -/
def free (waiting : List Library) : List Library :=
  waiting.filter (isFree waiting)

/-- The libraries that depend on one of the others. -/
def bound (waiting : List Library) : List Library :=
  waiting.filter fun t => !isFree waiting t

theorem length_bound_lt {waiting : List Library} (h : free waiting ≠ []) :
    (bound waiting).length < waiting.length := by
  obtain ⟨t, mem⟩ := List.exists_mem_of_ne_nil _ h
  obtain ⟨mem, isFree⟩ := List.mem_filter.mp mem
  exact List.length_filter_lt_length_iff_exists.mpr ⟨t, mem, by simp [isFree]⟩

/-- The libraries in groups: first those that depend on none of the others, then likewise with what
remains. There are no groups if libraries remain that each depend on one of them. -/
def groupsOf? (waiting : List Library) : Option (List (List Library)) :=
  if waiting = [] then some []
  else if _stuck : free waiting = [] then none
  else (groupsOf? (bound waiting)).map (free waiting :: ·)
termination_by waiting.length
decreasing_by exact length_bound_lt _stuck

/-- The libraries in groups that only depend on earlier groups, each group by label. -/
def buildGroups (g : TargetGraph) : Except PlanError (List (List Library)) :=
  match groupsOf? g.libraries with
  | some groups => .ok groups
  | none => .error (.circularDependency g.cycle)

/-- A library that may have to wait for others. -/
structure Waiting where
  library : Library
  /-- How many different libraries it still waits for. -/
  unmet : Nat

namespace Waiting

/-- A library of a graph before anything was handled. -/
def start (g : TargetGraph) (t : Library) : Waiting :=
  ⟨t, (OrderedSet.ofList (g.libraryDeps t)).toList.length⟩

/-- The same wait after `done` was handled. -/
def after (done : Library) (w : Waiting) : Waiting :=
  if done.label ∈ w.library.deps then { w with unmet := w.unmet - 1 } else w

def settle (done : Library) (waiting : List Waiting) : List Waiting :=
  waiting.map (after done)

@[simp] theorem length_settle (done : Library) (waiting : List Waiting) :
    (settle done waiting).length = waiting.length :=
  List.length_map _

/-- The libraries that need not wait any more. -/
def ready (waiting : List Waiting) : List Library :=
  (waiting.filter (·.unmet = 0)).map (·.library)

/-- The libraries that still wait. -/
def blocked (waiting : List Waiting) : List Waiting :=
  waiting.filter (·.unmet ≠ 0)

theorem length_ready_add_blocked (waiting : List Waiting) :
    (ready waiting).length + (blocked waiting).length = waiting.length := by
  induction waiting with
  | nil => rfl
  | cons w rest ih => by_cases h : w.unmet = 0 <;> simp_all [ready, blocked] <;> omega

end Waiting

/-- The order in which the libraries of `queue` and those of `waiting` are handled: always the head
of the queue, whereupon the libraries that need no longer wait join its end. There is no order if
libraries still wait when the queue is empty. -/
def orderOf? (queue : List Library) (waiting : List Waiting) : Option (List Library) :=
  match queue with
  | [] => if waiting.isEmpty then some [] else none
  | next :: queue =>
    let settled := Waiting.settle next waiting
    (orderOf? (queue ++ Waiting.ready settled) (Waiting.blocked settled)).map (next :: ·)
termination_by queue.length + waiting.length
decreasing_by
  have := Waiting.length_ready_add_blocked (Waiting.settle next waiting)
  simp only [Waiting.length_settle, List.length_append, List.length_cons] at *
  omega

/-- The libraries one by one, each after the libraries that it depends on. -/
def buildOrder (g : TargetGraph) : Except PlanError (List Library) :=
  let start := g.libraries.map (Waiting.start g)
  match orderOf? (Waiting.ready start) (Waiting.blocked start) with
  | some order => .ok order
  | none => .error (.circularDependency g.cycle)

end ObjcPlan.TargetGraph
