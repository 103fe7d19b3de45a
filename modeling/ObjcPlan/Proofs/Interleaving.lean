import Mathlib.Algebra.GroupWithZero.Nat
import Mathlib.Logic.Relation
import ObjcPlan.Proofs.Progress

/-! Planning runs whose analyses go on side by side. Within a group, the analyses of the libraries
take turns in any order at each access to the cache: to ask it is one step, and to store what had to
be analyzed is another. A run turns to its next group once all analyses of a group are finished.
`TargetGraph.plan` is the run that finishes the analyses of a group one after the other
(`Run.steps_run`), and every run comes to its end (`Run.Step.remaining_lt`, `Run.exists_step`). -/

namespace ObjcPlan

/-- The analysis of one library between two accesses to the cache. -/
inductive Task
  /-- The cache was not asked yet. -/
  | waiting (t : Library)
  /-- The cache had nothing, and the analysis that was made is not stored yet. -/
  | missed (t : Library) (digest : String) (library : AnalyzedLibrary)
  | finished (t : Library) (outcome : Outcome)

namespace Task

def library : Task → Library
  | waiting t | missed t _ _ | finished t _ => t

def ofEntry (entry : Library × Outcome) : Task :=
  finished entry.1 entry.2

/-- The next access to the cache with all that is done before the one after it. A finished analysis
has none. -/
def step (s : Setting) (resolver : Resolver) (cache : Cache) : Task → Option (Task × Cache)
  | waiting t =>
    match resolver.resolve t with
    | .error error => some (finished t (.failed (.planning error)), cache)
    | .ok dependencies =>
      match s.writer.inputsDigest t dependencies with
      | .error fault => some (finished t (.failed (.cache fault)), cache)
      | .ok digest =>
        match cache.get t.label s.fingerprint digest with
        | (some library, cache) => some (finished t (.cached library), cache)
        | (none, cache) =>
          match t.analyze dependencies s.facts with
          | .error error => some (finished t (.failed (.planning error)), cache)
          | .ok library => some (missed t digest library, cache)
  | missed t digest library =>
    some (finished t (.analyzed library), cache.insert s.fingerprint digest library)
  | finished _ _ => none

/-- The texts whose digests the next step takes. -/
def hashes (s : Setting) (resolver : Resolver) : Task → List String
  | waiting t =>
    match resolver.resolve t with
    | .error _ => []
    | .ok dependencies =>
      match s.writer.fault? t dependencies with
      | some _ => []
      | none => [t.inputsMessage dependencies]
  | _ => []

def remaining : Task → Nat
  | waiting _ => 2
  | missed _ _ _ => 1
  | finished _ _ => 0

variable {s : Setting} {resolver : Resolver} {cache cache' : Cache} {task task' : Task}

theorem step_of_fault {t : Library} {dependencies : List Dependency} {fault : String}
    (resolved : resolver.resolve t = .ok dependencies)
    (unwritten : s.writer.fault? t dependencies = some fault) :
    (waiting t).step s resolver cache = some (finished t (.failed (.cache fault)), cache) := by
  simp only [step, resolved, Writer.inputsDigest, unwritten]

theorem step_of_written {t : Library} {dependencies : List Dependency}
    (resolved : resolver.resolve t = .ok dependencies)
    (written : s.writer.fault? t dependencies = none) :
    (waiting t).step s resolver cache =
      match cache.get t.label s.fingerprint (t.inputsDigest dependencies) with
      | (some library, cache) => some (finished t (.cached library), cache)
      | (none, cache) =>
        match t.analyze dependencies s.facts with
        | .error error => some (finished t (.failed (.planning error)), cache)
        | .ok library => some (missed t (t.inputsDigest dependencies) library, cache) := by
  simp only [step, resolved, Writer.inputsDigest, written]

/-- What asking the cache comes to: the outcome that the cache and the dependencies decide, or an
analysis that is still to be stored. The analyses in the cache stay as they are. -/
theorem step_waiting {t : Library} (h : (waiting t).step s resolver cache = some (task', cache')) :
    cache'.entries = cache.entries ∧
      (task' = finished t (s.judge cache t (resolver.resolve t)) ∨
        ∃ dependencies library, resolver.resolve t = .ok dependencies ∧
          s.writer.fault? t dependencies = none ∧ t.analyze dependencies s.facts = .ok library ∧
          s.judge cache t (resolver.resolve t) = .analyzed library ∧
          task' = missed t (t.inputsDigest dependencies) library) := by
  cases resolved : resolver.resolve t with
  | error error =>
    simp only [step, resolved, Option.some.injEq, Prod.mk.injEq] at h
    obtain ⟨rfl, rfl⟩ := h
    exact ⟨rfl, .inl rfl⟩
  | ok dependencies =>
    cases written : s.writer.fault? t dependencies with
    | some fault =>
      rw [step_of_fault resolved written] at h
      cases h
      exact ⟨rfl, .inl (by rw [Setting.judge_of_fault written])⟩
    | none =>
      rw [step_of_written resolved written] at h
      simp only [Cache.get] at h
      rw [Setting.judge_of_written written]
      cases found : cache.find? t.label s.fingerprint (t.inputsDigest dependencies) with
      | some library =>
        simp only [found, Option.some.injEq, Prod.mk.injEq] at h
        obtain ⟨rfl, rfl⟩ := h
        exact ⟨rfl, .inl rfl⟩
      | none =>
        cases analyzed : t.analyze dependencies s.facts with
        | error error =>
          simp only [found, analyzed, Option.some.injEq, Prod.mk.injEq] at h
          obtain ⟨rfl, rfl⟩ := h
          exact ⟨rfl, .inl rfl⟩
        | ok library =>
          simp only [found, analyzed, Option.some.injEq, Prod.mk.injEq] at h
          obtain ⟨rfl, rfl⟩ := h
          exact ⟨rfl, .inr ⟨dependencies, library, rfl, written, analyzed, rfl, rfl⟩⟩

theorem library_step (h : task.step s resolver cache = some (task', cache')) :
    task'.library = task.library := by
  cases task with
  | waiting t =>
    obtain ⟨_, rfl | ⟨_, _, _, _, _, _, rfl⟩⟩ := step_waiting h <;> rfl
  | missed t digest library =>
    cases h
    rfl
  | finished => contradiction

theorem remaining_step (h : task.step s resolver cache = some (task', cache')) :
    task'.remaining < task.remaining := by
  cases task with
  | waiting t =>
    obtain ⟨_, rfl | ⟨_, _, _, _, _, _, rfl⟩⟩ := step_waiting h <;> simp [remaining]
  | missed t digest library =>
    cases h
    simp [remaining]
  | finished => contradiction

theorem step_isSome_or_finished (s : Setting) (resolver : Resolver) (cache : Cache) (task : Task) :
    (task.step s resolver cache).isSome ∨ ∃ t outcome, task = finished t outcome := by
  cases task with
  | waiting t =>
    left
    unfold step
    simp only
    split
    · rfl
    · split
      · rfl
      · split
        · rfl
        · split <;> rfl
  | missed => exact .inl rfl
  | finished t outcome => exact .inr ⟨t, outcome, rfl⟩

end Task

/-- A planning run between two steps. -/
structure Run where
  graph : TargetGraph
  setting : Setting
  /-- The number of groups of the whole run. -/
  groupCount : Nat
  /-- What was recorded of earlier groups. -/
  recorded : List (Library × Outcome)
  /-- The analyses of the present group. -/
  tasks : List Task
  /-- The groups to come. -/
  groups : List (List Library)
  /-- The texts that were hashed as the inputs of analyses. -/
  hashed : List String

namespace Run

def start (g : TargetGraph) (s : Setting) (groups : List (List Library)) : Run where
  graph := g
  setting := s
  groupCount := groups.length
  recorded := []
  tasks := []
  groups
  hashed := []

def progress (r : Run) : Progress :=
  (Progress.start r.graph).recordAll (r.recorded.map fun entry => (entry.1.label, entry.2))

/-- The plan that the run has made so far. -/
def plan (r : Run) : WorkspacePlan where
  facts := r.setting.facts
  libraries := r.progress.resolver.libraries
  failures := r.progress.failures
  total := r.graph.size
  groups := r.groupCount
  tally := r.progress.tally

def Finished (r : Run) : Prop :=
  r.tasks = [] ∧ r.groups = []

/-- The run after one of its analyses took a step. -/
def access (r : Run) (before : List Task) (task task' : Task) (after : List Task) : Run :=
  { r with
    tasks := before ++ task' :: after
    hashed := task.hashes r.setting r.progress.resolver ++ r.hashed }

/-- The run after it recorded what the present group came to and turned to the next. -/
def turn (r : Run) (entries : List (Library × Outcome)) : Run :=
  { r with
    recorded := r.recorded ++ entries
    tasks := (r.groups.headD []).map .waiting
    groups := r.groups.tail }

inductive Step : Run × Cache → Run × Cache → Prop
  /-- Any analysis of the present group that is not finished gets to its next access. -/
  | access {r : Run} {cache cache' : Cache} {before after : List Task} {task task' : Task}
      (tasks : r.tasks = before ++ task :: after)
      (step : task.step r.setting r.progress.resolver cache = some (task', cache')) :
      Step (r, cache) (r.access before task task' after, cache')
  /-- Once all of them are finished, the run turns to its next group. -/
  | turn {r : Run} {cache : Cache} {entries : List (Library × Outcome)}
      (tasks : r.tasks = entries.map Task.ofEntry) (unfinished : ¬ r.Finished) :
      Step (r, cache) (r.turn entries, cache)

abbrev Steps : Run × Cache → Run × Cache → Prop :=
  Relation.ReflTransGen Step

def remaining (r : Run) : Nat :=
  (r.tasks.map Task.remaining).sum + 2 * (r.groups.map List.length).sum + 2 * r.groups.length +
    if r.tasks = [] then 0 else 1

theorem sum_remaining_waiting (group : List Library) :
    ((group.map Task.waiting).map Task.remaining).sum = 2 * group.length := by
  induction group with
  | nil => rfl
  | cons t group ih =>
    simp only [List.map_cons, List.sum_cons, List.length_cons, ih, Task.remaining]
    omega

variable {r r' : Run} {cache cache' : Cache}

theorem Step.remaining_lt (step : Step (r, cache) (r', cache')) : r'.remaining < r.remaining := by
  cases step with
  | access tasks step =>
    have less := Task.remaining_step step
    simp only [remaining, Run.access, tasks, List.map_append, List.map_cons, List.sum_append,
      List.sum_cons, List.append_eq_nil_iff, reduceCtorEq, and_false, if_false]
    omega
  | turn tasks unfinished =>
    cases groups : r.groups with
    | nil =>
      have nonempty : r.tasks ≠ [] := fun empty => unfinished ⟨empty, groups⟩
      simp [remaining, Run.turn, groups, nonempty]
    | cons group groups =>
      have waiting := sum_remaining_waiting group
      simp only [remaining, Run.turn, groups, List.headD_cons, List.tail_cons, waiting,
        List.map_cons, List.sum_cons, List.length_cons]
      split <;> split <;> omega

theorem tasks_cases (s : Setting) (resolver : Resolver) (cache : Cache) (tasks : List Task) :
    (∃ before task after, tasks = before ++ task :: after ∧
        (task.step s resolver cache).isSome) ∨
      ∃ entries : List (Library × Outcome), tasks = entries.map Task.ofEntry := by
  induction tasks with
  | nil => exact .inr ⟨[], rfl⟩
  | cons task tasks ih =>
    rcases task.step_isSome_or_finished s resolver cache with some | ⟨t, outcome, rfl⟩
    · exact .inl ⟨[], task, tasks, rfl, some⟩
    · rcases ih with ⟨before, task, after, rfl, some⟩ | ⟨entries, rfl⟩
      · exact .inl ⟨.finished t outcome :: before, task, after, rfl, some⟩
      · exact .inr ⟨(t, outcome) :: entries, rfl⟩

theorem exists_step (cache : Cache) (unfinished : ¬ r.Finished) :
    ∃ r' cache', Step (r, cache) (r', cache') := by
  rcases tasks_cases r.setting r.progress.resolver cache r.tasks with
    ⟨before, task, after, tasks, some⟩ | ⟨entries, tasks⟩
  · obtain ⟨⟨task', cache'⟩, step⟩ := Option.isSome_iff_exists.mp some
    exact ⟨_, cache', .access tasks step⟩
  · exact ⟨_, cache, .turn tasks unfinished⟩

theorem Step.static {before after : Run × Cache} (step : Step before after) :
    after.1.graph = before.1.graph ∧ after.1.setting = before.1.setting ∧
      after.1.groupCount = before.1.groupCount := by
  cases step <;> exact ⟨rfl, rfl, rfl⟩

theorem Steps.static {before after : Run × Cache} (steps : Steps before after) :
    after.1.graph = before.1.graph ∧ after.1.setting = before.1.setting ∧
      after.1.groupCount = before.1.groupCount := by
  induction steps with
  | refl => exact ⟨rfl, rfl, rfl⟩
  | tail _ step ih =>
    obtain ⟨graph, setting, groupCount⟩ := step.static
    exact ⟨graph.trans ih.1, setting.trans ih.2.1, groupCount.trans ih.2.2⟩

/-! ### One analysis after the other -/

/-- An analysis that takes all of its steps at once comes to what `Setting.analyze` says. -/
theorem steps_analyze {before after : List Task} {t : Library}
    (tasks : r.tasks = before ++ .waiting t :: after) (cache : Cache) :
    ∃ hashed, Steps (r, cache)
      ({ r with
          tasks := before ++
            .finished t (r.setting.analyze r.progress.resolver cache t).1 :: after
          hashed }, (r.setting.analyze r.progress.resolver cache t).2) := by
  unfold Setting.analyze
  cases resolved : r.progress.resolver.resolve t with
  | error error =>
    exact ⟨_, .single (.access tasks (by simp [Task.step, resolved]))⟩
  | ok dependencies =>
    cases written : r.setting.writer.fault? t dependencies with
    | some fault =>
      simp only [Writer.inputsDigest, written]
      exact ⟨_, .single (.access tasks (Task.step_of_fault resolved written))⟩
    | none =>
      have step : (Task.waiting t).step r.setting r.progress.resolver cache = _ :=
        Task.step_of_written resolved written
      simp only [Writer.inputsDigest, written]
      rcases found : cache.get t.label r.setting.fingerprint (t.inputsDigest dependencies) with
        ⟨_ | library, cache'⟩
      · cases analyzed : t.analyze dependencies r.setting.facts with
        | error error =>
          simp only [found, analyzed] at step
          exact ⟨_, .single (.access tasks step)⟩
        | ok library =>
          simp only [found, analyzed] at step
          let missed : Task := .missed t (t.inputsDigest dependencies) library
          have miss : Step (r, cache) (r.access before (.waiting t) missed after, cache') :=
            .access tasks step
          have store : Step (r.access before (.waiting t) missed after, cache') _ :=
            .access rfl rfl
          exact ⟨_, .tail (.single miss) store⟩
      · simp only [found] at step
        exact ⟨_, .single (.access tasks step)⟩

/-- The analyses of a group, one after the other, come to what `Setting.analyzeAll` says. -/
theorem steps_analyzeAll {group : List Library} {entries : List (Library × Outcome)}
    (tasks : r.tasks = entries.map Task.ofEntry ++ group.map .waiting) (cache : Cache) :
    ∃ entries' hashed,
      entries'.map (fun entry => (entry.1.label, entry.2)) =
          (r.setting.analyzeAll r.progress.resolver cache group).1 ∧
        Steps (r, cache) ({ r with tasks := (entries ++ entries').map Task.ofEntry, hashed },
          (r.setting.analyzeAll r.progress.resolver cache group).2) := by
  induction group generalizing r entries cache with
  | nil =>
    refine ⟨[], r.hashed, rfl, ?_⟩
    rw [List.append_nil, ← (by simpa using tasks : r.tasks = entries.map Task.ofEntry)]
    exact .refl
  | cons t group ih =>
    obtain ⟨hashed, first⟩ := steps_analyze tasks cache
    let outcome := (r.setting.analyze r.progress.resolver cache t).1
    let next : Run := { r with
      tasks := entries.map Task.ofEntry ++ .finished t outcome :: group.map .waiting, hashed }
    have waiting : next.tasks =
        (entries ++ [(t, outcome)]).map Task.ofEntry ++ group.map .waiting := by
      simp [next, Task.ofEntry]
    obtain ⟨entries', hashed, same, rest⟩ :=
      ih waiting (r.setting.analyze r.progress.resolver cache t).2
    refine ⟨(t, outcome) :: entries', hashed, congrArg ((t.label, outcome) :: ·) same, ?_⟩
    rw [List.append_assoc] at rest
    exact first.trans rest

theorem progress_turn (r : Run) (entries : List (Library × Outcome)) :
    (r.turn entries).progress =
      r.progress.recordAll (entries.map fun entry => (entry.1.label, entry.2)) := by
  simp only [progress, Run.turn, List.map_append, Progress.recordAll_append]

/-- The groups, one after the other, come to what `Progress.run` says. -/
theorem steps_run {groups : List (List Library)} {entries : List (Library × Outcome)}
    (tasks : r.tasks = entries.map Task.ofEntry) (rest : r.groups = groups) (cache : Cache) :
    ∃ r', Steps (r, cache) (r', ((r.turn entries).progress.run r.setting cache groups).2) ∧
      r'.Finished ∧ r'.progress = ((r.turn entries).progress.run r.setting cache groups).1 := by
  induction groups generalizing r entries cache with
  | nil =>
    by_cases finished : r.Finished
    · obtain rfl : entries = [] := List.map_eq_nil_iff.mp (tasks.symm.trans finished.1)
      exact ⟨r, .refl, finished, by simp [Progress.run, progress, Run.turn]⟩
    · refine ⟨_, .single (.turn tasks finished), ?_, rfl⟩
      simp [Finished, Run.turn, rest]
  | cons group groups ih =>
    have unfinished : ¬ r.Finished := by simp [Finished, rest]
    have waiting : (r.turn entries).tasks = ([].map Task.ofEntry) ++ group.map .waiting := by
      simp [Run.turn, rest]
    obtain ⟨entries', hashed, same, steps⟩ := steps_analyzeAll waiting cache
    obtain ⟨r', later, finished, known⟩ := ih rfl
      (r := { r.turn entries with tasks := entries'.map Task.ofEntry, hashed })
      (by simp [Run.turn, rest]) _
    have advanced : (Run.turn { r.turn entries with tasks := entries'.map Task.ofEntry, hashed }
        entries').progress = ((r.turn entries).progress.advance r.setting cache group).1 :=
      (progress_turn _ entries').trans (congrArg (r.turn entries).progress.recordAll same)
    rw [advanced] at later known
    exact ⟨r', .trans (.head (.turn tasks unfinished) steps) later, finished, known⟩

end Run

end ObjcPlan
