import ObjcPlan.Proofs.RunInvariant

/-! What a call of the planner comes to. The outcomes of the libraries are the one solution for the
cache as it is at the start: what a run stores is kept under the library that was just analyzed, so
no library that is still to be analyzed can find it. A call therefore tells the same whether its
analyses go on side by side or one after the other, and in whichever order they ask the cache and
store in it (`TargetGraph.plan_order_irrelevant`). -/

namespace ObjcPlan

open TargetGraph

/-- What a planner is asked for, apart from the cache that it may use. -/
structure Call where
  graph : TargetGraph
  options : Options
  toolchain : Toolchain
  parallel : Bool

theorem Setting.facts_of_resolve {o : Options} {toolchain : Toolchain} {s : Setting}
    (resolved : Setting.resolve o toolchain = .ok s) : Facts.resolve o toolchain = .ok s.facts := by
  unfold resolve at resolved
  split at resolved
  · contradiction
  · next facts ok =>
    obtain rfl := Except.ok.inj resolved
    exact ok

theorem Setting.writer_of_resolve {o : Options} {toolchain : Toolchain} {s : Setting}
    (resolved : Setting.resolve o toolchain = .ok s) : s.writer = toolchain.writer := by
  unfold resolve at resolved
  split at resolved
  · contradiction
  · obtain rfl := Except.ok.inj resolved
    rfl

/-- A plan with the results, the number and the kinds of the outcomes of all libraries. -/
structure WorkspacePlan.Tells (p : WorkspacePlan) (g : TargetGraph) (s : Setting)
    (outcomes : Label → Outcome) : Prop
    extends p.Holds g s fun label => (outcomes label).result where
  total : p.total = g.size
  tally : p.tally = Tally.of (g.libraries.map fun t => outcomes t.label)

/-- All that a plan says, apart from the number of its groups. -/
def WorkspacePlan.report (p : WorkspacePlan) :
    (Facts × SortedMap Label AnalyzedLibrary × SortedMap Label Failure) × Nat × Tally :=
  (p.content, p.total, p.tally)

theorem WorkspacePlan.Tells.report_eq {p p' : WorkspacePlan} {g : TargetGraph} {s : Setting}
    {outcomes outcomes' : Label → Outcome} (tells : p.Tells g s outcomes)
    (tells' : p'.Tells g s outcomes')
    (same : ∀ t ∈ g.libraries, outcomes t.label = outcomes' t.label) : p.report = p'.report := by
  have content := tells.content_eq tells'.toHolds fun t declared => by rw [same t declared]
  have outcomes := List.map_congr_left same
  rw [report, report, content, tells.total, tells'.total, tells.tally, tells'.tally, outcomes]

namespace Call

/-- The start of the planning run, unless the configuration is bad or the libraries cannot be
ordered. -/
def start (c : Call) : Except PlanError Run :=
  match Setting.resolve c.options c.toolchain with
  | .error error => .error error
  | .ok setting => (c.graph.schedule c.parallel).map (Run.start c.graph setting)

def plan (c : Call) (cache : Cache) : Except PlanError WorkspacePlan :=
  (c.graph.plan c.options c.toolchain c.parallel cache).1

/-- What the call may come to on a cache if the analyses of a group take turns in any order. -/
inductive Yields (c : Call) (cache : Cache) : Except PlanError WorkspacePlan → Prop
  | refused {error : PlanError} (start : c.start = .error error) : Yields c cache (.error error)
  | finished {r r' : Run} {cache' : Cache} (start : c.start = .ok r)
      (steps : Run.Steps (r, cache) (r', cache')) (finished : r'.Finished) :
      Yields c cache (.ok r'.plan)

/-- A call is refused, or it starts a run over a schedule that can end in its plan. -/
theorem start_cases (c : Call) :
    (∃ error, c.start = .error error ∧ ∀ cache, c.plan cache = .error error) ∨
      ∃ setting groups, Setting.resolve c.options c.toolchain = .ok setting ∧
        c.start = .ok (Run.start c.graph setting groups) ∧ c.graph.Schedule groups ∧
        ∀ cache, ∃ r cache', Run.Steps (Run.start c.graph setting groups, cache) (r, cache') ∧
          r.Finished ∧ c.plan cache = .ok r.plan := by
  unfold start plan TargetGraph.plan
  cases resolved : Setting.resolve c.options c.toolchain with
  | error error => exact .inl ⟨error, rfl, fun _ => rfl⟩
  | ok setting =>
    rcases c.graph.schedule_cases c.parallel with ⟨groups, ok, schedule⟩ | ⟨error, _⟩
    · refine .inr ⟨setting, groups, rfl, by rw [ok]; rfl, schedule, fun cache => ?_⟩
      have idle : (Run.start c.graph setting groups).tasks = [].map Task.ofEntry := rfl
      obtain ⟨r, steps, finished, known⟩ := Run.steps_run idle rfl cache
      refine ⟨r, _, steps, finished, ?_⟩
      obtain ⟨graph, setting', groupCount⟩ := steps.static
      rw [ok, Run.plan, graph, setting', groupCount, known]
      rfl
    · exact .inl ⟨_, by rw [error]; rfl, fun _ => by rw [error]⟩

theorem yields_plan (c : Call) (cache : Cache) : c.Yields cache (c.plan cache) := by
  rcases c.start_cases with ⟨error, refused, same⟩ | ⟨_, _, _, start, _, ends⟩
  · exact same cache ▸ .refused refused
  · obtain ⟨r, cache', steps, finished, same⟩ := ends cache
    exact same ▸ .finished start steps finished

end Call

theorem Setting.judge_congr {s : Setting} {c c' : Cache} {t : Library}
    (same : c.entries.get? ⟨t.label, s.fingerprint⟩ = c'.entries.get? ⟨t.label, s.fingerprint⟩)
    (dependencies : Except PlanError (List Dependency)) :
    s.judge c t dependencies = s.judge c' t dependencies := by
  cases dependencies with
  | error => rfl
  | ok => simp only [judge, Cache.find?, same]

/-- The standard of a run that is alone on its cache: every library has one outcome. -/
def TargetGraph.Solution.standard {g : TargetGraph} {s : Setting} {cache : Cache}
    {outcomes : Label → Outcome} (solution : g.Solution (s.judge cache) outcomes) : Standard where
  results label := (outcomes label).result
  admits t outcome := t ∈ g.libraries ∧ outcome = outcomes t.label
  result := by
    rintro t _ ⟨_, rfl⟩
    rfl
  own := by
    rintro t _ library ⟨declared, rfl⟩ ok
    rw [solution t declared] at ok
    exact Setting.label_of_judge ok

namespace Run

variable {std : Standard} {r r' : Run} {origin cache cache' : Cache}

/-- Libraries that did not ask the cache yet. -/
def Pending (r : Run) (t : Library) : Prop :=
  .waiting t ∈ r.tasks ∨ t ∈ r.groups.flatten

/-- Libraries that did not ask the cache yet find there what was there at the start. -/
def Untouched (origin : Cache) (r : Run) (cache : Cache) : Prop :=
  ∀ t, r.Pending t → cache.entries.get? ⟨t.label, r.setting.fingerprint⟩ =
    origin.entries.get? ⟨t.label, r.setting.fingerprint⟩

theorem Task.step_ne_waiting {s : Setting} {resolver : Resolver} {task task' : Task} (t : Library)
    (step : task.step s resolver cache = some (task', cache')) : task' ≠ .waiting t := by
  rintro rfl
  have less := Task.remaining_step step
  cases task <;> simp [Task.remaining] at less

theorem pending_access {before after : List Task} {task task' : Task} {t : Library}
    (tasks : r.tasks = before ++ task :: after) (asked : task' ≠ .waiting t)
    (pending : (r.access before task task' after).Pending t) :
    (.waiting t ∈ before ++ after ∨ t ∈ r.groups.flatten) ∧ r.Pending t := by
  rcases pending with mem | mem
  · have old : .waiting t ∈ before ++ after := by
      simpa [access, asked.symm] using mem
    refine ⟨.inl old, .inl ?_⟩
    rw [tasks]
    simp only [List.mem_append, List.mem_cons] at old ⊢
    tauto
  · exact ⟨.inr mem, .inr mem⟩

theorem pending_turn {entries : List (Library × Outcome)} {t : Library}
    (pending : (r.turn entries).Pending t) : r.Pending t := by
  refine .inr ?_
  cases groups : r.groups with
  | nil => simp [Pending, turn, groups] at pending
  | cons group groups' => simpa [Pending, turn, groups] using pending

theorem Keeps.label_ne (kept : r.Keeps std) {before after : List Task} {task : Task} {t : Library}
    (tasks : r.tasks = before ++ task :: after)
    (other : .waiting t ∈ before ++ after ∨ t ∈ r.groups.flatten) :
    t.label ≠ task.library.label := by
  have distinct := (kept.complete.map (·.label)).nodup_iff.mpr r.graph.nodup_labels
  simp only [tasks, List.map_append, List.map_cons, List.append_assoc, List.cons_append] at distinct
  rw [← List.append_assoc, List.nodup_middle, List.nodup_cons] at distinct
  refine fun same => distinct.1 ?_
  simp only [← same, List.mem_append, List.mem_map]
  rcases other with mem | mem
  · rcases List.mem_append.mp mem with mem | mem
    · exact .inl (.inr ⟨t, ⟨_, mem, rfl⟩, rfl⟩)
    · exact .inr (.inl ⟨t, ⟨_, mem, rfl⟩, rfl⟩)
  · exact .inr (.inr ⟨t, mem, rfl⟩)

theorem Untouched.step (untouched : Untouched origin r cache) (kept : r.Keeps std)
    (step : Step (r, cache) (r', cache')) : Untouched origin r' cache' := by
  cases step with
  | @access _ _ _ before after task task' tasks step =>
    intro t pending
    obtain ⟨other, before⟩ := pending_access tasks (Task.step_ne_waiting t step) pending
    refine Eq.trans ?_ (untouched t before)
    cases task with
    | waiting u =>
      rw [(Task.step_waiting step).1]
      rfl
    | missed u digest library =>
      cases step
      have admitted := kept.tasks (.missed u digest library) (by simp [tasks])
      have apart := kept.label_ne tasks other
      refine SortedMap.get?_insert_of_ne _ _ fun same => apart ?_
      rw [Task.library, ← std.own admitted rfl]
      exact congrArg Cache.Key.label same
    | finished => contradiction
  | turn => exact fun t pending => untouched t (pending_turn pending)

/-- A run that is alone on its cache keeps to the solution for the cache as it was at the start. -/
theorem steps_keep {g : TargetGraph} {s : Setting} {groups : List (List Library)}
    {outcomes : Label → Outcome} (schedule : g.Schedule groups)
    (solution : g.Solution (s.judge origin) outcomes) {after : Run × Cache}
    (steps : Steps (start g s groups, origin) after) :
    after.1.Keeps solution.standard ∧ Untouched origin after.1 after.2 := by
  induction steps with
  | refl => exact ⟨.start _ s schedule, fun _ _ => rfl⟩
  | @tail before after steps step ih =>
    obtain ⟨kept, untouched⟩ := ih
    obtain ⟨graph, setting, _⟩ := Steps.static steps
    refine ⟨kept.step step fun t waiting _ => ?_, untouched.step kept step⟩
    have declared := kept.declared (.inr (.inl (List.mem_map_of_mem waiting)))
    rw [Setting.judge_congr (untouched t (.inl waiting)), graph, setting]
    rw [graph] at declared
    exact ⟨declared, (solution t declared).symm⟩

end Run

namespace Call

theorem Yields.of_refused {c : Call} {cache : Cache} {result : Except PlanError WorkspacePlan}
    (yields : c.Yields cache result) {error : PlanError} (refused : c.start = .error error) :
    result = .error error := by
  cases yields with
  | refused start => exact congrArg Except.error (Except.error.inj (start.symm.trans refused))
  | finished start => simp [refused] at start

/-- A call that starts a run comes to a plan with the outcomes that solve the graph for the
cache. -/
theorem Yields.of_started {c : Call} {cache : Cache} {result : Except PlanError WorkspacePlan}
    (yields : c.Yields cache result) {r : Run} (started : c.start = .ok r) :
    ∃ setting groups outcomes plan, Setting.resolve c.options c.toolchain = .ok setting ∧
      c.graph.Schedule groups ∧ c.graph.Solution (setting.judge cache) outcomes ∧
      result = .ok plan ∧ plan.Tells c.graph setting outcomes := by
  cases yields with
  | refused start => simp [started] at start
  | @finished r r' cache' start steps finished =>
    rcases c.start_cases with ⟨_, refused, _⟩ | ⟨setting, groups, resolved, same, schedule, _⟩
    · simp [refused] at start
    · obtain rfl := Except.ok.inj (same.symm.trans start)
      obtain ⟨outcomes, solution⟩ := schedule.exists_solution (setting.judge cache)
      have kept := (Run.steps_keep schedule solution steps).1
      have holds := kept.holds finished
      have tally := kept.tally_eq finished fun admitted => admitted.2
      obtain ⟨graph, setting', _⟩ := steps.static
      rw [graph, setting'] at holds
      rw [graph] at tally
      exact ⟨setting, groups, outcomes, r'.plan, resolved, schedule, solution, rfl,
        ⟨holds, congrArg TargetGraph.size graph, tally⟩⟩

theorem exists_plan (c : Call) (cache : Cache)
    (resolved : (Facts.resolve c.options c.toolchain).isOk = true)
    (ordered : (c.graph.schedule c.parallel).isOk = true) : ∃ p, c.plan cache = .ok p := by
  unfold plan TargetGraph.plan Setting.resolve
  cases facts : Facts.resolve c.options c.toolchain with
  | error error => simp [facts] at resolved
  | ok facts =>
    cases groups : c.graph.schedule c.parallel with
    | error error => simp [groups] at ordered
    | ok groups => exact ⟨_, rfl⟩

theorem tells_of_plan {c : Call} {cache : Cache} {p : WorkspacePlan}
    (planned : c.plan cache = .ok p) :
    ∃ setting groups outcomes, Setting.resolve c.options c.toolchain = .ok setting ∧
      c.graph.Schedule groups ∧ c.graph.Solution (setting.judge cache) outcomes ∧
      p.Tells c.graph setting outcomes := by
  have yields := c.yields_plan cache
  rw [planned] at yields
  cases start : c.start with
  | error error => simpa using yields.of_refused start
  | ok r =>
    obtain ⟨setting, groups, outcomes, _, resolved, schedule, solution, ⟨⟩, tells⟩ :=
      yields.of_started start
    exact ⟨setting, groups, outcomes, resolved, schedule, solution, tells⟩

/-- Whether a call is refused at the start does not depend on whether analyses may go on side by
side. -/
theorem start_agree (c : Call) (parallel : Bool) :
    (∃ error, c.start = .error error ∧ { c with parallel }.start = .error error) ∨
      ∃ r r', c.start = .ok r ∧ { c with parallel }.start = .ok r' := by
  unfold start
  cases Setting.resolve c.options c.toolchain with
  | error error => exact .inl ⟨error, rfl, rfl⟩
  | ok setting =>
    rcases c.graph.schedule_agree c.parallel parallel with
      ⟨groups, groups', ok, ok', _⟩ | ⟨error, refused, refused'⟩
    · exact .inr ⟨_, _, by rw [ok]; rfl, by rw [ok']; rfl⟩
    · exact .inl ⟨error, by rw [refused]; rfl, by rw [refused']; rfl⟩

end Call

/-- Neither the groups nor the order of steps matter to what a call reports. -/
theorem Call.Yields.report_eq {c : Call} {cache : Cache} {parallel : Bool}
    {result result' : Except PlanError WorkspacePlan} (yields : c.Yields cache result)
    (yields' : { c with parallel }.Yields cache result') :
    result.map WorkspacePlan.report = result'.map WorkspacePlan.report := by
  rcases c.start_agree parallel with ⟨error, refused, refused'⟩ | ⟨_, _, started, started'⟩
  · rw [yields.of_refused refused, yields'.of_refused refused']
  · obtain ⟨setting, groups, outcomes, plan, resolved, schedule, solution, rfl, tells⟩ :=
      yields.of_started started
    obtain ⟨setting', _, outcomes', plan', resolved', _, solution', rfl, tells'⟩ :=
      yields'.of_started started'
    obtain rfl := Except.ok.inj (resolved.symm.trans resolved')
    exact congrArg Except.ok (tells.report_eq tells' (schedule.solution_unique solution solution'))

theorem Run.wellFounded_step : WellFounded fun after before => Run.Step before after :=
  Subrelation.wf (fun {after before} (step : Run.Step before after) => step.remaining_lt)
    (measure fun state : Run × Cache => state.1.remaining).wf

/-- Whatever the cache holds, a call reports the same whether the libraries are analyzed in groups
or one by one. In whichever order the analyses of a group ask the cache and store in it, the run can
go on until it is finished, it does not go on forever, and it ends with the same report. -/
theorem TargetGraph.plan_order_irrelevant (g : TargetGraph) (o : Options) (toolchain : Toolchain)
    (cache : Cache) :
    (g.plan o toolchain true cache).1.map WorkspacePlan.report =
        (g.plan o toolchain false cache).1.map WorkspacePlan.report ∧
      (∀ parallel report,
        (∃ result, Call.Yields ⟨g, o, toolchain, parallel⟩ cache result ∧
            result.map WorkspacePlan.report = report) ↔
          report = (g.plan o toolchain false cache).1.map WorkspacePlan.report) ∧
      (WellFounded fun after before => Run.Step before after) ∧
      ∀ (r : Run) (cache : Cache), r.Finished ∨ ∃ after, Run.Step (r, cache) after := by
  have own (parallel : Bool) := Call.yields_plan ⟨g, o, toolchain, parallel⟩ cache
  refine ⟨(own true).report_eq (own false), fun parallel report => ⟨?_, ?_⟩,
    Run.wellFounded_step, fun r cache => ?_⟩
  · rintro ⟨result, yields, rfl⟩
    exact yields.report_eq (own false)
  · rintro rfl
    exact ⟨_, own parallel, (own parallel).report_eq (own false)⟩
  · by_cases finished : r.Finished
    · exact .inl finished
    · obtain ⟨r', cache', step⟩ := Run.exists_step cache finished
      exact .inr ⟨_, step⟩

end ObjcPlan
