import ObjcPlan.Proofs.Calls

/-! What a run has hashed and stored so far. It has hashed the inputs of the analyses that asked the
cache (`Run.Hashes`), and if the cache was empty when it started, it has stored there the analyses
that are finished, each with the digest of its inputs, and nothing else is there (`Run.Files`). -/

namespace ObjcPlan

open TargetGraph

/-- Whether an analysis has asked the cache. -/
def Task.hasAsked : Task → Bool
  | waiting _ => false
  | missed .. | finished .. => true

def Task.isFinished : Task → Bool
  | waiting _ | missed .. => false
  | finished .. => true

/-- What the cache did not have is stored before the analysis is finished. -/
theorem Task.ne_analyzed_of_waiting {s : Setting} {resolver : Resolver} {cache cache' : Cache}
    {t u : Library} {outcome : Outcome}
    (step : (waiting t).step s resolver cache = some (finished u outcome, cache'))
    (library : AnalyzedLibrary) : outcome ≠ .analyzed library := by
  rintro rfl
  cases resolved : resolver.resolve t with
  | error error => simp [Task.step, resolved] at step
  | ok dependencies =>
    cases written : s.writer.fault? t dependencies with
    | some fault => simp [step_of_fault resolved written] at step
    | none =>
      rw [step_of_written resolved written] at step
      rcases found : cache.get t.label s.fingerprint (t.inputsDigest dependencies) with ⟨_ | _, _⟩
      · cases analyzed : t.analyze dependencies s.facts <;> simp [found, analyzed] at step
      · simp [found] at step

theorem Task.mem_hashes_waiting {s : Setting} {resolver : Resolver} {t : Library} {text : String} :
    text ∈ (waiting t).hashes s resolver ↔ ∃ dependencies, resolver.resolve t = .ok dependencies ∧
      s.writer.fault? t dependencies = none ∧ text = t.inputsMessage dependencies := by
  cases resolved : resolver.resolve t with
  | error => simp [hashes, resolved]
  | ok dependencies =>
    cases written : s.writer.fault? t dependencies <;> simp [hashes, resolved, written]

namespace Run

variable {g : TargetGraph} {s : Setting} {origin cache cache' : Cache}
  {outcomes : Label → Outcome} {r r' : Run} {t u : Library}

/-- The libraries whose analyses pass a test, with those of earlier groups. -/
def passed (r : Run) (test : Task → Bool) : List Library :=
  r.recorded.map (·.1) ++ (r.tasks.filter test).map Task.library

theorem mem_passed_of_mem {test : Task → Bool} {task : Task} (mem : task ∈ r.tasks)
    (passes : test task = true) : task.library ∈ r.passed test :=
  List.mem_append_right _ (List.mem_map_of_mem (List.mem_filter.mpr ⟨mem, passes⟩))

theorem Keeps.mem_of_passed {std : Standard} {test : Task → Bool} (kept : r.Keeps std)
    (mem : t ∈ r.passed test) : t ∈ r.graph.libraries := by
  refine kept.declared ?_
  rcases List.mem_append.mp mem with mem | mem
  · exact .inl mem
  · obtain ⟨task, passes, rfl⟩ := List.mem_map.mp mem
    exact .inr (.inl (List.mem_map_of_mem (List.mem_of_mem_filter passes)))

theorem mem_passed_access {test : Task → Bool} {before after : List Task} {task task' : Task}
    (tasks : r.tasks = before ++ task :: after) (same : task'.library = task.library)
    (stays : test task = true → test task' = true) :
    u ∈ (r.access before task task' after).passed test ↔
      (u = task.library ∧ test task' = true) ∨ u ∈ r.passed test := by
  simp only [passed, access, tasks, List.filter_append, List.filter_cons, List.map_append,
    List.mem_append]
  cases had : test task
  · cases has : test task' <;> simp [same]
    grind
  · simp [stays had, same]
    grind

theorem mem_passed_turn {test : Task → Bool} {entries : List (Library × Outcome)}
    (tasks : r.tasks = entries.map Task.ofEntry) (idle : ∀ t, test (.waiting t) = false)
    (ended : ∀ t outcome, test (.finished t outcome) = true) :
    u ∈ (r.turn entries).passed test ↔ u ∈ r.passed test := by
  have none_waits (group : List Library) : (group.map Task.waiting).filter test = [] := by
    simp [List.filter_eq_nil_iff, idle]
  have all_ended : (entries.map Task.ofEntry).filter test = entries.map Task.ofEntry := by
    refine List.filter_eq_self.mpr fun task mem => ?_
    obtain ⟨entry, _, rfl⟩ := List.mem_map.mp mem
    exact ended entry.1 entry.2
  have libraries : (entries.map Task.ofEntry).map Task.library = entries.map (·.1) := by
    rw [List.map_map]
    rfl
  simp [passed, turn, tasks, none_waits, all_ended, libraries]

theorem mem_passed_of_finished {std : Standard} {test : Task → Bool} (kept : r.Keeps std)
    (finished : r.Finished) : t ∈ r.passed test ↔ t ∈ r.graph.libraries := by
  rw [← (kept.recorded_perm finished).mem_iff, passed, finished.1]
  simp

/-- A run has hashed the inputs of the libraries that asked the cache, where they can be written. -/
def Hashes (results : Results) (r : Run) : Prop :=
  ∀ text, text ∈ r.hashed ↔ ∃ t ∈ r.passed Task.hasAsked, ∃ dependencies,
    r.graph.supplies results t = .ok dependencies ∧
      r.setting.writer.fault? t dependencies = none ∧ text = t.inputsMessage dependencies

theorem Hashes.step {std : Standard} (hashes : r.Hashes std.results) (kept : r.Keeps std)
    (step : Step (r, cache) (r', cache')) : r'.Hashes std.results := by
  intro text
  cases step with
  | @access _ _ _ before after task task' tasks step =>
    have asks : task'.hasAsked = true := by
      cases task' with
      | waiting t => exact absurd rfl (Task.step_ne_waiting t step)
      | _ => rfl
    have hashed : (r.access before task task' after).hashed =
        task.hashes r.setting r.progress.resolver ++ r.hashed := rfl
    simp only [hashed, List.mem_append, hashes text, or_and_right, exists_or, exists_eq_left,
      mem_passed_access tasks (Task.library_step step) fun _ => asks, asks, and_true]
    refine or_congr_left' fun absent => ?_
    cases task with
    | waiting t =>
      have waits : Task.waiting t ∈ r.tasks := by simp [tasks]
      have resolved : r.progress.resolver.resolve t = r.graph.supplies std.results t :=
        kept.resolve waits
      rw [Task.mem_hashes_waiting, resolved]
      rfl
    | missed t digest library =>
      have missed : Task.missed t digest library ∈ r.tasks := by simp [tasks]
      have asked : t ∈ r.passed Task.hasAsked := mem_passed_of_mem missed rfl
      exact ⟨nofun, fun now => absurd ⟨t, asked, now⟩ absent⟩
    | finished => contradiction
  | @turn _ _ entries tasks _ =>
    have same (u : Library) : u ∈ (r.turn entries).passed Task.hasAsked ↔ _ :=
      mem_passed_turn tasks (fun _ => rfl) fun _ _ => rfl
    simp only [same]
    exact hashes text

/-- A run that started with an empty cache has stored there the analyses that it made, each with the
digest of its inputs, and nothing else is there. -/
structure Files (outcomes : Label → Outcome) (r : Run) (cache : Cache) : Prop where
  stored : ∀ key entry, cache.entries.get? key = some entry ↔
    ∃ t ∈ r.passed Task.isFinished, key = ⟨t.label, r.setting.fingerprint⟩ ∧
      outcomes t.label = .analyzed entry.library ∧ ∃ dependencies,
        r.graph.supplies (fun label => (outcomes label).result) t = .ok dependencies ∧
          entry.digest = t.inputsDigest dependencies
  unstored : ∀ t digest library, .missed t digest library ∈ r.tasks → ∃ dependencies,
    r.graph.supplies (fun label => (outcomes label).result) t = .ok dependencies ∧
      digest = t.inputsDigest dependencies

theorem Files.start (g : TargetGraph) (s : Setting) (groups : List (List Library)) :
    (Run.start g s groups).Files outcomes .empty where
  stored := by simp [passed, Run.start, Cache.empty]
  unstored := by simp [Run.start]

/-- The outcome that a run without an earlier one keeps to at every library. -/
theorem Keeps.outcome_eq {solution : g.Solution (s.judge origin) outcomes}
    (kept : r.Keeps solution.standard) {t : Library} {outcome : Outcome}
    (ended : .finished t outcome ∈ r.tasks) : outcome = outcomes t.label :=
  (kept.tasks _ ended).2

theorem Files.ask {solution : g.Solution (s.judge origin) outcomes}
    (files : r.Files outcomes cache) (kept : r.Keeps solution.standard)
    {before after : List Task} {task' : Task}
    (tasks : r.tasks = before ++ .waiting t :: after)
    (kept' : (r.access before (.waiting t) task' after).Keeps solution.standard)
    (step : (Task.waiting t).step r.setting r.progress.resolver cache = some (task', cache')) :
    (r.access before (.waiting t) task' after).Files outcomes cache' := by
  have library := Task.library_step step
  have mem : task' ∈ (r.access before (.waiting t) task' after).tasks := by simp [access]
  have waits : Task.waiting t ∈ r.tasks := by simp [tasks]
  have resolved : r.progress.resolver.resolve t = r.graph.supplies _ t := kept.resolve waits
  constructor
  · intro key entry
    rw [(Task.step_waiting step).1, files.stored key entry]
    have unfinished : Task.isFinished (.waiting t) ≠ true := Bool.false_ne_true
    simp only [mem_passed_access tasks library fun ended => absurd ended unfinished]
    refine exists_congr fun u => ⟨And.imp_left .inr, ?_⟩
    rintro ⟨⟨same, ended⟩ | old, rest⟩
    · cases task' with
      | finished v outcome =>
        obtain rfl : u = v := same.trans library.symm
        have analyzed := (kept'.outcome_eq mem).trans rest.2.1
        exact absurd analyzed (Task.ne_analyzed_of_waiting step _)
      | _ => contradiction
    · exact ⟨old, rest⟩
  · intro u digest library missed
    simp only [access, List.mem_append, List.mem_cons] at missed
    rcases missed with old | rfl | old
    · exact files.unstored u digest library (by simp [tasks, old])
    · obtain ⟨_, same | ⟨dependencies, _, ok, _, _, _, same⟩⟩ := Task.step_waiting step
      · cases same
      · cases same
        exact ⟨dependencies, resolved.symm.trans ok, rfl⟩
    · exact files.unstored u digest library (by simp [tasks, old])

theorem Files.store {solution : g.Solution (s.judge origin) outcomes}
    (files : r.Files outcomes cache) (kept : r.Keeps solution.standard)
    {before after : List Task} {digest : String} {library : AnalyzedLibrary}
    (tasks : r.tasks = before ++ .missed t digest library :: after) :
    (r.access before (.missed t digest library) (.finished t (.analyzed library)) after).Files
      outcomes (cache.insert r.setting.fingerprint digest library) := by
  have mem : .missed t digest library ∈ r.tasks := by simp [tasks]
  obtain ⟨member, analyzed⟩ := kept.tasks _ mem
  have label : library.label = t.label := solution.standard.own (kept.tasks _ mem) rfl
  obtain ⟨dependencies, supplied, rfl⟩ := files.unstored t digest library mem
  constructor
  · intro key entry
    have passed (u : Library) : u ∈ (r.access before (.missed t _ library)
        (.finished t (.analyzed library)) after).passed Task.isFinished ↔ _ :=
      mem_passed_access tasks rfl fun _ => rfl
    simp only [passed, Task.library, Task.isFinished, and_true]
    by_cases same : key = ⟨library.label, r.setting.fingerprint⟩
    · subst same
      rw [Cache.insert, SortedMap.get?_insert_self, Option.some.injEq]
      constructor
      · rintro rfl
        exact ⟨t, .inl rfl, by rw [label]; rfl, analyzed.symm, dependencies, supplied, rfl⟩
      · rintro ⟨u, done, same, analyzed', dependencies', supplied', digest⟩
        have labels : u.label = t.label := (congrArg Cache.Key.label same).symm.trans label
        have declared : u ∈ r.graph.libraries := by
          rcases done with rfl | done
          · exact kept.declared (.inr (.inl (List.mem_map_of_mem mem)))
          · exact kept.mem_of_passed done
        obtain rfl := eq_of_label_eq declared
          (kept.declared (.inr (.inl (List.mem_map_of_mem mem)))) labels
        obtain rfl := Outcome.analyzed.inj (analyzed.trans analyzed')
        obtain rfl := Except.ok.inj (supplied.symm.trans supplied')
        rw [← digest]
    · rw [Cache.insert, SortedMap.get?_insert_of_ne _ _ same, files.stored key entry]
      refine exists_congr fun u => ⟨And.imp_left .inr, ?_⟩
      rintro ⟨rfl | old, isKey, rest⟩
      · exact absurd (isKey.trans (by rw [label]; rfl)) same
      · exact ⟨old, isKey, rest⟩
  · intro u digest' library' missed
    refine files.unstored u digest' library' ?_
    simp only [access, List.mem_append, List.mem_cons, reduceCtorEq, false_or] at missed
    simp only [tasks, List.mem_append, List.mem_cons]
    tauto

theorem Files.turn (files : r.Files outcomes cache) {entries : List (Library × Outcome)}
    (tasks : r.tasks = entries.map Task.ofEntry) : (r.turn entries).Files outcomes cache where
  stored key entry := by
    have same (u : Library) : u ∈ (r.turn entries).passed Task.isFinished ↔ _ :=
      mem_passed_turn tasks (fun _ => rfl) fun _ _ => rfl
    simp only [same]
    exact files.stored key entry
  unstored t digest library missed := by
    obtain ⟨_, _, same⟩ := List.mem_map.mp missed
    cases same

theorem Files.step {solution : g.Solution (s.judge origin) outcomes}
    (files : r.Files outcomes cache) (kept : r.Keeps solution.standard)
    (kept' : r'.Keeps solution.standard) (step : Step (r, cache) (r', cache')) :
    r'.Files outcomes cache' := by
  cases step with
  | @access _ _ _ before after task task' tasks step =>
    cases task with
    | waiting t => exact files.ask kept tasks kept' step
    | missed t digest library =>
      cases step
      exact files.store kept tasks
    | finished => contradiction
  | turn tasks _ => exact files.turn tasks

theorem steps_file {groups : List (List Library)} (schedule : g.Schedule groups)
    (solution : g.Solution (s.judge .empty) outcomes) {after : Run × Cache}
    (steps : Steps (start g s groups, .empty) after) : after.1.Files outcomes after.2 := by
  induction steps with
  | refl => exact .start g s groups
  | tail steps step ih =>
    exact ih.step (steps_keep schedule solution steps).1
      (steps_keep schedule solution (steps.tail step)).1 step

theorem steps_hash {groups : List (List Library)} (schedule : g.Schedule groups)
    (solution : g.Solution (s.judge origin) outcomes) {after : Run × Cache}
    (steps : Steps (start g s groups, origin) after) :
    after.1.Hashes fun label => (outcomes label).result := by
  induction steps with
  | refl => simp [Hashes, passed, Run.start]
  | tail steps step ih => exact Hashes.step ih (steps_keep schedule solution steps).1 step

end Run

end ObjcPlan
