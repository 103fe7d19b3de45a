import ObjcPlan.Proofs.Interleaving

/-! What every step of a planning run keeps. The outcomes of its libraries are held against a
`Standard`, which tells what they may be; a run keeps to it as long as the cache answers by it
(`Run.Keeps.step`). A run that kept to a standard to its end has a plan that the standard decides
(`Run.Keeps.plan`). -/

namespace ObjcPlan

namespace WorkspacePlan

/-- A plan that holds the results of all libraries of a graph. -/
structure Holds (p : WorkspacePlan) (g : TargetGraph) (s : Setting) (results : Results) :
    Prop where
  facts : p.facts = s.facts
  libraries : ∀ label library, p.libraries.get? label = some library ↔
    (∃ t ∈ g.libraries, t.label = label) ∧ results label = .ok library
  failures : ∀ label error, p.failures.get? label = some error ↔
    (∃ t ∈ g.libraries, t.label = label) ∧ results label = .error error

/-- What a plan is for: the configuration with the analysis or the failure of every library. -/
def content (p : WorkspacePlan) :
    Facts × SortedMap Label AnalyzedLibrary × SortedMap Label Failure :=
  (p.facts, p.libraries, p.failures)

theorem Holds.content_eq {p p' : WorkspacePlan} {g : TargetGraph} {s : Setting}
    {results results' : Results} (holds : p.Holds g s results) (holds' : p'.Holds g s results')
    (same : ∀ t ∈ g.libraries, results t.label = results' t.label) : p.content = p'.content := by
  have libraries : p.libraries = p'.libraries := by
    refine SortedMap.ext_get? fun label => Option.ext fun library => ?_
    rw [holds.libraries, holds'.libraries]
    refine and_congr_right ?_
    rintro ⟨t, declared, rfl⟩
    rw [same t declared]
  have failures : p.failures = p'.failures := by
    refine SortedMap.ext_get? fun label => Option.ext fun error => ?_
    rw [holds.failures, holds'.failures]
    refine and_congr_right ?_
    rintro ⟨t, declared, rfl⟩
    rw [same t declared]
  rw [content, content, holds.facts, holds'.facts, libraries, failures]

end WorkspacePlan

/-- What outcomes are held against: those that each library may have, with the one result that they
share. -/
structure Standard where
  results : Results
  admits : Library → Outcome → Prop
  result : ∀ {t outcome}, admits t outcome → outcome.result = results t.label
  own : ∀ {t outcome library}, admits t outcome → outcome.result = .ok library →
    library.label = t.label

/-- Whether what an analysis came to so far is admitted. -/
def Task.Fits (std : Standard) : Task → Prop
  | waiting _ => True
  | missed t _ library => std.admits t (.analyzed library)
  | finished t outcome => std.admits t outcome

namespace Run

open TargetGraph

variable {std : Standard} {r r' : Run} {cache cache' : Cache} {g : TargetGraph}
  {groups : List (List Library)}

/-- The run handles every library once, after those that it needs, and all outcomes are admitted. -/
structure Keeps (std : Standard) (r : Run) : Prop where
  complete : (r.recorded.map (·.1) ++ r.tasks.map Task.library ++ r.groups.flatten).Perm
    r.graph.libraries
  ready : r.graph.Ready (r.recorded.map (·.1)) (r.tasks.map Task.library :: r.groups)
  recorded : ∀ entry ∈ r.recorded, std.admits entry.1 entry.2
  tasks : ∀ task ∈ r.tasks, task.Fits std

theorem Keeps.start (std : Standard) (s : Setting) (schedule : g.Schedule groups) :
    (Run.start g s groups).Keeps std where
  complete := schedule.complete
  ready := ⟨by simp [Run.start], schedule.ready⟩
  recorded := by simp [Run.start]
  tasks := by simp [Run.start]

namespace Keeps

theorem declared (kept : r.Keeps std) {t : Library}
    (h : t ∈ r.recorded.map (·.1) ∨ t ∈ r.tasks.map Task.library ∨ t ∈ r.groups.flatten) :
    t ∈ r.graph.libraries :=
  kept.complete.subset (by simpa [List.mem_append, or_assoc] using h)

theorem knows (kept : r.Keeps std) :
    Progress.Knows r.graph std.results (r.recorded.map (·.1.label)) r.progress := by
  have right : Progress.Right r.graph std.results
      (r.recorded.map fun entry => (entry.1.label, entry.2)) := by
    intro _ mem
    obtain ⟨entry, isEntry, rfl⟩ := List.mem_map.mp mem
    have admitted := kept.recorded entry isEntry
    exact ⟨entry.1, kept.declared (.inl (List.mem_map_of_mem isEntry)), rfl, std.result admitted,
      fun _ => std.own admitted⟩
  have known := (Progress.Knows.start r.graph std.results).recordAll right
  simpa [Function.comp_def, progress] using known

theorem resolve (kept : r.Keeps std) {task : Task} (mem : task ∈ r.tasks) :
    r.progress.resolver.resolve task.library = r.graph.supplies std.results task.library := by
  refine kept.knows.resolve fun u declared needs => ?_
  have handled := kept.ready.1 task.library (List.mem_map_of_mem mem) u declared needs
  obtain ⟨entry, isEntry, rfl⟩ := List.mem_map.mp handled
  exact List.mem_map_of_mem isEntry

theorem access (kept : r.Keeps std) {before after : List Task} {task task' : Task}
    (tasks : r.tasks = before ++ task :: after) (same : task'.library = task.library)
    (fits : task'.Fits std) : (r.access before task task' after).Keeps std where
  complete := by simpa [Run.access, tasks, same] using kept.complete
  ready := by simpa [Run.access, tasks, same] using kept.ready
  recorded := kept.recorded
  tasks := by
    intro other mem
    have old : ∀ task ∈ before ++ after, task.Fits std := fun task mem =>
      kept.tasks task (by rw [tasks]; simp only [List.mem_append, List.mem_cons] at *; tauto)
    simp only [Run.access, List.mem_append, List.mem_cons] at mem
    rcases mem with mem | rfl | mem
    · exact old other (List.mem_append_left _ mem)
    · exact fits
    · exact old other (List.mem_append_right _ mem)

theorem turn (kept : r.Keeps std) {entries : List (Library × Outcome)}
    (tasks : r.tasks = entries.map Task.ofEntry) : (r.turn entries).Keeps std := by
  have libraries : r.tasks.map Task.library = entries.map (·.1) := by
    rw [tasks, List.map_map]
    rfl
  obtain ⟨complete, ⟨_, later⟩, recorded, fits⟩ := kept
  rw [libraries] at complete later
  have waiting (group : List Library) : (group.map Task.waiting).map Task.library = group := by
    rw [List.map_map]
    exact List.map_id group
  refine ⟨?_, ?_, ?_, ?_⟩
  · cases groups : r.groups <;>
      simpa [Run.turn, groups, waiting] using complete
  · cases groups : r.groups with
    | nil => exact ⟨by simp [Run.turn, groups], by simp [Run.turn, groups, Ready]⟩
    | cons group groups' =>
      simpa [Run.turn, groups, waiting] using later
  · intro entry mem
    rcases List.mem_append.mp mem with mem | mem
    · exact recorded entry mem
    · exact fits (.ofEntry entry) (tasks ▸ List.mem_map_of_mem mem)
  · intro task mem
    obtain ⟨t, _, rfl⟩ := List.mem_map.mp mem
    trivial

/-- A step keeps to the standard if the outcome that the cache and the results decide is admitted
of a library that asks the cache next, whose inputs were hashed then. -/
theorem step (kept : r.Keeps std) (step : Step (r, cache) (r', cache'))
    (fits : ∀ t, .waiting t ∈ r.tasks →
      Task.hashes r.setting r.progress.resolver (.waiting t) ⊆ r'.hashed →
      std.admits t (r.setting.judge cache t (r.graph.supplies std.results t))) : r'.Keeps std := by
  cases step with
  | @access _ _ _ before after task task' tasks step =>
    have mem : task ∈ r.tasks := by simp [tasks]
    refine kept.access tasks (Task.library_step step) ?_
    cases task with
    | waiting t =>
      have admitted := fits t mem (List.subset_append_left _ _)
      have resolved : r.progress.resolver.resolve t = r.graph.supplies std.results t :=
        kept.resolve mem
      rw [← resolved] at admitted
      obtain ⟨_, rfl | ⟨_, library, _, _, _, judged, rfl⟩⟩ := Task.step_waiting step
      · exact admitted
      · rwa [judged] at admitted
    | missed t digest library =>
      cases step
      exact kept.tasks (.missed t digest library) mem
    | finished => contradiction
  | turn tasks _ => exact kept.turn tasks

theorem recorded_perm (kept : r.Keeps std) (finished : r.Finished) :
    (r.recorded.map (·.1)).Perm r.graph.libraries := by
  simpa [finished.1, finished.2] using kept.complete

theorem mem_recorded (kept : r.Keeps std) (finished : r.Finished) {label : Label} :
    label ∈ r.recorded.map (·.1.label) ↔ ∃ t ∈ r.graph.libraries, t.label = label := by
  have same := (kept.recorded_perm finished).map (·.label)
  rw [List.map_map] at same
  exact same.mem_iff.trans List.mem_map

theorem holds (kept : r.Keeps std) (finished : r.Finished) :
    r.plan.Holds r.graph r.setting std.results where
  facts := rfl
  libraries label library := by
    rw [← kept.mem_recorded finished]
    exact kept.knows.libraries label library
  failures label error := by
    rw [← kept.mem_recorded finished]
    exact kept.knows.failures label error

theorem tally_eq (kept : r.Keeps std) (finished : r.Finished) {outcomes : Label → Outcome}
    (exact : ∀ {t outcome}, std.admits t outcome → outcome = outcomes t.label) :
    r.plan.tally = Tally.of (r.graph.libraries.map fun t => outcomes t.label) := by
  have tally := Progress.tally_recordAll r.graph (r.recorded.map fun e => (e.1.label, e.2))
  have decided : r.recorded.map (·.2) = (r.recorded.map (·.1)).map fun t => outcomes t.label := by
    rw [List.map_map]
    exact List.map_congr_left fun entry mem => exact (kept.recorded entry mem)
  have outcomes_only : (r.recorded.map fun e => (e.1.label, e.2)).map (·.2) =
      r.recorded.map (·.2) := List.map_map
  rw [outcomes_only, decided] at tally
  exact tally.trans (Tally.of_perm ((kept.recorded_perm finished).map _))

end Keeps

end Run

end ObjcPlan
