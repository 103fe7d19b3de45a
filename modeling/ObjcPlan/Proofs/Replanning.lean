import ObjcPlan.Proofs.Locality
import ObjcPlan.Proofs.SharedCache
import ObjcPlan.Proofs.StoredAnalyses

/-! Planning again on the cache of an earlier run. The first run leaves in the cache what it
analyzed (`Cache.IsLeftBy`), so the second takes from it exactly the libraries that were planned as
they are declared now, with the dependencies that they have now (`TargetGraph.replan_reuses`). -/

namespace ObjcPlan

open TargetGraph

/-- The ways in which a call can end on a cache, with what the cache is then. -/
def Call.Ends (c : Call) (cache : Cache) (r : Run) (cache' : Cache) : Prop :=
  ∃ start, c.start = .ok start ∧ Run.Steps (start, cache) (r, cache') ∧ r.Finished

/-- A call with a good configuration for libraries that can be ordered ends in its plan. -/
theorem Call.exists_ends (c : Call) (cache : Cache)
    (resolved : (Facts.resolve c.options c.toolchain).isOk = true) (acyclic : c.graph.Acyclic) :
    ∃ r cache', c.Ends cache r cache' ∧
      c.graph.plan c.options c.toolchain c.parallel cache = (.ok r.plan, cache') := by
  obtain ⟨groups, ordered, _⟩ := (c.graph.acyclic_iff c.parallel).mp acyclic
  unfold Ends Call.start TargetGraph.plan Setting.resolve
  cases found : Facts.resolve c.options c.toolchain with
  | error error => simp [found] at resolved
  | ok facts =>
    let s : Setting := ⟨facts, .ofFacts facts c.toolchain.identity, c.toolchain.writer⟩
    have idle : (Run.start c.graph s groups).tasks = [].map Task.ofEntry := rfl
    obtain ⟨r, steps, finished, known⟩ := Run.steps_run idle rfl cache
    obtain ⟨graph, setting, groupCount⟩ := steps.static
    refine ⟨r, _, ⟨_, by rw [ordered]; rfl, steps, finished⟩, ?_⟩
    rw [ordered, Run.plan, graph, setting, groupCount, known]
    rfl

/-- The dependencies that a finished run has for a library, if it has all of them. -/
def Run.dependencies? (r : Run) (t : Library) : Option (List Dependency) :=
  (r.progress.resolver.resolve t).toOption

/-- Why a library that is planned cannot be taken from an earlier run: it was no library or failed
there, or its declaration or what its dependencies offer has changed. -/
def Run.Changed (earlier r : Run) (t : Library) : Prop :=
  earlier.graph.library? t.label = none ∨ earlier.plan.failures.contains t.label = true ∨
    earlier.graph.library? t.label ≠ some t ∨ earlier.dependencies? t ≠ r.dependencies? t

instance (earlier r : Run) (t : Library) : Decidable (earlier.Changed r t) :=
  inferInstanceAs (Decidable (_ ∨ _ ∨ _ ∨ _))

/-- What a finished run says of the libraries of its graph, in terms of their outcomes. -/
structure Run.Settles (r : Run) (g : TargetGraph) (s : Setting) (outcomes : Label → Outcome) :
    Prop where
  tells : r.plan.Tells g s outcomes
  graph : r.graph = g
  complete : (r.recorded.map (·.1)).Perm g.libraries
  recorded : ∀ t ∈ g.libraries, ∀ outcome,
    (t, outcome) ∈ r.recorded ↔ outcomes t.label = outcome
  dependencies : ∀ t ∈ g.libraries, r.dependencies? t =
    (g.supplies (fun label => (outcomes label).result) t).toOption
  hashed : ∀ text, text ∈ r.hashed ↔ ∃ t ∈ g.libraries, ∃ dependencies,
    g.supplies (fun label => (outcomes label).result) t = .ok dependencies ∧
      s.writer.fault? t dependencies = none ∧ text = t.inputsMessage dependencies

/-- A cache holds what was analyzed of a graph, and nothing else. -/
def Cache.IsLeftBy (cache : Cache) (g : TargetGraph) (s : Setting) (outcomes : Label → Outcome) :
    Prop :=
  ∀ key entry, cache.entries.get? key = some entry ↔
    ∃ t ∈ g.libraries, key = ⟨t.label, s.fingerprint⟩ ∧
      outcomes t.label = .analyzed entry.library ∧ ∃ dependencies,
        g.supplies (fun label => (outcomes label).result) t = .ok dependencies ∧
          entry.digest = t.inputsDigest dependencies

theorem Call.Ends.settles {c : Call} {cache cache' : Cache} {r : Run}
    (ends : c.Ends cache r cache') :
    ∃ s groups outcomes, Setting.resolve c.options c.toolchain = .ok s ∧
      c.graph.Schedule groups ∧ c.graph.Solution (s.judge cache) outcomes ∧
      r.Settles c.graph s outcomes ∧
      (cache = .empty → cache'.IsLeftBy c.graph s outcomes) := by
  obtain ⟨start, started, steps, finished⟩ := ends
  rcases c.start_cases with ⟨_, refused, _⟩ | ⟨s, groups, resolved, same, schedule, _⟩
  · simp [refused] at started
  · obtain rfl := Except.ok.inj (same.symm.trans started)
    obtain ⟨outcomes, solution⟩ := schedule.exists_solution (s.judge cache)
    have kept := (Run.steps_keep schedule solution steps).1
    obtain ⟨graph, setting, _⟩ := steps.static
    have passed (test : Task → Bool) (t : Library) :
        t ∈ r.passed test ↔ t ∈ c.graph.libraries := by
      rw [Run.mem_passed_of_finished kept finished, graph]
      rfl
    refine ⟨s, groups, outcomes, resolved, schedule, solution, ⟨?_, graph, ?_, ?_, ?_, ?_⟩, ?_⟩
    · have holds := kept.holds finished
      have tally := kept.tally_eq finished fun admitted => admitted.2
      rw [graph, setting] at holds
      rw [graph] at tally
      exact ⟨holds, congrArg TargetGraph.size graph, tally⟩
    · have complete := kept.recorded_perm finished
      rwa [graph] at complete
    · intro t member outcome
      have handled := (kept.recorded_perm finished).mem_iff (a := t)
      rw [graph] at handled
      obtain ⟨entry, isEntry, rfl⟩ := List.mem_map.mp (handled.mpr member)
      have own := (kept.recorded _ isEntry).2
      refine ⟨fun mem => ((kept.recorded _ mem).2).symm, ?_⟩
      rintro rfl
      rwa [← own]
    · intro t member
      have known := kept.knows
      rw [graph] at known
      refine congrArg Except.toOption <| known.resolve fun u declared _ =>
        (kept.mem_recorded finished).mpr ?_
      rw [graph]
      exact ⟨u, declared, rfl⟩
    · have hashes := Run.steps_hash schedule solution steps
      intro text
      rw [hashes text, graph, setting]
      simp only [passed]
      rfl
    · rintro rfl key entry
      have files := (Run.steps_file schedule solution steps).stored key entry
      rw [graph, setting] at files
      simp only [passed] at files
      exact files

theorem Cache.find?_eq_some_iff {cache : Cache} {label : Label} {fingerprint : Fingerprint}
    {digest : String} {library : AnalyzedLibrary} :
    cache.find? label fingerprint digest = some library ↔
      cache.entries.get? ⟨label, fingerprint⟩ = some ⟨digest, library⟩ := by
  unfold find?
  cases cache.entries.get? ⟨label, fingerprint⟩ with
  | none => simp
  | some entry =>
    obtain ⟨digest', library'⟩ := entry
    by_cases same : digest' = digest <;> simp [same]

theorem Cache.IsLeftBy.find?_iff {cache : Cache} {g : TargetGraph} {s : Setting}
    {outcomes : Label → Outcome} (left : cache.IsLeftBy g s outcomes) {label : Label}
    {digest : String} {library : AnalyzedLibrary} :
    cache.find? label s.fingerprint digest = some library ↔
      ∃ t ∈ g.libraries, t.label = label ∧ outcomes t.label = .analyzed library ∧
        ∃ dependencies, g.supplies (fun label => (outcomes label).result) t = .ok dependencies ∧
          digest = t.inputsDigest dependencies := by
  rw [find?_eq_some_iff, left]
  simp only [Cache.Key.mk.injEq, and_true, eq_comm (a := label)]

theorem toOption_eq_some_iff {ε α : Type} {x : Except ε α} {a : α} :
    x.toOption = some a ↔ x = .ok a := by
  cases x <;> simp [Except.toOption]

theorem Setting.judge_eq_cached_iff {s : Setting} {cache : Cache} {t : Library}
    {supplied : Except PlanError (List Dependency)} {library : AnalyzedLibrary} :
    s.judge cache t supplied = .cached library ↔ ∃ known, supplied = .ok known ∧
      s.writer.fault? t known = none ∧
      cache.find? t.label s.fingerprint (t.inputsDigest known) = some library := by
  cases supplied with
  | error => simp [judge]
  | ok known =>
    cases written : s.writer.fault? t known with
    | some fault => simp [judge_of_fault written, written]
    | none =>
      rw [judge_of_written written]
      cases found : cache.find? t.label s.fingerprint (t.inputsDigest known) with
      | some library' => simp [found, written]
      | none => cases t.analyze known s.facts <;> simp [found]

/-- What is not found is analyzed as without an earlier run. -/
theorem Setting.judge_cases (s : Setting) (cache : Cache) (t : Library)
    (supplied : Except PlanError (List Dependency)) :
    (∃ library, s.judge cache t supplied = .cached library) ∨
      s.judge cache t supplied = s.judge .empty t supplied := by
  cases supplied with
  | error => exact .inr rfl
  | ok known =>
    cases written : s.writer.fault? t known with
    | some fault => exact .inr (by rw [judge_of_fault written, judge_of_fault written])
    | none =>
      rw [judge_of_written written, judge_of_written written]
      cases found : cache.find? t.label s.fingerprint (t.inputsDigest known) with
      | some library => exact .inl ⟨library, rfl⟩
      | none => exact .inr rfl

/-- Without an earlier run, what is planned was analyzed. -/
theorem TargetGraph.Solution.analyzed_iff {g : TargetGraph} {s : Setting}
    {outcomes : Label → Outcome} (solution : g.Solution (s.judge .empty) outcomes) {t : Library}
    (member : t ∈ g.libraries) {library : AnalyzedLibrary} :
    outcomes t.label = .analyzed library ↔ (outcomes t.label).result = .ok library := by
  cases outcome : outcomes t.label with
  | analyzed => simp [Outcome.result]
  | failed => simp [Outcome.result]
  | cached found =>
    obtain ⟨_, _, _, hit⟩ :=
      Setting.judge_eq_cached_iff.mp ((solution t member).symm.trans outcome)
    contradiction

/-- The libraries of a plan are those that were analyzed or found. -/
theorem WorkspacePlan.Tells.planned_eq {p : WorkspacePlan} {g : TargetGraph} {s : Setting}
    {outcomes : Label → Outcome} (tells : p.Tells g s outcomes) :
    p.tally.analyzed + p.tally.cached = p.libraries.size := by
  have members : p.libraries.keys.Perm
      ((g.libraries.map (·.label)).filter fun label => (outcomes label).result.isOk) := by
    refine (List.perm_ext_iff_of_nodup p.libraries.nodup_keys (g.nodup_labels.filter _)).mpr
      fun label => ?_
    simp only [← SortedMap.contains_iff, List.mem_filter, List.mem_map, SortedMap.contains,
      Option.isSome_iff_exists, tells.libraries, exists_and_left]
    refine and_congr_right fun _ => ?_
    cases (outcomes label).result <;> simp
  have size : p.libraries.size = p.libraries.keys.length := (List.length_map _).symm
  have counts (l : List Outcome) : (Tally.of l).analyzed + (Tally.of l).cached =
      l.countP fun outcome => outcome.result.isOk := by
    have total := Tally.total l
    have parts := l.length_eq_countP_add_countP fun outcome => outcome.result.isOk
    simp only [Bool.not_eq_true, Bool.decide_eq_false, ← failed_tally] at parts
    omega
  rw [size, members.length_eq, tells.tally, counts, List.countP_map, List.filter_map,
    List.length_map, ← List.countP_eq_length_filter]
  rfl

section

variable {g g' : TargetGraph} {s : Setting} {outcomes outcomes' : Label → Outcome} {cache : Cache}
  {r r' : Run} {t : Library} {library : AnalyzedLibrary}

/-- A library is found in the cache exactly if it was planned as it is declared now, with the
dependencies that it has now. -/
theorem TargetGraph.Solution.cached_iff (left : cache.IsLeftBy g s outcomes)
    (solution : g.Solution (s.judge .empty) outcomes) (first : r.Settles g s outcomes) (second : r'.Settles g' s outcomes')
    (solution' : g'.Solution (s.judge cache) outcomes') (apart : ToldApart (r.hashed ++ r'.hashed))
    (member : t ∈ g'.libraries) :
    outcomes' t.label = .cached library ↔
      t ∈ g.libraries ∧ outcomes t.label = .analyzed library ∧ ∃ dependencies,
        r.dependencies? t = some dependencies ∧ r'.dependencies? t = some dependencies := by
  rw [solution' t member, Setting.judge_eq_cached_iff, second.dependencies t member]
  simp only [left.find?_iff, toOption_eq_some_iff]
  have written {u : Library} {dependencies : List Dependency} (declared : u ∈ g.libraries)
      (analyzed : outcomes u.label = .analyzed library)
      (supplied : g.supplies (fun label => (outcomes label).result) u = .ok dependencies) :
      s.writer.fault? u dependencies = none := by
    have judged := solution u declared
    rw [supplied, analyzed] at judged
    exact Setting.written_of_result (congrArg Outcome.result judged.symm)
  constructor
  · rintro ⟨known, supplied', written', u, declared, same, analyzed, dependencies, supplied,
      digest⟩
    have hashed : u.inputsMessage dependencies ∈ r.hashed := (first.hashed _).mpr
      ⟨u, declared, dependencies, supplied, written declared analyzed supplied, rfl⟩
    have hashed' : t.inputsMessage known ∈ r'.hashed :=
      (second.hashed _).mpr ⟨t, member, known, supplied', written', rfl⟩
    obtain ⟨rfl, rfl⟩ := Library.inputsMessage_inj
      (apart _ (List.mem_append_right _ hashed') _ (List.mem_append_left _ hashed) digest)
    refine ⟨declared, analyzed, known, ?_, supplied'⟩
    rw [first.dependencies t declared, supplied]
    rfl
  · rintro ⟨declared, analyzed, dependencies, had, supplied'⟩
    rw [first.dependencies t declared, toOption_eq_some_iff] at had
    exact ⟨dependencies, supplied', written declared analyzed had, t, declared, rfl, analyzed,
      dependencies, had, rfl⟩

/-- What is planned and not found is new, failed before, or has changed. -/
theorem TargetGraph.Solution.analyzed_iff_changed (left : cache.IsLeftBy g s outcomes)
    (solution : g.Solution (s.judge .empty) outcomes) (first : r.Settles g s outcomes)
    (second : r'.Settles g' s outcomes') (solution' : g'.Solution (s.judge cache) outcomes')
    (apart : ToldApart (r.hashed ++ r'.hashed)) (member : t ∈ g'.libraries) :
    (∃ library, outcomes' t.label = .analyzed library) ↔
      r'.plan.libraries.contains t.label = true ∧ r.Changed r' t := by
  have found {library : AnalyzedLibrary} : outcomes' t.label = .cached library ↔ _ :=
    cached_iff left solution first second solution' apart member
  rw [second.tells.contains_library member, Run.Changed, first.graph]
  constructor
  · rintro ⟨library, analyzed⟩
    refine ⟨by rw [analyzed]; rfl, ?_⟩
    by_contra unchanged
    simp only [not_or, ne_eq, not_not] at unchanged
    obtain ⟨_, unfailed, declared, same⟩ := unchanged
    have declared := (library?_eq_some_iff.mp declared).1
    rw [first.tells.contains_failure, failedIn_label declared] at unfailed
    cases result : (outcomes t.label).result with
    | error error => simp [result] at unfailed
    | ok earlier =>
      have analyzed_first := (solution.analyzed_iff declared).mpr result
      obtain ⟨dependencies, had⟩ : ∃ dependencies, r'.dependencies? t = some dependencies := by
        rw [second.dependencies t member]
        have judged := solution' t member
        rw [analyzed] at judged
        cases supplied : g'.supplies (fun label => (outcomes' label).result) t with
        | error error => simp [supplied, Setting.judge] at judged
        | ok dependencies => exact ⟨dependencies, rfl⟩
      have hit := found.mpr ⟨declared, analyzed_first, dependencies, same.trans had, had⟩
      simp [analyzed] at hit
  · rintro ⟨planned, changed⟩
    cases outcome : outcomes' t.label with
    | analyzed library => exact ⟨library, rfl⟩
    | failed error => simp [outcome, Outcome.result] at planned
    | cached library =>
      obtain ⟨declared, analyzed, dependencies, had, had'⟩ := found.mp outcome
      have isDeclared := library?_eq_some_iff.mpr ⟨declared, rfl⟩
      have unfailed : r.plan.failures.contains t.label = false := by
        rw [first.tells.contains_failure, failedIn_label declared, analyzed]
        rfl
      simp [isDeclared, unfailed, had, had'] at changed

/-- The second run of an unchanged graph has the results of the first, and finds what the first
analyzed. -/
theorem TargetGraph.Solution.unchanged {groups : List (List Library)}
    (schedule : g.Schedule groups) (solution : g.Solution (s.judge .empty) outcomes)
    (left : cache.IsLeftBy g s outcomes) (first : r.Settles g s outcomes)
    (second : r'.Settles g s outcomes') (solution' : g.Solution (s.judge cache) outcomes')
    (apart : ToldApart (r.hashed ++ r'.hashed)) : ∀ t ∈ g.libraries,
      (outcomes t.label).result = (outcomes' t.label).result ∧
        ∀ library, outcomes' t.label ≠ .analyzed library := by
  refine schedule.induct fun t member below => ?_
  have supplied : g.supplies (fun label => (outcomes label).result) t =
      g.supplies (fun label => (outcomes' label).result) t :=
    supplies_congr fun u declared needs => (below u declared needs).1
  have found {library : AnalyzedLibrary} : outcomes' t.label = .cached library ↔ _ :=
    cached_iff left solution first second solution' apart member
  have result : (outcomes t.label).result = (outcomes' t.label).result := by
    rcases s.judge_cases cache t (g.supplies (fun label => (outcomes' label).result) t) with
      ⟨library, hit⟩ | same
    · rw [← solution' t member] at hit
      rw [hit, (found.mp hit).2.1]
      rfl
    · rw [solution' t member, same, ← supplied, ← solution t member]
  refine ⟨result, fun library analyzed => ?_⟩
  have isAnalyzed : ∃ library, outcomes' t.label = .analyzed library := ⟨library, analyzed⟩
  obtain ⟨_, changed⟩ :=
    (analyzed_iff_changed left solution first second solution' apart member).mp isAnalyzed
  have isDeclared := library?_eq_some_iff.mpr ⟨member, rfl⟩
  have unfailed : r.plan.failures.contains t.label = false := by
    rw [first.tells.contains_failure, failedIn_label member, result, analyzed]
    rfl
  have had : r.dependencies? t = r'.dependencies? t := by
    rw [first.dependencies t member, second.dependencies t member, supplied]
  simp [Run.Changed, first.graph, isDeclared, unfailed, had] at changed

end

/-- Two graphs without cycles are planned one after the other, with the same configuration, on a
cache that is empty at the start and that nobody else uses. In whichever order the analyses take
their turns, the second run takes from the cache exactly the libraries that the first planned, with
the declaration and the direct dependencies that they have now, and it takes what the first planned.
It analyzes those of the others that can be planned, and counts them. To plan an unchanged graph
again analyzes nothing and comes to the same.

SHA-256 has to tell apart the texts that the two runs hash. -/
theorem TargetGraph.replan_reuses (g g' : TargetGraph) (o : Options) (toolchain : Toolchain)
    (parallel parallel' : Bool) (acyclic : g.Acyclic) (acyclic' : g'.Acyclic) :
    ((Facts.resolve o toolchain).isOk = true → ∃ r cache r' cache',
        Call.Ends ⟨g, o, toolchain, parallel⟩ .empty r cache ∧
          Call.Ends ⟨g', o, toolchain, parallel'⟩ cache r' cache' ∧
          g.plan o toolchain parallel .empty = (.ok r.plan, cache) ∧
          g'.plan o toolchain parallel' cache = (.ok r'.plan, cache')) ∧
      ∀ r cache r' cache', Call.Ends ⟨g, o, toolchain, parallel⟩ .empty r cache →
        Call.Ends ⟨g', o, toolchain, parallel'⟩ cache r' cache' →
        ToldApart (r.hashed ++ r'.hashed) →
        (r'.recorded.map (·.1)).Perm g'.libraries ∧
          (∀ t ∈ g'.libraries, ∀ library, (t, .cached library) ∈ r'.recorded ↔
            r.plan.libraries.get? t.label = some library ∧ g.library? t.label = some t ∧
              ∃ dependencies, r.dependencies? t = some dependencies ∧
                r'.dependencies? t = some dependencies) ∧
          (∀ t ∈ g'.libraries, (∃ library, (t, .analyzed library) ∈ r'.recorded) ↔
            r'.plan.libraries.contains t.label = true ∧ r.Changed r' t) ∧
          r'.plan.tally.analyzed = (g'.libraries.filter fun t =>
            r'.plan.libraries.contains t.label ∧ r.Changed r' t).length ∧
          r'.plan.tally.analyzed + r'.plan.tally.cached = r'.plan.libraries.size ∧
          (g' = g → r'.plan.tally.analyzed = 0 ∧
            r'.plan.tally.cached = r'.plan.libraries.size ∧ r'.plan.content = r.plan.content) := by
  constructor
  · intro resolved
    obtain ⟨r, cache, ends, planned⟩ :=
      Call.exists_ends ⟨g, o, toolchain, parallel⟩ .empty resolved acyclic
    obtain ⟨r', cache', ends', planned'⟩ :=
      Call.exists_ends ⟨g', o, toolchain, parallel'⟩ cache resolved acyclic'
    exact ⟨r, cache, r', cache', ends, ends', planned, planned'⟩
  · intro r cache r' cache' ends ends' apart
    obtain ⟨s, groups, outcomes, resolved, schedule, solution, first, left⟩ := ends.settles
    obtain ⟨s', _, outcomes', resolved', _, solution', second, _⟩ := ends'.settles
    obtain rfl := Except.ok.inj (resolved.symm.trans resolved')
    have left := left rfl
    have changed {t : Library} (member : t ∈ g'.libraries) :=
      Solution.analyzed_iff_changed left solution first second solution' apart member
    have analyzed : r'.plan.tally.analyzed = (g'.libraries.filter fun t =>
        r'.plan.libraries.contains t.label ∧ r.Changed r' t).length := by
      rw [second.tells.tally, Tally.of, List.countP_map, List.countP_eq_length_filter]
      refine congrArg List.length (List.filter_congr fun t member => ?_)
      rw [Function.comp_apply, Bool.eq_iff_iff, decide_eq_true_iff, ← changed member]
      cases outcomes' t.label <;> simp
    refine ⟨second.complete, fun t member library => ?_, fun t member => ?_, analyzed,
      second.tells.planned_eq, ?_⟩
    · rw [second.recorded t member,
        Solution.cached_iff left solution first second solution' apart member, first.tells.libraries,
        library?_eq_some_iff]
      constructor
      · rintro ⟨declared, isAnalyzed, had⟩
        exact ⟨⟨⟨t, declared, rfl⟩, (solution.analyzed_iff declared).mp isAnalyzed⟩,
          ⟨declared, rfl⟩, had⟩
      · rintro ⟨⟨_, result⟩, ⟨declared, _⟩, had⟩
        exact ⟨declared, (solution.analyzed_iff declared).mpr result, had⟩
    · simp only [second.recorded t member]
      exact changed member
    · rintro rfl
      have same := Solution.unchanged schedule solution left first second solution' apart
      have none_analyzed : r'.plan.tally.analyzed = 0 := by
        rw [analyzed, List.length_eq_zero_iff, List.filter_eq_nil_iff]
        intro t member isChanged
        obtain ⟨library, isAnalyzed⟩ := (changed member).mpr (of_decide_eq_true isChanged)
        exact (same t member).2 library isAnalyzed
      have planned := second.tells.planned_eq
      rw [none_analyzed, Nat.zero_add] at planned
      exact ⟨none_analyzed, planned, (first.tells.content_eq second.tells.toHolds fun t member =>
        (same t member).1).symm⟩

namespace Again

/-- A library that fails, since nothing with the label of its dependency is declared. -/
def stray : Library where
  label := ⟨"store", "stray", Twice.base.label.package_ok, Neighbors.stray.label.name_ok⟩
  deps := Neighbors.stray.deps

def graph : TargetGraph where
  declarations := ⟨[(Twice.base.label, .library Twice.base), (stray.label, .library stray)],
    by decide⟩
  keyed := by decide

theorem supplies_stray (results : Results) {dependencies : List Dependency} :
    graph.supplies results stray ≠ .ok dependencies := by
  have undeclared : graph.declarations.get? ⟨"lost", "lost", by decide, by decide⟩ = none := by
    decide
  simp [supplies, stray, Neighbors.stray, supply, undeclared, bind, Except.bind]

/-- Only the inputs of one library are hashed, since the other has none. -/
theorem hashed_eq {c : Call} {cache cache' : Cache} {r : Run} (isGraph : c.graph = graph)
    (ends : c.Ends cache r cache') : ∀ text ∈ r.hashed, text = Twice.base.inputsMessage [] := by
  obtain ⟨_, _, _, _, _, _, settles, _⟩ := ends.settles
  intro text mem
  obtain ⟨t, member, dependencies, supplied, _, rfl⟩ := (settles.hashed text).mp mem
  rw [isGraph] at member supplied
  have cases : graph.libraries = [Twice.base, stray] := by decide
  rw [cases, List.mem_pair] at member
  rcases member with rfl | rfl
  · obtain rfl := Except.ok.inj supplied
    rfl
  · exact absurd supplied (supplies_stray _)

end Again

/-- The library that was planned is found, and the one that failed fails again. -/
theorem TargetGraph.replan_reuses_again :
    Again.graph.Acyclic ∧ ∃ r cache r' cache' library,
      Call.Ends ⟨Again.graph, {}, .xcode Toolchain.defaultRoot, true⟩ .empty r cache ∧
        Call.Ends ⟨Again.graph, {}, .xcode Toolchain.defaultRoot, false⟩ cache r' cache' ∧
        ToldApart (r.hashed ++ r'.hashed) ∧ (Twice.base, .cached library) ∈ r'.recorded ∧
        r'.plan.tally.analyzed = 0 ∧ r'.plan.tally.cached = r'.plan.libraries.size ∧
        r'.plan.content = r.plan.content := by
  have acyclic : Again.graph.Acyclic := acyclic_of_isOk true (by decide +kernel)
  have resolved : (Facts.resolve {} (.xcode Toolchain.defaultRoot)).isOk = true := by
    decide +kernel
  obtain ⟨runs, reuses⟩ := TargetGraph.replan_reuses Again.graph Again.graph {}
    (.xcode Toolchain.defaultRoot) true false acyclic acyclic
  obtain ⟨r, cache, r', cache', ends, ends', _⟩ := runs resolved
  have apart : ToldApart (r.hashed ++ r'.hashed) := by
    refine @ToldApart.of_forall_eq _ (Twice.base.inputsMessage []) fun text mem => ?_
    rcases List.mem_append.mp mem with mem | mem
    · exact Again.hashed_eq rfl ends text mem
    · exact Again.hashed_eq rfl ends' text mem
  obtain ⟨_, cached, _, _, _, same⟩ := reuses r cache r' cache' ends ends' apart
  obtain ⟨none_analyzed, all_cached, content⟩ := same rfl
  obtain ⟨s, _, outcomes, settled, _, solution, settles, _⟩ := ends.settles
  obtain ⟨s', _, outcomes', _, _, _, settles', _⟩ := ends'.settles
  obtain ⟨library, analyzed⟩ := Twice.analyze_base s.facts
  have member : Twice.base ∈ Again.graph.libraries := by decide
  have planned : r.plan.libraries.get? Twice.base.label = some library := by
    have written : s.writer.fault? Twice.base [] = none := by
      rw [Setting.writer_of_resolve settled]
      rfl
    rw [settles.tells.libraries, solution _ member, Setting.result_judge_empty]
    exact ⟨⟨_, member, rfl⟩, Setting.verdict_eq_ok_iff.mpr ⟨[], rfl, written, analyzed⟩⟩
  refine ⟨acyclic, r, cache, r', cache', library, ends, ends', apart, ?_, none_analyzed,
    all_cached, content⟩
  refine (cached Twice.base member library).mpr ⟨planned, by decide, [], ?_, ?_⟩
  · rw [settles.dependencies _ member]
    rfl
  · rw [settles'.dependencies _ member]
    rfl

end ObjcPlan
