import ObjcPlan.Proofs.Schedule

/-! What the libraries of a graph come to, said without an order in which they are analyzed. The
outcome of a library follows from what it declares and from the results of its dependencies
(`supplies`) by a rule, and outcomes that keep to the rule everywhere are a `Solution`. A graph that
has a schedule has a solution (`Schedule.exists_solution`) and no second one
(`Schedule.solution_unique`). The rule of an analysis with a cache is `Setting.judge`. -/

namespace ObjcPlan

theorem mapM_congr_of_mem {α β ε : Type} {f f' : α → Except ε β} {l : List α}
    (h : ∀ a ∈ l, f a = f' a) : l.mapM f = l.mapM f' := by
  induction l with
  | nil => rfl
  | cons a rest ih =>
    rw [List.mapM_cons, List.mapM_cons, h a List.mem_cons_self,
      ih fun b mem => h b (List.mem_cons_of_mem _ mem)]

@[simp] theorem isOk_ok {ε α : Type} (a : α) : (Except.ok a : Except ε α).isOk = true := rfl

@[simp] theorem isOk_error {ε α : Type} (e : ε) : (Except.error e : Except ε α).isOk = false := rfl

theorem exists_of_bind {ε α β : Type} {x : Except ε α} {f : α → Except ε β} {b : β}
    (h : x >>= f = .ok b) : ∃ a, x = .ok a ∧ f a = .ok b := by
  cases x with
  | error error => contradiction
  | ok a => exact ⟨a, rfl, h⟩

theorem exists_of_isOk {ε α : Type} {x : Except ε α} (isOk : x.isOk = true) : ∃ a, x = .ok a := by
  cases x with
  | ok a => exact ⟨a, rfl⟩
  | error e => contradiction

/-- The library that an analysis led to, or why it failed. -/
def Outcome.result : Outcome → Except Failure AnalyzedLibrary
  | .analyzed library | .cached library => .ok library
  | .failed failure => .error failure

/-- What every library of a graph comes to, by label. -/
abbrev Results := Label → Except Failure AnalyzedLibrary

namespace TargetGraph

variable {g : TargetGraph} {groups : List (List Library)} {results results' : Results}

/-- A dependency of a target, where `results` tells what the libraries come to. -/
def supply (g : TargetGraph) (results : Results) (target dependency : Label) :
    Except PlanError Dependency :=
  match g.declarations.get? dependency with
  | some (.library _) =>
    match results dependency with
    | .ok library => .ok library.asDependency
    | .error _ => .error (.dependencyFailed target dependency)
  | some (.foreign info) => .ok (.foreign info)
  | none => .error (.dependencyNotFound target dependency)

/-- The direct dependencies of a library in the order of their declaration, or the error of the
first that cannot be had. -/
def supplies (g : TargetGraph) (results : Results) (t : Library) :
    Except PlanError (List Dependency) :=
  t.deps.mapM (g.supply results t.label)

/-- Only the results of what a library needs matter to it. -/
theorem supplies_congr {t : Library}
    (h : ∀ u ∈ g.libraries, t.Needs u → results u.label = results' u.label) :
    g.supplies results t = g.supplies results' t := by
  refine mapM_congr_of_mem fun dep mem => ?_
  unfold supply
  split
  · next u found =>
    obtain ⟨declared, rfl⟩ := get?_declarations_library.mp found
    rw [h u declared mem]
  · rfl
  · rfl

/-- How the outcome of a library follows from its declaration and its dependencies. -/
abbrev Rule := Library → Except PlanError (List Dependency) → Outcome

/-- Outcomes that keep to a rule at every library. -/
def Solution (g : TargetGraph) (rule : Rule) (outcomes : Label → Outcome) : Prop :=
  ∀ t ∈ g.libraries, outcomes t.label = rule t (g.supplies (fun l => (outcomes l).result) t)

theorem Schedule.solution_unique {rule : Rule} {outcomes outcomes' : Label → Outcome}
    (schedule : g.Schedule groups) (h : g.Solution rule outcomes) (h' : g.Solution rule outcomes') :
    ∀ t ∈ g.libraries, outcomes t.label = outcomes' t.label := by
  refine schedule.induct fun t declared below => ?_
  rw [h t declared, h' t declared, supplies_congr fun u mem needs => ?_]
  rw [below u mem needs]

/-- Outcomes that keep to the rule at the libraries handled so far go on to outcomes that keep to it
at the groups to come as well. -/
theorem Ready.exists_solution (rule : Rule) {done : List Library} (ready : g.Ready done groups)
    (declared : done ++ groups.flatten ⊆ g.libraries) (distinct : (done ++ groups.flatten).Nodup)
    (closed : ∀ t ∈ done, ∀ u ∈ g.libraries, t.Needs u → u ∈ done) (outcomes : Label → Outcome)
    (kept : ∀ t ∈ done,
      outcomes t.label = rule t (g.supplies (fun l => (outcomes l).result) t)) :
    ∃ outcomes' : Label → Outcome, ∀ t ∈ done ++ groups.flatten,
      outcomes' t.label = rule t (g.supplies (fun l => (outcomes' l).result) t) := by
  classical
  induction groups generalizing done outcomes with
  | nil => exact ⟨outcomes, by simpa using kept⟩
  | cons group groups ih =>
    obtain ⟨first, later⟩ := ready
    rw [List.flatten_cons, ← List.append_assoc] at declared distinct ⊢
    -- The libraries of the group get the outcomes that the rule gives with the earlier results.
    let verdict (t : Library) : Outcome := rule t (g.supplies (fun l => (outcomes l).result) t)
    let extended (label : Label) : Outcome :=
      if h : ∃ t ∈ group, t.label = label then verdict h.choose else outcomes label
    have declared' : ∀ t ∈ done ++ group, t ∈ g.libraries := fun t mem =>
      declared (List.mem_append_left _ mem)
    have old : ∀ t ∈ done, extended t.label = outcomes t.label := by
      intro t mem
      refine dif_neg fun ⟨u, mem', same⟩ => ?_
      have := eq_of_label_eq (declared' u (by simp [mem'])) (declared' t (by simp [mem])) same
      have apart := (List.nodup_append.mp (List.nodup_append.mp distinct).1).2.2
      exact apart t mem u mem' this.symm
    have new : ∀ t ∈ group, extended t.label = verdict t := by
      intro t mem
      have h : ∃ u ∈ group, u.label = t.label := ⟨t, mem, rfl⟩
      have same := eq_of_label_eq (declared' _ (by simp [h.choose_spec.1]))
        (declared' t (by simp [mem])) h.choose_spec.2
      exact (dif_pos h).trans (congrArg verdict same)
    have closed' : ∀ t ∈ done ++ group, ∀ u ∈ g.libraries, t.Needs u → u ∈ done := by
      intro t mem u
      rcases List.mem_append.mp mem with mem | mem
      · exact closed t mem u
      · exact first t mem u
    refine ih later declared distinct (fun t mem u declared needs =>
      List.mem_append_left _ (closed' t mem u declared needs)) extended ?_
    intro t mem
    have unchanged : g.supplies (fun l => (extended l).result) t =
        g.supplies (fun l => (outcomes l).result) t :=
      supplies_congr fun u declared needs => by rw [old u (closed' t mem u declared needs)]
    rw [unchanged]
    rcases List.mem_append.mp mem with mem | mem
    · rw [old t mem, kept t mem]
    · exact new t mem

theorem nodup_libraries (g : TargetGraph) : g.libraries.Nodup :=
  List.Nodup.of_map _ g.nodup_labels

theorem Schedule.exists_solution (schedule : g.Schedule groups) (rule : Rule) :
    ∃ outcomes, g.Solution rule outcomes := by
  obtain ⟨outcomes, kept⟩ := schedule.ready.exists_solution rule
    (by simpa using schedule.complete.subset)
    (by simpa using schedule.complete.nodup_iff.mpr g.nodup_libraries) (by simp)
    (fun label => .failed (.planning (.duplicateTarget label))) (by simp)
  exact ⟨outcomes, fun t declared => kept t (by simpa using schedule.complete.mem_iff.mpr declared)⟩

end TargetGraph

theorem Cache.label_of_find? {c : Cache} {label : Label} {fingerprint : Fingerprint}
    {digest : String} {library : AnalyzedLibrary}
    (found : c.find? label fingerprint digest = some library) : library.label = label := by
  unfold find? at found
  split at found
  · next entry kept =>
    split at found
    · obtain rfl := Option.some.inj found
      exact c.keyed _ (SortedMap.get?_eq_some_iff.mp kept)
    · contradiction
  · contradiction

theorem Library.analyze_eq (t : Library) (dependencies : List Dependency) (facts : Facts) :
    (∃ error, Validation.check ⟨facts.disableResources⟩ t = .error error ∧
        t.analyze dependencies facts = .error error) ∨
      ∃ warnings library, Validation.check ⟨facts.disableResources⟩ t = .ok warnings ∧
        t.analyze dependencies facts = .ok library ∧ library.label = t.label := by
  unfold analyze
  cases Validation.check ⟨facts.disableResources⟩ t with
  | error error => exact .inl ⟨error, rfl, rfl⟩
  | ok warnings => exact .inr ⟨warnings, _, rfl, rfl, rfl⟩

theorem Library.label_of_analyze {t : Library} {dependencies : List Dependency} {facts : Facts}
    {library : AnalyzedLibrary} (h : t.analyze dependencies facts = .ok library) :
    library.label = t.label := by
  rcases t.analyze_eq dependencies facts with ⟨_, _, error⟩ | ⟨_, _, _, ok, label⟩
  · simp [error] at h
  · obtain rfl := Except.ok.inj (ok.symm.trans h)
    exact label

namespace Setting

/-- The outcome of an analysis that asks a cache. -/
def judge (s : Setting) (c : Cache) : TargetGraph.Rule
  | _, .error error => .failed (.planning error)
  | t, .ok dependencies =>
    match s.writer.inputsDigest t dependencies with
    | .error fault => .failed (.cache fault)
    | .ok digest =>
      match c.find? t.label s.fingerprint digest with
      | some library => .cached library
      | none =>
        match t.analyze dependencies s.facts with
        | .error error => .failed (.planning error)
        | .ok library => .analyzed library

variable {s : Setting} {c : Cache} {t : Library} {dependencies : List Dependency}

theorem judge_of_fault {fault : String} (unwritten : s.writer.fault? t dependencies = some fault) :
    s.judge c t (.ok dependencies) = .failed (.cache fault) := by
  simp only [judge, Writer.inputsDigest, unwritten]

theorem judge_of_written (written : s.writer.fault? t dependencies = none) :
    s.judge c t (.ok dependencies) =
      match c.find? t.label s.fingerprint (t.inputsDigest dependencies) with
      | some library => .cached library
      | none =>
        match t.analyze dependencies s.facts with
        | .error error => .failed (.planning error)
        | .ok library => .analyzed library := by
  simp only [judge, Writer.inputsDigest, written]

/-- What has a result was written. -/
theorem written_of_result {library : AnalyzedLibrary}
    (h : (s.judge c t (.ok dependencies)).result = .ok library) :
    s.writer.fault? t dependencies = none := by
  cases written : s.writer.fault? t dependencies with
  | none => rfl
  | some fault =>
    rw [judge_of_fault written] at h
    contradiction

theorem label_of_judge {supplied : Except PlanError (List Dependency)} {library : AnalyzedLibrary}
    (h : (s.judge c t supplied).result = .ok library) : library.label = t.label := by
  cases supplied with
  | error => contradiction
  | ok dependencies =>
    rw [judge_of_written (written_of_result h)] at h
    split at h
    · next found =>
      obtain rfl := Except.ok.inj h
      exact Cache.label_of_find? found
    · split at h
      · contradiction
      · next done =>
        obtain rfl := Except.ok.inj h
        exact Library.label_of_analyze done

/-- What a library comes to without an earlier analysis. -/
def verdict (s : Setting) (t : Library) :
    Except PlanError (List Dependency) → Except Failure AnalyzedLibrary
  | .error error => .error (.planning error)
  | .ok dependencies =>
    match s.writer.fault? t dependencies with
    | some fault => .error (.cache fault)
    | none => (t.analyze dependencies s.facts).mapError .planning

theorem result_judge_empty (s : Setting) (t : Library)
    (supplied : Except PlanError (List Dependency)) :
    (s.judge .empty t supplied).result = s.verdict t supplied := by
  cases supplied with
  | error => rfl
  | ok dependencies =>
    cases written : s.writer.fault? t dependencies with
    | some fault =>
      rw [judge_of_fault written]
      simp only [verdict, written, Outcome.result]
    | none =>
      have absent : Cache.empty.find? t.label s.fingerprint (t.inputsDigest dependencies) = none :=
        rfl
      rw [judge_of_written written, absent]
      simp only [verdict, written]
      cases t.analyze dependencies s.facts <;> rfl

theorem verdict_eq_ok_iff {supplied : Except PlanError (List Dependency)}
    {library : AnalyzedLibrary} : s.verdict t supplied = .ok library ↔
      ∃ dependencies, supplied = .ok dependencies ∧ s.writer.fault? t dependencies = none ∧
        t.analyze dependencies s.facts = .ok library := by
  cases supplied with
  | error => simp [verdict]
  | ok dependencies =>
    cases written : s.writer.fault? t dependencies with
    | some fault => simp [verdict, written]
    | none =>
      cases analyzed : t.analyze dependencies s.facts <;>
        simp [verdict, written, analyzed, Except.mapError]

end Setting

end ObjcPlan
