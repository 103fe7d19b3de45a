import ObjcPlan.Proofs.Calls
import ObjcPlan.Proofs.Digest

/-! Planning runs that share a cache. The runs take their steps in any order, and the cache may be
emptied at any time. As long as SHA-256 tells apart the texts that are hashed, every analysis in the
cache is the one that its inputs lead to (`Session.Coherent`), so each run comes to what it comes to
with an empty cache of its own (`Session.plans_as_fresh`). -/

namespace ObjcPlan

open TargetGraph

/-- Whether the digests of texts tell them apart. -/
def ToldApart (texts : List String) : Prop :=
  ∀ a ∈ texts, ∀ b ∈ texts, Sha256.hexDigest a = Sha256.hexDigest b → a = b

theorem ToldApart.mono {texts texts' : List String} (h : ToldApart texts') (sub : texts ⊆ texts') :
    ToldApart texts :=
  fun a mem b mem' => h a (sub mem) b (sub mem')

theorem ToldApart.of_forall_eq {texts : List String} {text : String}
    (h : ∀ a ∈ texts, a = text) : ToldApart texts :=
  fun a mem b mem' _ => (h a mem).trans (h b mem').symm

/-- The text that a call hashes for its configuration, unless that is bad. -/
def Call.configurationTexts (c : Call) : List String :=
  match Facts.resolve c.options c.toolchain with
  | .ok facts => [Fingerprint.message facts c.toolchain.identity]
  | .error _ => []

theorem Call.fingerprint_eq {c : Call} {s : Setting}
    (resolved : Setting.resolve c.options c.toolchain = .ok s) :
    ∃ text ∈ c.configurationTexts, s.fingerprint = ⟨Sha256.hexDigest text⟩ ∧
      text = Fingerprint.message s.facts c.toolchain.identity := by
  have facts := Setting.facts_of_resolve resolved
  refine ⟨_, ?_, ?_, rfl⟩
  · rw [configurationTexts, facts]
    exact List.mem_singleton_self _
  · rw [Setting.resolve, facts] at resolved
    exact (congrArg Setting.fingerprint (Except.ok.inj resolved)).symm

/-- Calls with their runs, or with the errors that kept them from starting, on one cache. -/
structure Session where
  cache : Cache
  runs : List (Call × Except PlanError Run)

namespace Session

def start (calls : List Call) : Session where
  cache := .empty
  runs := calls.map fun c => (c, c.start)

inductive Step : Session → Session → Prop
  /-- Any of the runs takes a step. -/
  | run {before after : List (Call × Except PlanError Run)} {c : Call} {r r' : Run}
      {cache cache' : Cache} (step : Run.Step (r, cache) (r', cache')) :
      Step ⟨cache, before ++ (c, .ok r) :: after⟩ ⟨cache', before ++ (c, .ok r') :: after⟩
  /-- The cache is emptied. -/
  | clear {s : Session} : Step s ⟨s.cache.clear, s.runs⟩

abbrev Steps : Session → Session → Prop :=
  Relation.ReflTransGen Step

def textsOf : Call × Except PlanError Run → List String
  | (_, .ok r) => r.hashed
  | (_, .error _) => []

/-- The texts that were hashed as the inputs of analyses. -/
def inputTexts (s : Session) : List String :=
  s.runs.flatMap textsOf

end Session

/-- Whether an analysis was made of inputs with a digest, whose text was hashed. -/
def Made (texts : List String) (facts : Facts) (digest : String) (t : Library)
    (library : AnalyzedLibrary) : Prop :=
  ∃ dependencies, t.inputsMessage dependencies ∈ texts ∧ digest = t.inputsDigest dependencies ∧
    t.analyze dependencies facts = .ok library

theorem Made.mono {texts texts' : List String} {facts : Facts} {digest : String} {t : Library}
    {library : AnalyzedLibrary} (made : Made texts facts digest t library) (sub : texts ⊆ texts') :
    Made texts' facts digest t library := by
  obtain ⟨dependencies, mem, same, analyzed⟩ := made
  exact ⟨dependencies, sub mem, same, analyzed⟩

/-- Whether each analysis in a cache was made under the configuration that it is kept for, which is
that of one of the calls. -/
def Honest (calls : List Call) (texts : List String) (cache : Cache) : Prop :=
  ∀ key entry, cache.entries.get? key = some entry →
    ∃ c ∈ calls, ∃ s, Setting.resolve c.options c.toolchain = .ok s ∧
      key.fingerprint = s.fingerprint ∧ ∃ t, Made texts s.facts entry.digest t entry.library

/-- What is found for the digest of inputs is the analysis of these inputs. -/
theorem Honest.analyze_eq {calls : List Call} {texts : List String} {cache : Cache}
    (honest : Honest calls texts cache) (inputs : ToldApart texts)
    (configurations : ToldApart (calls.flatMap Call.configurationTexts)) {c : Call}
    (mem : c ∈ calls) {s : Setting} (resolved : Setting.resolve c.options c.toolchain = .ok s)
    {t : Library} {dependencies : List Dependency} (hashed : t.inputsMessage dependencies ∈ texts)
    {library : AnalyzedLibrary}
    (found : cache.find? t.label s.fingerprint (t.inputsDigest dependencies) = some library) :
    t.analyze dependencies s.facts = .ok library := by
  unfold Cache.find? at found
  split at found
  · next entry kept =>
    split at found
    · next same_digest =>
      obtain rfl := Option.some.inj found
      obtain ⟨c', mem', s', resolved', same, t', dependencies', hashed', digest, analyzed⟩ :=
        honest _ entry kept
      obtain ⟨text, isText, fingerprint, rfl⟩ := Call.fingerprint_eq resolved
      obtain ⟨text', isText', fingerprint', rfl⟩ := Call.fingerprint_eq resolved'
      have same_text := configurations _ (List.mem_flatMap.mpr ⟨c, mem, isText⟩) _
        (List.mem_flatMap.mpr ⟨c', mem', isText'⟩)
        (congrArg Fingerprint.digest (fingerprint.symm.trans (same.trans fingerprint')))
      obtain ⟨facts, _⟩ := Fingerprint.message_inj same_text
      obtain ⟨rfl, rfl⟩ := Library.inputsMessage_inj
        (inputs _ hashed' _ hashed (digest.symm.trans same_digest))
      rw [facts]
      exact analyzed
    · contradiction
  · contradiction

theorem Honest.mono {calls : List Call} {texts texts' : List String} {cache : Cache}
    (honest : Honest calls texts cache) (sub : texts ⊆ texts') : Honest calls texts' cache := by
  intro key entry found
  obtain ⟨c, mem, s, resolved, same, t, made⟩ := honest key entry found
  exact ⟨c, mem, s, resolved, same, t, made.mono sub⟩

theorem Honest.insert {calls : List Call} {texts : List String} {cache : Cache}
    (honest : Honest calls texts cache) {c : Call} (mem : c ∈ calls) {s : Setting}
    (resolved : Setting.resolve c.options c.toolchain = .ok s) {digest : String} {t : Library}
    {library : AnalyzedLibrary} (made : Made texts s.facts digest t library) :
    Honest calls texts (cache.insert s.fingerprint digest library) := by
  intro key entry found
  by_cases same : key = ⟨library.label, s.fingerprint⟩
  · subst same
    obtain rfl := Option.some.inj ((SortedMap.get?_insert_self _ _ _).symm.trans found)
    exact ⟨c, mem, s, resolved, rfl, t, made⟩
  · exact honest key entry ((SortedMap.get?_insert_of_ne _ _ same).symm.trans found)

theorem Cache.get_insert_self (cache : Cache) (fingerprint : Fingerprint) (digest : String)
    (library : AnalyzedLibrary) :
    (cache.insert fingerprint digest library).get library.label fingerprint digest =
      (some library, { cache.insert fingerprint digest library with hits := cache.hits + 1 }) := by
  have found : (cache.insert fingerprint digest library).find? library.label fingerprint digest =
      some library := by
    rw [find?, insert, SortedMap.get?_insert_self]
    exact if_pos rfl
  rw [get, found]
  rfl

theorem Setting.result_judge {s : Setting} {cache : Cache} {t : Library}
    {supplied : Except PlanError (List Dependency)}
    (right : ∀ known library, supplied = .ok known → s.writer.fault? t known = none →
      cache.find? t.label s.fingerprint (t.inputsDigest known) = some library →
      t.analyze known s.facts = .ok library) :
    (s.judge cache t supplied).result = (s.judge .empty t supplied).result := by
  rw [result_judge_empty]
  cases supplied with
  | error => rfl
  | ok known =>
    cases written : s.writer.fault? t known with
    | some fault =>
      rw [judge_of_fault written]
      simp only [verdict, written, Outcome.result]
    | none =>
      have right := fun library => right known library rfl written
      rw [judge_of_written written]
      simp only [verdict, written]
      cases found : cache.find? t.label s.fingerprint (t.inputsDigest known) with
      | some library =>
        rw [right library found]
        rfl
      | none => cases t.analyze known s.facts <;> rfl

/-- The standard of a run that shares its cache: every library has the result that it has with an
empty cache, whether it is analyzed or found. -/
def TargetGraph.Solution.fresh {g : TargetGraph} {s : Setting} {outcomes : Label → Outcome}
    (solution : g.Solution (s.judge .empty) outcomes) : Standard where
  results label := (outcomes label).result
  admits t outcome := t ∈ g.libraries ∧ outcome.result = (outcomes t.label).result
  result := And.right
  own := by
    rintro t outcome library ⟨declared, same⟩ ok
    rw [same, solution t declared] at ok
    exact Setting.label_of_judge ok

/-- Whether what a run has still to store was made of inputs that it hashed. -/
def Run.Stores (r : Run) : Prop :=
  ∀ t digest library, .missed t digest library ∈ r.tasks →
    Made r.hashed r.setting.facts digest t library

theorem Run.Step.hashed_subset {before after : Run × Cache} (step : Run.Step before after) :
    before.1.hashed ⊆ after.1.hashed := by
  cases step with
  | access => exact List.subset_append_right _ _
  | turn => exact List.Subset.refl _

theorem Run.Stores.step {r r' : Run} {cache cache' : Cache} (stores : r.Stores)
    (step : Run.Step (r, cache) (r', cache')) : r'.Stores := by
  intro t digest library mem
  have sub := step.hashed_subset
  cases step with
  | @access _ _ _ before after task task' tasks step =>
    have old : ∀ other, other ∈ before ++ after → other ∈ r.tasks := fun other mem => by
      rw [tasks]
      simp only [List.mem_append, List.mem_cons] at mem ⊢
      tauto
    simp only [Run.access, List.mem_append, List.mem_cons] at mem
    rcases mem with mem | rfl | mem
    · exact (stores t digest library (old _ (List.mem_append_left _ mem))).mono sub
    · cases task with
      | waiting u =>
        obtain ⟨_, same | ⟨dependencies, _, resolved, written, analyzed, _, same⟩⟩ :=
          Task.step_waiting step
        · cases same
        · cases same
          refine ⟨dependencies, List.mem_append_left _ ?_, rfl, analyzed⟩
          simp [Task.hashes, resolved, written]
      | missed => cases step
      | finished => contradiction
    · exact (stores t digest library (old _ (List.mem_append_right _ mem))).mono sub
  | turn =>
    obtain ⟨_, _, same⟩ := List.mem_map.mp mem
    cases same

theorem Honest.step {calls : List Call} {texts : List String} {r r' : Run} {cache cache' : Cache}
    (honest : Honest calls texts cache) (sub : r.hashed ⊆ texts) (stores : r.Stores) {c : Call}
    (mem : c ∈ calls) (resolved : Setting.resolve c.options c.toolchain = .ok r.setting)
    (step : Run.Step (r, cache) (r', cache')) : Honest calls texts cache' := by
  cases step with
  | @access _ _ _ before after task task' tasks step =>
    cases task with
    | waiting t =>
      intro key entry found
      rw [(Task.step_waiting step).1] at found
      exact honest key entry found
    | missed t digest library =>
      cases step
      exact honest.insert mem resolved ((stores t digest library (by simp [tasks])).mono sub)
    | finished => contradiction
  | turn => exact honest

/-- Whether a run follows its call: it was refused with the call, or it started with it and keeps to
the results that it has with an empty cache. -/
def Call.Follows (c : Call) : Except PlanError Run → Prop
  | .error error => c.start = .error error
  | .ok r => ∃ s groups outcomes, ∃ solution : c.graph.Solution (s.judge .empty) outcomes,
    Setting.resolve c.options c.toolchain = .ok s ∧
      c.start = .ok (Run.start c.graph s groups) ∧ c.graph.Schedule groups ∧
      r.graph = c.graph ∧ r.setting = s ∧ r.Keeps solution.fresh ∧ r.Stores

namespace Session

variable {calls : List Call} {s s' : Session}

/-- Every run follows its call, and every analysis in the cache was made of inputs that were
hashed. -/
structure Coherent (calls : List Call) (s : Session) : Prop where
  calls_eq : s.runs.map (·.1) = calls
  follows : ∀ entry ∈ s.runs, entry.1.Follows entry.2
  honest : Honest calls s.inputTexts s.cache

theorem Coherent.start (calls : List Call) : (Session.start calls).Coherent calls where
  calls_eq := by simp [Session.start, Function.comp_def]
  follows := by
    intro entry mem
    obtain ⟨c, _, rfl⟩ := List.mem_map.mp mem
    rcases c.start_cases with ⟨error, refused, _⟩ | ⟨s, groups, resolved, start, schedule, _⟩
    · simp only [refused, Call.Follows]
    · obtain ⟨outcomes, solution⟩ := schedule.exists_solution (s.judge .empty)
      simp only [start]
      exact ⟨s, groups, outcomes, solution, resolved, start, schedule, rfl, rfl,
        .start _ s schedule, by simp [Run.Stores, Run.start]⟩
  honest := by simp [Honest, Session.start, Cache.empty]

theorem inputTexts_subset (step : Step s s') : s.inputTexts ⊆ s'.inputTexts := by
  cases step with
  | run step =>
    intro text
    simp only [inputTexts, List.flatMap_append, List.flatMap_cons, List.mem_append]
    exact Or.imp_right (Or.imp_left fun mem => step.hashed_subset mem)
  | clear => exact List.Subset.refl _

theorem textsOf_subset {entry : Call × Except PlanError Run} (mem : entry ∈ s.runs) :
    textsOf entry ⊆ s.inputTexts :=
  fun _ isText => List.mem_flatMap.mpr ⟨entry, mem, isText⟩

theorem Coherent.step (coherent : s.Coherent calls) (step : Step s s')
    (inputs : ToldApart s'.inputTexts)
    (configurations : ToldApart (calls.flatMap Call.configurationTexts)) :
    s'.Coherent calls := by
  have sub := inputTexts_subset step
  have honest := coherent.honest.mono sub
  cases step with
  | clear =>
    exact ⟨coherent.calls_eq, coherent.follows, by simp [Honest, Cache.clear]⟩
  | @run before after c r r' cache cache' step =>
    obtain ⟨st, groups, outcomes, solution, resolved, start, schedule, graph, setting, kept,
      stores⟩ := coherent.follows (c, .ok r) (by simp)
    have isCall : c ∈ calls := by
      rw [← coherent.calls_eq]
      simp
    subst setting
    have own : textsOf (c, .ok r') ⊆ Session.inputTexts ⟨cache', before ++ (c, .ok r') :: after⟩ :=
      textsOf_subset (by simp)
    have fits : ∀ t, .waiting t ∈ r.tasks →
        Task.hashes r.setting r.progress.resolver (.waiting t) ⊆ r'.hashed → solution.fresh.admits t
          (r.setting.judge cache t (r.graph.supplies solution.fresh.results t)) := by
      intro t waiting hashes
      have declared := kept.declared (.inr (.inl (List.mem_map_of_mem waiting)))
      rw [graph] at declared ⊢
      refine ⟨declared, ?_⟩
      rw [solution t declared]
      refine Setting.result_judge fun dependencies library supplied written found => ?_
      have resolved' : r.progress.resolver.resolve t = .ok dependencies :=
        (kept.resolve waiting).trans (by rw [graph]; exact supplied)
      have hashed : t.inputsMessage dependencies ∈ r'.hashed :=
        hashes (by simp [Task.hashes, resolved', written])
      exact honest.analyze_eq inputs configurations isCall resolved (own hashed) found
    have others : ∀ entry ∈ before ++ after, entry.1.Follows entry.2 := fun entry mem =>
      coherent.follows entry (by simp only [List.mem_append, List.mem_cons] at mem ⊢; tauto)
    refine ⟨by simpa using coherent.calls_eq, ?_, ?_⟩
    · intro entry mem
      simp only [List.mem_append, List.mem_cons] at mem
      rcases mem with mem | rfl | mem
      · exact others entry (List.mem_append_left _ mem)
      · obtain ⟨graph', setting', _⟩ := step.static
        exact ⟨r.setting, groups, outcomes, solution, resolved, start, schedule, graph'.trans graph,
          setting', kept.step step fits, stores.step step⟩
      · exact others entry (List.mem_append_right _ mem)
    · exact honest.step (List.Subset.trans step.hashed_subset own) stores isCall resolved step

theorem Coherent.steps (steps : Steps (.start calls) s) (inputs : ToldApart s.inputTexts)
    (configurations : ToldApart (calls.flatMap Call.configurationTexts)) : s.Coherent calls := by
  induction steps with
  | refl => exact .start calls
  | tail _ step ih =>
    have coherent := ih (inputs.mono (inputTexts_subset step))
    exact coherent.step step inputs configurations

/-- What a call has come to once its run is over. -/
inductive Returns : Except PlanError Run → Except PlanError WorkspacePlan → Prop
  | refused (error : PlanError) : Returns (.error error) (.error error)
  | finished {r : Run} (finished : r.Finished) : Returns (.ok r) (.ok r.plan)

theorem content_eq_of_follows {c : Call} {run : Except PlanError Run}
    {result : Except PlanError WorkspacePlan} (follows : c.Follows run)
    (returns : Returns run result) :
    result.map WorkspacePlan.content = (c.plan .empty).map WorkspacePlan.content := by
  have fresh := c.yields_plan .empty
  cases returns with
  | refused error => rw [fresh.of_refused follows]
  | @finished r finished =>
    obtain ⟨s, groups, outcomes, solution, resolved, start, schedule, graph, setting, kept, _⟩ :=
      follows
    obtain ⟨s', _, outcomes', plan, resolved', _, solution', same, tells⟩ := fresh.of_started start
    obtain rfl := Except.ok.inj (resolved.symm.trans resolved')
    have holds := kept.holds finished
    rw [graph, setting] at holds
    rw [same]
    refine congrArg Except.ok (holds.content_eq tells.toHolds fun t declared => ?_)
    exact congrArg Outcome.result (schedule.solution_unique solution solution' t declared)

theorem analyze_eq_of_follows {c : Call} {r : Run} (follows : c.Follows (.ok r)) {t : Library}
    {library : AnalyzedLibrary} (mem : .finished t (.cached library) ∈ r.tasks) :
    t ∈ c.graph.libraries ∧ Facts.resolve c.options c.toolchain = .ok r.setting.facts ∧
      ∃ dependencies, r.progress.resolver.resolve t = .ok dependencies ∧
        t.analyze dependencies r.setting.facts = .ok library := by
  obtain ⟨s, groups, outcomes, solution, resolved, _, _, graph, rfl, kept, _⟩ := follows
  obtain ⟨declared, result⟩ := kept.tasks _ mem
  have dependencies : r.progress.resolver.resolve t =
      c.graph.supplies (fun label => (outcomes label).result) t :=
    (kept.resolve mem).trans (by rw [graph]; rfl)
  rw [solution t declared, Setting.result_judge_empty, ← dependencies] at result
  obtain ⟨known, resolved', _, analyzed⟩ := Setting.verdict_eq_ok_iff.mp result.symm
  exact ⟨declared, Setting.facts_of_resolve resolved, known, resolved', analyzed⟩

def remaining (s : Session) : Nat :=
  (s.runs.map fun
    | (_, .ok r) => r.remaining
    | (_, .error _) => 0).sum

theorem remaining_run {before after : List (Call × Except PlanError Run)} {c : Call} {r r' : Run}
    {cache cache' : Cache} (step : Run.Step (r, cache) (r', cache')) :
    remaining ⟨cache', before ++ (c, .ok r') :: after⟩ <
      remaining ⟨cache, before ++ (c, .ok r) :: after⟩ := by
  have less := step.remaining_lt
  simp only [remaining, List.map_append, List.map_cons, List.sum_append, List.sum_cons]
  omega

theorem Step.remaining_lt (step : Step s s') :
    s'.remaining < s.remaining ∨ s' = ⟨s.cache.clear, s.runs⟩ := by
  cases step with
  | run step => exact .inl (remaining_run step)
  | clear => exact .inr rfl

theorem returns_or_step (s : Session) :
    (∀ entry ∈ s.runs, ∃ result, Returns entry.2 result) ∨
      ∃ s', Step s s' ∧ s'.remaining < s.remaining := by
  by_cases ended : ∀ entry ∈ s.runs, ∃ result, Returns entry.2 result
  · exact .inl ended
  · simp only [not_forall] at ended
    obtain ⟨⟨c, run⟩, mem, unfinished⟩ := ended
    cases run with
    | error error => exact absurd ⟨_, .refused error⟩ unfinished
    | ok r =>
      obtain ⟨cache, runs⟩ := s
      obtain ⟨before, after, rfl⟩ := List.append_of_mem mem
      obtain ⟨r', cache', step⟩ := Run.exists_step cache fun finished =>
        unfinished ⟨_, .finished finished⟩
      exact .inr ⟨_, .run step, remaining_run step⟩

/-- Whatever calls share a cache that is empty at the start, and in whichever order their runs take
their steps on it and the cache is emptied, every call comes to what it comes to with an empty cache
of its own, and what is found in the cache is what the analysis leads to with the declaration, the
dependencies and the facts at hand. All runs come to their ends: every step but the emptying of the
cache leaves fewer to take, and one can be taken until all are over.

SHA-256 has to tell apart the texts that are hashed. These texts determine the facts and the
identity of the toolchain, and the declaration and its dependencies. -/
theorem plans_as_fresh (steps : Steps (.start calls) s) (inputs : ToldApart s.inputTexts)
    (configurations : ToldApart (calls.flatMap Call.configurationTexts)) :
    s.runs.map (·.1) = calls ∧
      (∀ c run result, (c, run) ∈ s.runs → Returns run result →
        result.map WorkspacePlan.content = (c.plan .empty).map WorkspacePlan.content) ∧
      (∀ c r t library, (c, .ok r) ∈ s.runs → .finished t (.cached library) ∈ r.tasks →
        t ∈ c.graph.libraries ∧ Facts.resolve c.options c.toolchain = .ok r.setting.facts ∧
          ∃ dependencies, r.progress.resolver.resolve t = .ok dependencies ∧
            t.analyze dependencies r.setting.facts = .ok library) ∧
      (∀ s', Step s s' → s'.remaining < s.remaining ∨ s' = ⟨s.cache.clear, s.runs⟩) ∧
      ((∀ entry ∈ s.runs, ∃ result, Returns entry.2 result) ∨
        ∃ s', Step s s' ∧ s'.remaining < s.remaining) ∧
      (∀ facts facts' identity identity',
        Fingerprint.message facts identity = Fingerprint.message facts' identity' →
          facts = facts' ∧ identity = identity') ∧
      ∀ (t t' : Library) dependencies dependencies',
        t.inputsMessage dependencies = t'.inputsMessage dependencies' →
          t = t' ∧ dependencies = dependencies' := by
  have coherent := Coherent.steps steps inputs configurations
  refine ⟨coherent.calls_eq, ?_, ?_, fun _ => Step.remaining_lt, s.returns_or_step,
    fun _ _ _ _ => Fingerprint.message_inj, fun _ _ _ _ => Library.inputsMessage_inj⟩
  · exact fun c run result mem => content_eq_of_follows (coherent.follows _ mem)
  · exact fun c r t library mem => analyze_eq_of_follows (coherent.follows _ mem)

theorem steps_of_run (before after : List (Call × Except PlanError Run)) (c : Call)
    {start finish : Run × Cache} (steps : Run.Steps start finish) :
    Steps ⟨start.2, before ++ (c, .ok start.1) :: after⟩
      ⟨finish.2, before ++ (c, .ok finish.1) :: after⟩ := by
  induction steps with
  | refl => exact .refl
  | tail _ step ih => exact ih.tail (.run step)

end Session

namespace Twice

def base : Library where
  label := ⟨"store", "store", by decide, by decide⟩
  srcs := ["store.m"]

def call : Call where
  graph := ⟨⟨[(base.label, .library base)], by decide⟩, by decide⟩
  options := {}
  toolchain := .xcode Toolchain.defaultRoot
  parallel := true

theorem start_eq : ∃ s, Facts.resolve call.options call.toolchain = .ok s.facts ∧
    s.writer = .unicode ∧ call.start = .ok (Run.start call.graph s [[base]]) := by
  have ordered : call.graph.schedule call.parallel = .ok [[base]] := by decide +kernel
  have resolves : (Facts.resolve call.options call.toolchain).isOk = true := by decide +kernel
  cases resolved : Facts.resolve call.options call.toolchain with
  | error error => simp [resolved] at resolves
  | ok facts =>
    refine ⟨⟨facts, .ofFacts facts call.toolchain.identity, .unicode⟩, rfl, rfl, ?_⟩
    rw [Call.start, Setting.resolve, resolved, ordered]
    rfl

theorem analyze_base (facts : Facts) : ∃ library, base.analyze [] facts = .ok library := by
  have passed : ∀ disabled, Validation.check ⟨disabled⟩ base = .ok [] := by decide
  rcases base.analyze_eq [] facts with ⟨error, refused, _⟩ | ⟨_, library, _, ok, _⟩
  · cases (passed _).symm.trans refused
  · exact ⟨library, ok⟩

end Twice

/-- The second of two equal calls finds what the first one stored. -/
theorem Session.plans_as_fresh_twice :
    ∃ s first second library, Steps (.start [Twice.call, Twice.call]) s ∧
      s.runs = [(Twice.call, .ok first), (Twice.call, .ok second)] ∧
      (Except.ok first.plan).map WorkspacePlan.content =
        (Twice.call.plan .empty).map WorkspacePlan.content ∧
      Task.finished Twice.base (.cached library) ∈ second.tasks ∧
      ∃ dependencies, second.progress.resolver.resolve Twice.base = .ok dependencies ∧
        Twice.base.analyze dependencies second.setting.facts = .ok library := by
  obtain ⟨s, facts, writer, start⟩ := Twice.start_eq
  obtain ⟨library, analyzed⟩ := Twice.analyze_base s.facts
  have label := Library.label_of_analyze analyzed
  have written : s.writer.fault? Twice.base [] = none := by
    rw [writer]
    rfl
  let digest := Twice.base.inputsDigest []
  let asked : Run := (Run.start Twice.call.graph s [[Twice.base]]).turn []
  let missed := asked.access [] (.waiting Twice.base) (.missed Twice.base digest library) []
  let stored := missed.access [] (.missed Twice.base digest library)
    (.finished Twice.base (.analyzed library)) []
  let first := stored.turn [(Twice.base, .analyzed library)]
  let second := asked.access [] (.waiting Twice.base) (.finished Twice.base (.cached library)) []
  let kept : Cache := { Cache.empty with misses := 1 }.insert s.fingerprint digest library
  have turn (cache : Cache) :
      Run.Step (Run.start Twice.call.graph s [[Twice.base]], cache) (asked, cache) :=
    have idle : (Run.start Twice.call.graph s [[Twice.base]]).tasks = [].map Task.ofEntry := rfl
    .turn idle (by simp [Run.Finished, Run.start])
  have miss : Run.Step (asked, .empty) (missed, { Cache.empty with misses := 1 }) := by
    refine .access rfl ?_
    have resolved : asked.progress.resolver.resolve Twice.base = .ok [] := rfl
    have setting : asked.setting = s := rfl
    have absent : Cache.empty.get Twice.base.label s.fingerprint (Twice.base.inputsDigest []) =
      (none, { Cache.empty with misses := 1 }) := rfl
    rw [Task.step_of_written resolved (setting ▸ written), setting, absent]
    simp only [analyzed]
    rfl
  have store : Run.Step (missed, { Cache.empty with misses := 1 }) (stored, kept) :=
    .access rfl rfl
  have close : Run.Step (stored, kept) (first, kept) :=
    have done : stored.tasks = [(Twice.base, .analyzed library)].map Task.ofEntry := rfl
    .turn done (by simp [Run.Finished, stored, Run.access])
  have hit : Run.Step (asked, kept) (second, { kept with hits := kept.hits + 1 }) := by
    refine .access rfl ?_
    have resolved : asked.progress.resolver.resolve Twice.base = .ok [] := rfl
    have setting : asked.setting = s := rfl
    have present : kept.get Twice.base.label s.fingerprint (Twice.base.inputsDigest []) =
        (some library, { kept with hits := kept.hits + 1 }) :=
      label ▸ Cache.get_insert_self _ s.fingerprint digest library
    rw [Task.step_of_written resolved (setting ▸ written), setting, present]
  let last : Session :=
    ⟨{ kept with hits := kept.hits + 1 }, [(Twice.call, .ok first), (Twice.call, .ok second)]⟩
  have runs : Steps (.start [Twice.call, Twice.call]) last := by
    rw [Session.start, List.map_cons, List.map_singleton, start]
    have once : Run.Steps (_, .empty) (first, kept) :=
      .head (turn _) (.head miss (.head store (.single close)))
    have again : Run.Steps (_, kept) (second, _) := .head (turn _) (.single hit)
    exact .trans (steps_of_run [] _ _ once) (steps_of_run [(Twice.call, .ok first)] [] _ again)
  have inputs : ToldApart last.inputTexts := by
    let hashes := Task.hashes asked.setting asked.progress.resolver (.waiting Twice.base)
    have hashes_eq : hashes = [Twice.base.inputsMessage []] := by
      have resolved : asked.progress.resolver.resolve Twice.base = .ok [] := rfl
      have setting : asked.setting = s := rfl
      simp only [hashes, Task.hashes, resolved, setting, written]
    have texts : last.inputTexts = hashes ++ [] ++ (hashes ++ [] ++ []) := rfl
    have same : ∀ text ∈ last.inputTexts, text = Twice.base.inputsMessage [] := by
      simp [texts, hashes_eq]
    exact .of_forall_eq same
  have configurations :
      ToldApart ([Twice.call, Twice.call].flatMap Call.configurationTexts) :=
    .of_forall_eq fun text mem => by simpa [Call.configurationTexts, facts] using mem
  obtain ⟨_, plans, hits, _⟩ := Session.plans_as_fresh runs inputs configurations
  refine ⟨last, first, second, library, runs, rfl, ?_, ?_, ?_⟩
  · exact plans Twice.call _ _ List.mem_cons_self (.finished ⟨rfl, rfl⟩)
  · exact List.mem_cons_self
  · have isRun : (Twice.call, .ok second) ∈ last.runs := List.mem_cons_of_mem _ List.mem_cons_self
    exact (hits Twice.call second Twice.base library isRun List.mem_cons_self).2.2

end ObjcPlan
