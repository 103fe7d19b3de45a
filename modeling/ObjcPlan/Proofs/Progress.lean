import ObjcPlan.Proofs.Evaluation

/-! What a run knows after it recorded the outcomes of some libraries. `Progress.Knows` says it in
terms of the results of the libraries alone, so neither the order of recording nor the cache plays a
part. A run that knows the results of what a library needs resolves its dependencies to what
`supplies` says (`Progress.Knows.resolve`). -/

namespace ObjcPlan

/-- How often each kind of outcome occurs. -/
def Tally.of (outcomes : List Outcome) : Tally where
  analyzed := outcomes.countP fun | .analyzed _ => true | _ => false
  cached := outcomes.countP fun | .cached _ => true | _ => false
  failed := outcomes.countP fun | .failed _ => true | _ => false

theorem Tally.of_perm {outcomes outcomes' : List Outcome} (h : outcomes.Perm outcomes') :
    Tally.of outcomes = Tally.of outcomes' := by
  simp only [Tally.of, h.countP_eq]

theorem Tally.total (outcomes : List Outcome) :
    (Tally.of outcomes).analyzed + (Tally.of outcomes).cached + (Tally.of outcomes).failed =
      outcomes.length := by
  induction outcomes with
  | nil => rfl
  | cons outcome rest ih =>
    cases outcome <;> simp only [Tally.of, List.countP_cons, List.length_cons] at * <;> simp <;>
      omega

theorem Resolver.get?_foreign_foldl {infos : List ForeignLibrary}
    (distinct : (infos.map (·.label)).Nodup) (r : Resolver) (label : Label)
    (info : ForeignLibrary) :
    (infos.foldl addForeign r).foreign.get? label = some info ↔
      (info ∈ infos ∧ info.label = label) ∨
        (label ∉ infos.map (·.label) ∧ r.foreign.get? label = some info) := by
  induction infos generalizing r with
  | nil => simp
  | cons first rest ih =>
    obtain ⟨new, distinct⟩ := List.nodup_cons.mp distinct
    rw [List.foldl_cons, ih distinct]
    by_cases same : label = first.label
    · subst same
      simp only [addForeign, SortedMap.get?_insert_self]
      grind
    · simp only [addForeign, SortedMap.get?_insert_of_ne _ _ same]
      grind

theorem Resolver.foldl_addForeign (infos : List ForeignLibrary) (r : Resolver) :
    (infos.foldl addForeign r).libraries = r.libraries ∧
      (infos.foldl addForeign r).failed = r.failed := by
  induction infos generalizing r with
  | nil => exact ⟨rfl, rfl⟩
  | cons first rest ih => exact ih (r.addForeign first)

namespace Progress

open TargetGraph

variable {g : TargetGraph} {results : Results} {labels : List Label} {p : Progress}

/-- The run knows what the libraries with the given labels come to, and nothing of others. -/
structure Knows (g : TargetGraph) (results : Results) (labels : List Label) (p : Progress) :
    Prop where
  declared : ∀ label ∈ labels, ∃ t ∈ g.libraries, t.label = label
  libraries : ∀ label library, p.resolver.libraries.get? label = some library ↔
    label ∈ labels ∧ results label = .ok library
  foreign : ∀ label info, p.resolver.foreign.get? label = some info ↔
    g.declarations.get? label = some (.foreign info)
  failed : ∀ label, p.resolver.hasFailed label = true ↔
    label ∈ labels ∧ ∃ error, results label = .error error
  failures : ∀ label error, p.failures.get? label = some error ↔
    label ∈ labels ∧ results label = .error error

theorem Knows.start (g : TargetGraph) (results : Results) : Knows g results [] (start g) where
  declared := by simp
  libraries label library := by
    rw [Progress.start, (Resolver.foldl_addForeign g.foreign {}).1]
    simp
  foreign label info := by
    rw [Progress.start, Resolver.get?_foreign_foldl g.nodup_foreign_labels,
      get?_declarations_foreign]
    simp
  failed label := by
    rw [Progress.start, Resolver.hasFailed, (Resolver.foldl_addForeign g.foreign {}).2]
    simp [SortedMap.contains]
  failures label error := by simp [Progress.start]

theorem Knows.declared_append (known : Knows g results labels p) {t : Library}
    (declared : t ∈ g.libraries) :
    ∀ label ∈ labels ++ [t.label], ∃ u ∈ g.libraries, u.label = label := by
  intro label mem
  rcases List.mem_append.mp mem with mem | mem
  · exact known.declared label mem
  · exact ⟨t, declared, (List.mem_singleton.mp mem).symm⟩

theorem Knows.success (known : Knows g results labels p) {t : Library} {library : AnalyzedLibrary}
    (declared : t ∈ g.libraries) (right : results t.label = .ok library)
    (own : library.label = t.label) (tally : Tally) :
    Knows g results (labels ++ [t.label])
      { p with resolver := p.resolver.addLibrary library, tally } where
  declared := known.declared_append declared
  libraries label other := by
    by_cases same : label = t.label
    · subst same
      simp [Resolver.addLibrary, own, SortedMap.get?_insert_self, right]
    · simp [Resolver.addLibrary, own, SortedMap.get?_insert_of_ne _ _ same, same, known.libraries]
  foreign := known.foreign
  failed label := by
    show p.resolver.hasFailed label = true ↔ _
    rw [known.failed]
    by_cases same : label = t.label <;> simp [same, right]
  failures label error := by
    rw [known.failures]
    by_cases same : label = t.label <;> simp [same, right]

theorem Knows.failure (known : Knows g results labels p) {t : Library} {error : Failure}
    (declared : t ∈ g.libraries) (right : results t.label = .error error) (tally : Tally) :
    Knows g results (labels ++ [t.label])
      { resolver := p.resolver.addFailure t.label
        failures := p.failures.insert t.label error
        tally } where
  declared := known.declared_append declared
  libraries label library := by
    show p.resolver.libraries.get? label = some library ↔ _
    rw [known.libraries]
    by_cases same : label = t.label <;> simp [same, right]
  foreign := known.foreign
  failed label := by
    by_cases same : label = t.label
    · subst same
      simp [Resolver.addFailure, Resolver.hasFailed, SortedMap.contains,
        SortedMap.get?_insert_self, right]
    · have other :
          (p.resolver.addFailure t.label).hasFailed label = p.resolver.hasFailed label := by
        simp [Resolver.addFailure, Resolver.hasFailed, SortedMap.contains,
          SortedMap.get?_insert_of_ne _ _ same]
      rw [other, known.failed]
      simp [same]
  failures label other := by
    by_cases same : label = t.label
    · subst same
      simp [SortedMap.get?_insert_self, right]
    · simp [SortedMap.get?_insert_of_ne _ _ same, same, known.failures]

theorem Knows.record (known : Knows g results labels p) {t : Library} {outcome : Outcome}
    (declared : t ∈ g.libraries) (right : outcome.result = results t.label)
    (own : ∀ library, outcome.result = .ok library → library.label = t.label) :
    Knows g results (labels ++ [t.label]) (p.record t.label outcome) := by
  cases outcome with
  | analyzed library => exact known.success declared right.symm (own library rfl) _
  | cached library => exact known.success declared right.symm (own library rfl) _
  | failed error => exact known.failure declared right.symm _

/-- Outcomes that may be recorded: each with the label of a library of the graph, whose result it
has. -/
def Right (g : TargetGraph) (results : Results) (recorded : List (Label × Outcome)) : Prop :=
  ∀ entry ∈ recorded, ∃ t ∈ g.libraries, t.label = entry.1 ∧
    entry.2.result = results t.label ∧
    ∀ library, entry.2.result = .ok library → library.label = t.label

theorem Knows.recordAll (known : Knows g results labels p) {recorded : List (Label × Outcome)}
    (right : Right g results recorded) :
    Knows g results (labels ++ recorded.map (·.1)) (p.recordAll recorded) := by
  induction recorded generalizing labels p with
  | nil => simpa [Progress.recordAll] using known
  | cons entry rest ih =>
    obtain ⟨t, declared, label, result, own⟩ := right entry List.mem_cons_self
    have next := known.record declared result own
    rw [label] at next
    simpa [Progress.recordAll] using ih next fun e mem => right e (List.mem_cons_of_mem _ mem)

theorem Knows.notMem (known : Knows g results labels p) {label : Label}
    (other : g.library? label = none) : label ∉ labels := by
  intro mem
  obtain ⟨t, declared, rfl⟩ := known.declared label mem
  rw [library?_eq_some_iff.mpr ⟨declared, rfl⟩] at other
  contradiction

theorem Knows.libraries_none (known : Knows g results labels p) {label : Label}
    (h : label ∉ labels ∨ ∃ error, results label = .error error) :
    p.resolver.libraries.get? label = none := by
  refine Option.eq_none_iff_forall_ne_some.mpr fun library found => ?_
  obtain ⟨mem, ok⟩ := (known.libraries label library).mp found
  rcases h with absent | ⟨error, failed⟩
  · exact absent mem
  · rw [failed] at ok
    contradiction

theorem Knows.foreign_none (known : Knows g results labels p) (label : Label)
    (h : ∀ info, g.declarations.get? label ≠ some (.foreign info)) :
    p.resolver.foreign.get? label = none :=
  Option.eq_none_iff_forall_ne_some.mpr fun info found =>
    h info ((known.foreign label info).mp found)

/-- A run that knows the results of what a library needs resolves its dependencies to what the
results supply. -/
theorem Knows.resolve (known : Knows g results labels p) {t : Library}
    (needed : ∀ u ∈ g.libraries, t.Needs u → u.label ∈ labels) :
    p.resolver.resolve t = g.supplies results t := by
  refine mapM_congr_of_mem fun dep mem => ?_
  unfold Resolver.resolveOne supply
  cases declaration : g.declarations.get? dep with
  | none =>
    have absent : dep ∉ labels := known.notMem (by simp [library?, declaration])
    have not_failed : p.resolver.hasFailed dep = false := by
      simp [Bool.eq_false_iff, Ne, known.failed, absent]
    simp [known.libraries_none (.inl absent), known.foreign_none dep (by simp [declaration]),
      not_failed]
  | some declared =>
    cases declared with
    | foreign info =>
      have absent : dep ∉ labels :=
        known.notMem (by simp [library?, declaration, Declaration.library?])
      simp [known.libraries_none (.inl absent), (known.foreign dep info).mpr declaration]
    | library u =>
      obtain ⟨declared, rfl⟩ := get?_declarations_library.mp declaration
      have known_label := needed u declared mem
      cases result : results u.label with
      | ok library => simp [(known.libraries _ _).mpr ⟨known_label, result⟩]
      | error error =>
        have failed := (known.failed u.label).mpr ⟨known_label, error, result⟩
        simp [known.libraries_none (.inr ⟨error, result⟩),
          known.foreign_none u.label (by simp [declaration]), failed]

theorem recordAll_append (p : Progress) (before after : List (Label × Outcome)) :
    p.recordAll (before ++ after) = (p.recordAll before).recordAll after :=
  List.foldl_append

theorem tally_recordAll (g : TargetGraph) (recorded : List (Label × Outcome)) :
    ((start g).recordAll recorded).tally = Tally.of (recorded.map (·.2)) := by
  induction recorded using List.reverseRecOn with
  | nil => rfl
  | append_singleton before entry ih =>
    obtain ⟨label, outcome⟩ := entry
    rw [recordAll_append]
    show (((start g).recordAll before).record label outcome).tally = _
    cases outcome <;> simp [record, ih, Tally.of]

end Progress

end ObjcPlan
