import Mathlib.Data.Fintype.EquivFin
import Mathlib.Order.WellFounded
import ObjcPlan.Proofs.Traversal

/-! What a library comes to depends on nothing but the declarations that it reaches. The libraries
of a graph without cycles can be ordered whatever else the graph holds (`acyclic_iff`), and two
graphs that agree on what is below a library give it the same result (`TargetGraph.plan_local`). -/

namespace ObjcPlan.TargetGraph

variable {g g' : TargetGraph} {groups groups' : List (List Library)} {t : Library}

/-- No label can be reached from itself along dependencies. -/
def Acyclic (g : TargetGraph) : Prop :=
  ∀ label, ¬ Relation.TransGen g.Names label label

/-- Among finitely many libraries that each wait for another of them, some wait in a cycle. -/
theorem Stuck.not_acyclic {waiting : List Library} (stuck : g.Stuck waiting) : ¬ g.Acyclic := by
  intro acyclic
  let before (u t : { t // t ∈ waiting }) : Prop :=
    Relation.TransGen g.Names t.1.label u.1.label
  have : Fintype { t // t ∈ waiting } := .subtype waiting.toFinset fun _ => List.mem_toFinset
  have : IsTrans _ before := ⟨fun _ _ _ first second => second.trans first⟩
  have : Std.Irrefl before := ⟨fun t => acyclic t.1.label⟩
  have founded : WellFounded before := Finite.wellFounded_of_trans_of_irrefl before
  obtain ⟨t, mem⟩ := List.exists_mem_of_ne_nil _ stuck.ne_nil
  obtain ⟨last, -, least⟩ := founded.has_min Set.univ ⟨⟨t, mem⟩, trivial⟩
  obtain ⟨u, mem', needs⟩ := stuck.waits last.1 last.2
  have names : g.Names last.1.label u.label := ⟨last.1, stuck.declared last.2, rfl, needs⟩
  exact least ⟨u, mem'⟩ trivial (.single names)

/-- The libraries of a graph can be ordered exactly if there is no cycle. -/
theorem acyclic_iff (g : TargetGraph) (parallel : Bool) :
    g.Acyclic ↔ ∃ groups, g.schedule parallel = .ok groups ∧ g.Schedule groups := by
  constructor
  · intro acyclic
    rcases g.schedule_cases parallel with ordered | ⟨_, _, stuck⟩
    · exact ordered
    · exact absurd acyclic stuck.not_acyclic
  · rintro ⟨groups, _, schedule⟩
    exact schedule.acyclic

theorem acyclic_of_isOk (parallel : Bool) (ordered : (g.schedule parallel).isOk = true) :
    g.Acyclic := by
  rcases g.schedule_cases parallel with ⟨groups, _, schedule⟩ | ⟨refused, _⟩
  · exact schedule.acyclic
  · rw [refused] at ordered
    contradiction

/-- What is closed under dependencies holds all that can be reached from it. -/
theorem Reaches.mem_of_closed {labels : List Label} {label reached : Label}
    (reaches : g.Reaches label reached) (start : label ∈ labels)
    (closed : ∀ t ∈ g.libraries, t.label ∈ labels → t.deps ⊆ labels) : reached ∈ labels := by
  induction reaches with
  | refl => exact start
  | tail _ names ih =>
    obtain ⟨t, declared, rfl, mem⟩ := names
    exact closed t declared ih mem

/-- Whether two graphs hold the same declarations, or none, for all that a label reaches in the
first of them. -/
def AgreesBelow (g g' : TargetGraph) (label : Label) : Prop :=
  ∀ reached, g.Reaches label reached → g.declarations.get? reached = g'.declarations.get? reached

theorem AgreesBelow.member (agrees : g.AgreesBelow g' t.label) (declared : t ∈ g.libraries) :
    t ∈ g'.libraries := by
  have found := get?_declarations_library.mpr ⟨declared, rfl⟩
  rw [agrees t.label .refl] at found
  exact (get?_declarations_library.mp found).1

theorem AgreesBelow.of_dep (agrees : g.AgreesBelow g' t.label) (declared : t ∈ g.libraries)
    {dep : Label} (mem : dep ∈ t.deps) : g.AgreesBelow g' dep :=
  fun reached reaches => agrees reached (.head ⟨t, declared, rfl, mem⟩ reaches)

theorem AgreesBelow.supplies_eq {results results' : Results} (agrees : g.AgreesBelow g' t.label)
    (declared : t ∈ g.libraries)
    (same : ∀ u ∈ g.libraries, t.Needs u → results u.label = results' u.label) :
    g.supplies results t = g'.supplies results' t := by
  refine mapM_congr_of_mem fun dep mem => ?_
  unfold supply
  rw [← agrees.of_dep declared mem dep .refl]
  split
  · next u found =>
    obtain ⟨declared', rfl⟩ := get?_declarations_library.mp found
    rw [same u declared' mem]
  · rfl
  · rfl

/-- By induction along the first graph: a library gets the same dependencies in both. -/
theorem Solution.agree {rule : Rule} {outcomes outcomes' : Label → Outcome}
    (schedule : g.Schedule groups) (solution : g.Solution rule outcomes)
    (solution' : g'.Solution rule outcomes') :
    ∀ t ∈ g.libraries, g.AgreesBelow g' t.label → outcomes t.label = outcomes' t.label := by
  refine schedule.induct fun t declared below agrees => ?_
  have dependencies : g.supplies (fun label => (outcomes label).result) t =
      g'.supplies (fun label => (outcomes' label).result) t :=
    agrees.supplies_eq declared fun u declared' needs => by
      rw [below u declared' needs (agrees.of_dep declared needs)]
  rw [solution t declared, solution' t (agrees.member declared), dependencies]

end TargetGraph

theorem WorkspacePlan.Holds.get?_eq {p p' : WorkspacePlan} {g g' : TargetGraph} {s s' : Setting}
    {results results' : Results} (holds : p.Holds g s results) (holds' : p'.Holds g' s' results')
    {t : Library} (member : t ∈ g.libraries) (member' : t ∈ g'.libraries)
    (same : results t.label = results' t.label) :
    p.libraries.get? t.label = p'.libraries.get? t.label ∧
      p.failures.get? t.label = p'.failures.get? t.label := by
  constructor
  · refine Option.ext fun library => ?_
    rw [holds.libraries, holds'.libraries, and_iff_right ⟨t, member, rfl⟩,
      and_iff_right ⟨t, member', rfl⟩, same]
  · refine Option.ext fun error => ?_
    rw [holds.failures, holds'.failures, and_iff_right ⟨t, member, rfl⟩,
      and_iff_right ⟨t, member', rfl⟩, same]

/-- Two graphs without cycles that hold the same declarations for all that a library reaches are
planned with the same result for it: the same analysis, or the same failure. Only a bad
configuration keeps them from being planned, and then both of them. -/
theorem TargetGraph.plan_local (g g' : TargetGraph) (o : Options) (toolchain : Toolchain)
    (parallel parallel' : Bool) (acyclic : g.Acyclic) (acyclic' : g'.Acyclic) {t : Library}
    (member : t ∈ g.libraries) (agrees : g.AgreesBelow g' t.label) :
    (∃ error, Facts.resolve o toolchain = .error error ∧
        (g.plan o toolchain parallel .empty).1 = .error (.configuration error) ∧
        (g'.plan o toolchain parallel' .empty).1 = .error (.configuration error)) ∨
      ∃ p p', (g.plan o toolchain parallel .empty).1 = .ok p ∧
        (g'.plan o toolchain parallel' .empty).1 = .ok p' ∧
        p.libraries.contains t.label = !p.failures.contains t.label ∧
        p.libraries.get? t.label = p'.libraries.get? t.label ∧
        p.failures.get? t.label = p'.failures.get? t.label := by
  obtain ⟨groups, ordered, schedule⟩ := (g.acyclic_iff parallel).mp acyclic
  obtain ⟨groups', ordered', schedule'⟩ := (g'.acyclic_iff parallel').mp acyclic'
  cases resolved : Facts.resolve o toolchain with
  | error error =>
    refine .inl ⟨error, rfl, ?_, ?_⟩ <;> simp only [plan, Setting.resolve, resolved]
  | ok facts =>
    have isOk : (Facts.resolve o toolchain).isOk = true := by rw [resolved]; rfl
    obtain ⟨p, planned⟩ := Call.exists_plan ⟨g, o, toolchain, parallel⟩ .empty isOk
      (by rw [ordered]; rfl)
    obtain ⟨p', planned'⟩ := Call.exists_plan ⟨g', o, toolchain, parallel'⟩ .empty isOk
      (by rw [ordered']; rfl)
    obtain ⟨s, _, outcomes, setting, _, solution, tells⟩ := Call.tells_of_plan planned
    obtain ⟨s', _, outcomes', setting', _, solution', tells'⟩ := Call.tells_of_plan planned'
    obtain rfl := Except.ok.inj (setting.symm.trans setting')
    have same := solution.agree schedule solution' t member agrees
    refine .inr ⟨p, p', planned, planned', ?_, tells.get?_eq tells'.toHolds member
      (agrees.member member) (congrArg Outcome.result same)⟩
    rw [tells.contains_library member, tells.contains_failure, failedIn_label member, Bool.not_not]

namespace Neighbors

def net : ForeignLibrary where
  label := ⟨"net", "net", by decide, by decide⟩
  headers := ["net/net.h"]

def base : Library where
  label := ⟨"base", "base", by decide, Refused.base.label.name_ok⟩
  srcs := ["base.m"]

def app : Library where
  label := Refused.app.label
  srcs := ["app.m"]
  deps := [base.label, net.label]

/-- A library that builds on `app`. -/
def host : Library where
  label := ⟨"host", "host", by decide, by decide⟩
  deps := [app.label]

/-- A library that fails, since nothing with the label of its dependency is declared. -/
def stray : Library where
  label := ⟨"app", "stray", app.label.package_ok, by decide⟩
  deps := [⟨"lost", "lost", by decide, by decide⟩]

def graph : TargetGraph where
  declarations := ⟨[(app.label, .library app), (base.label, .library base),
    (net.label, .foreign net)], by decide⟩
  keyed := by decide

def wider : TargetGraph where
  declarations := ⟨[(app.label, .library app), (stray.label, .library stray),
    (base.label, .library base), (host.label, .library host),
    (net.label, .foreign net)], by decide⟩
  keyed := by decide

end Neighbors

/-- Neither the failing library nor the one that builds on it makes a difference to `app`. -/
theorem TargetGraph.plan_local_neighbors :
    Neighbors.graph.Acyclic ∧ Neighbors.wider.Acyclic ∧ Neighbors.app ∈ Neighbors.graph.libraries ∧
      Neighbors.graph.AgreesBelow Neighbors.wider Neighbors.app.label ∧
      ∃ p p', (Neighbors.graph.plan {} (.xcode Toolchain.defaultRoot) true .empty).1 = .ok p ∧
        (Neighbors.wider.plan {} (.xcode Toolchain.defaultRoot) false .empty).1 = .ok p' ∧
        p.libraries.get? Neighbors.app.label = p'.libraries.get? Neighbors.app.label ∧
        p.failures.get? Neighbors.app.label = p'.failures.get? Neighbors.app.label := by
  have acyclic : Neighbors.graph.Acyclic := acyclic_of_isOk true (by decide +kernel)
  have acyclic' : Neighbors.wider.Acyclic := acyclic_of_isOk true (by decide +kernel)
  have member : Neighbors.app ∈ Neighbors.graph.libraries := by decide
  have agrees : Neighbors.graph.AgreesBelow Neighbors.wider Neighbors.app.label := by
    have same : ∀ label ∈ [Neighbors.app.label, Neighbors.base.label, Neighbors.net.label],
        Neighbors.graph.declarations.get? label = Neighbors.wider.declarations.get? label := by
      decide +kernel
    exact fun reached reaches => same reached (reaches.mem_of_closed (by decide) (by decide))
  refine ⟨acyclic, acyclic', member, agrees, ?_⟩
  rcases TargetGraph.plan_local Neighbors.graph Neighbors.wider {} (.xcode Toolchain.defaultRoot)
    true false acyclic acyclic' member agrees with
    ⟨error, refused, _⟩ | ⟨p, p', planned, planned', _, same⟩
  · have resolved : (Facts.resolve {} (.xcode Toolchain.defaultRoot)).isOk = true := by
      decide +kernel
    rw [refused] at resolved
    contradiction
  · exact ⟨p, p', planned, planned', same⟩

end ObjcPlan
