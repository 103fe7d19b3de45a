import ObjcPlan.Cache
import ObjcPlan.Graph.Order
import ObjcPlan.Resolver

/-!
Plans of whole workspaces. The libraries of a graph are analyzed group by group. Within a group all
analyses see the same earlier results, so their order does not matter; the results are recorded
before the next group starts. A library that cannot be analyzed is a failure of its own and of the
libraries that depend on it, but not of the plan.
-/

namespace ObjcPlan

/-- What the analysis of a library came to. -/
inductive Outcome
  | analyzed (library : AnalyzedLibrary)
  /-- An earlier analysis of the same inputs is used again. -/
  | cached (library : AnalyzedLibrary)
  | failed (failure : Failure)
  deriving DecidableEq

/-- A configuration made ready for analyses. -/
structure Setting where
  facts : Facts
  fingerprint : Fingerprint
  writer : Writer

namespace Setting

/-- Facts have no fault: options are texts, and the paths of a toolchain are taken as Unicode. -/
def resolve (o : Options) (toolchain : Toolchain) : Except PlanError Setting :=
  match Facts.resolve o toolchain with
  | .error error => .error (.configuration error)
  | .ok facts => .ok ⟨facts, .ofFacts facts toolchain.identity, toolchain.writer⟩

/-- The analysis of one library. The cache is asked once the dependencies are known and the inputs
have a digest, and keeps what had to be analyzed; failures are not kept. -/
def analyze (s : Setting) (resolver : Resolver) (cache : Cache) (t : Library) : Outcome × Cache :=
  match resolver.resolve t with
  | .error error => (.failed (.planning error), cache)
  | .ok dependencies =>
    match s.writer.inputsDigest t dependencies with
    | .error fault => (.failed (.cache fault), cache)
    | .ok digest =>
      match cache.get t.label s.fingerprint digest with
      | (some library, cache) => (.cached library, cache)
      | (none, cache) =>
        match t.analyze dependencies s.facts with
        | .error error => (.failed (.planning error), cache)
        | .ok library => (.analyzed library, cache.insert s.fingerprint digest library)

/-- The analyses of the libraries of a group, one after the other. -/
def analyzeAll (s : Setting) (resolver : Resolver) (cache : Cache) :
    List Library → List (Label × Outcome) × Cache
  | [] => ([], cache)
  | t :: group =>
    let (outcome, cache) := s.analyze resolver cache t
    let (outcomes, cache) := s.analyzeAll resolver cache group
    ((t.label, outcome) :: outcomes, cache)

end Setting

/-- How much a run did. -/
structure Tally where
  analyzed : Nat := 0
  cached : Nat := 0
  failed : Nat := 0
  deriving DecidableEq

/-- What is known in the middle of a run. -/
structure Progress where
  resolver : Resolver := {}
  failures : SortedMap Label Failure := .empty
  tally : Tally := {}

namespace Progress

/-- The start of a run: only the foreign libraries are there. -/
def start (g : TargetGraph) : Progress :=
  { resolver := g.foreign.foldl Resolver.addForeign {} }

/-- What is known after one more analysis. -/
def record (p : Progress) (label : Label) : Outcome → Progress
  | .analyzed library =>
    { p with
      resolver := p.resolver.addLibrary library
      tally := { p.tally with analyzed := p.tally.analyzed + 1 } }
  | .cached library =>
    { p with
      resolver := p.resolver.addLibrary library
      tally := { p.tally with cached := p.tally.cached + 1 } }
  | .failed failure =>
    { resolver := p.resolver.addFailure label
      failures := p.failures.insert label failure
      tally := { p.tally with failed := p.tally.failed + 1 } }

def recordAll (p : Progress) (outcomes : List (Label × Outcome)) : Progress :=
  outcomes.foldl (fun p (label, outcome) => p.record label outcome) p

/-- What is known after a group, whose analyses do not see each other. -/
def advance (s : Setting) (p : Progress) (cache : Cache) (group : List Library) :
    Progress × Cache :=
  let (outcomes, cache) := s.analyzeAll p.resolver cache group
  (p.recordAll outcomes, cache)

/-- What is known after groups that are handled in turn. -/
def run (s : Setting) (p : Progress) (cache : Cache) : List (List Library) → Progress × Cache
  | [] => (p, cache)
  | group :: groups =>
    let (p, cache) := p.advance s cache group
    p.run s cache groups

end Progress

/-- The plan of a workspace: the analysis or the failure of every library. -/
structure WorkspacePlan where
  facts : Facts
  libraries : SortedMap Label AnalyzedLibrary
  failures : SortedMap Label Failure
  /-- The number of libraries in the graph. -/
  total : Nat
  /-- The number of groups in which they were handled. -/
  groups : Nat
  tally : Tally

namespace WorkspacePlan

def isSuccess (p : WorkspacePlan) : Bool :=
  p.failures.isEmpty

/-- A map as an object with one field for each label. -/
def byLabel {α : Type} (m : SortedMap Label α) (value : α → Json) : Json :=
  .object (m.entries.map fun (label, a) => (label.text, value a))

def toJson (p : WorkspacePlan) : Json :=
  .object [
    ("facts", Coded.encode p.facts),
    ("libraries", byLabel p.libraries Coded.encode),
    ("failures", byLabel p.failures fun failure => .object [("message", .string failure.message)])]

/-- The plan as it is handed to what runs the actions. -/
def text (p : WorkspacePlan) : String :=
  p.toJson.pretty

end WorkspacePlan

namespace TargetGraph

/-- The groups in which the libraries are handled: large ones if analyses may run side by side, and
otherwise one library at a time. -/
def schedule (g : TargetGraph) (parallel : Bool) : Except PlanError (List (List Library)) :=
  if parallel then g.buildGroups else g.buildOrder.map fun order => order.map ([·])

/-- The plan of all libraries of a graph, with the cache after the run. Only a bad configuration and
a cycle of dependencies keep the whole workspace from being planned. -/
def plan (g : TargetGraph) (o : Options) (toolchain : Toolchain) (parallel : Bool) (cache : Cache) :
    Except PlanError WorkspacePlan × Cache :=
  match Setting.resolve o toolchain with
  | .error error => (.error error, cache)
  | .ok setting =>
    match g.schedule parallel with
    | .error error => (.error error, cache)
    | .ok groups =>
      let (progress, cache) := (Progress.start g).run setting cache groups
      let result := {
        facts := setting.facts
        libraries := progress.resolver.libraries
        failures := progress.failures
        total := g.size
        groups := groups.length
        tally := progress.tally }
      (.ok result, cache)

end TargetGraph

end ObjcPlan
