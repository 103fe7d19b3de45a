import ObjcPlan.Analysis

/-!
What is known of the targets a library may depend on: the libraries analyzed so far, the foreign
libraries, and the targets whose analysis failed. A dependency on a failed target is an error and
never counts as one that offers nothing.
-/

namespace ObjcPlan

structure Resolver where
  libraries : SortedMap Label AnalyzedLibrary := .empty
  foreign : SortedMap Label ForeignLibrary := .empty
  failed : SortedSet Label := .empty

namespace Resolver

/-- The resolver that also knows an analyzed library, in place of one with the same label. -/
def addLibrary (r : Resolver) (library : AnalyzedLibrary) : Resolver :=
  { r with libraries := r.libraries.insert library.label library }

/-- The resolver that also knows a foreign library, in place of one with the same label. -/
def addForeign (r : Resolver) (info : ForeignLibrary) : Resolver :=
  { r with foreign := r.foreign.insert info.label info }

/-- The resolver that also knows that a target failed. -/
def addFailure (r : Resolver) (label : Label) : Resolver :=
  { r with failed := r.failed.insert label () }

def hasFailed (r : Resolver) (label : Label) : Bool :=
  r.failed.contains label

/-- One dependency of a target: an analyzed library before a foreign one, and either of them before
a failure. -/
def resolveOne (r : Resolver) (target dependency : Label) : Except PlanError Dependency :=
  match r.libraries.get? dependency with
  | some library => .ok library.asDependency
  | none =>
    match r.foreign.get? dependency with
    | some info => .ok (.foreign info)
    | none =>
      if r.hasFailed dependency then .error (.dependencyFailed target dependency)
      else .error (.dependencyNotFound target dependency)

/-- The direct dependencies of a library in the order of their declaration, or the error of the
first that cannot be had. -/
def resolve (r : Resolver) (t : Library) : Except PlanError (List Dependency) :=
  t.deps.mapM (r.resolveOne t.label)

end Resolver

end ObjcPlan
