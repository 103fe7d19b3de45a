import ObjcPlan.Declaration
import ObjcPlan.Provider.Set

/-!
Merging a target's own values with what its direct dependencies offer. Every key lists the values
in its order and keeps each where it first occurs. The archives of foreign libraries are listed
apart from those of planned ones.
-/

namespace ObjcPlan

/-- The values that a foreign library contributes under a key. -/
def ForeignLibrary.contribution (info : ForeignLibrary) : (key : ProviderKey) → List key.Value
  | .header => info.headers
  | .ccLibrary => info.libraries
  | .define => info.defines
  | .includePath => info.quoteIncludes.map .quote ++ info.systemIncludes.map .system
  | .library | .sdkFramework | .weakSdkFramework | .sdkDylib | .copt | .moduleMap | .assetCatalog
  | .xcassetsDir | .xcdatamodel | .storyboard | .strings | .xib | .generalResourceFile => []

/-- A direct dependency whose own dependencies have been merged already. -/
inductive Dependency
  | library (label : Label) (providers : ProviderSet)
  | foreign (info : ForeignLibrary)
  deriving DecidableEq

namespace Dependency

def label : Dependency → Label
  | library label _ => label
  | foreign info => info.label

/-- The values that the dependency contributes under a key. -/
def contribution (d : Dependency) (key : ProviderKey) : List key.Value :=
  match d with
  | library _ providers => (providers.get key).toList
  | foreign info => info.contribution key

end Dependency

/-- The values of a target and its dependencies under a key, as they are listed before repeated
ones are dropped. -/
def ProviderSet.listing (own : ProviderSet) (dependencies : List Dependency) (key : ProviderKey) :
    List key.Value :=
  let inherited := dependencies.flatMap (·.contribution key)
  match key.order with
  | .link => (own.get key).toList ++ inherited
  | .build => inherited ++ (own.get key).toList

/-- What a target offers, given its own values and its dependencies in order. -/
def ProviderSet.merge (own : ProviderSet) (dependencies : List Dependency) : ProviderSet :=
  .ofFn fun key => .ofList (own.listing dependencies key)

end ObjcPlan
