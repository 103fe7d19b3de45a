import ObjcPlan.Proofs.Inheritance

/-! Dependencies that make no difference. To merge one more dependency behind others changes nothing
exactly if all of its values are among theirs (`Dependency.coveredBy_iff`). So it is with a
dependency that is repeated, and with one that another dependency has merged already, at once or
through others (`ProviderSet.merge_absorbs`). -/

namespace ObjcPlan

open Identity

/-- Values that came before, in any spelling, make no difference. -/
theorem Identity.fresh_absorb {α : Type} [Identity α] {front middle : List α}
    (old : ∀ a ∈ middle, ∃ b ∈ front, key b = key a) (back : List α) :
    fresh [] (front ++ (middle ++ back)) = fresh [] (front ++ back) := by
  have seen : ∀ a ∈ middle, key a ∈ front.map key ++ [] := fun a mem => by
    obtain ⟨b, mem, same⟩ := old a mem
    exact List.mem_append_left _ (List.mem_map.mpr ⟨b, mem, same⟩)
  rw [fresh_append [] front, fresh_append [] front, fresh_append_of_old seen]

namespace Dependency

variable {d : Dependency} {dependencies : List Dependency}

/-- Whether each value that the dependency contributes is contributed by one of the others under the
same key, in some spelling. -/
def CoveredBy (d : Dependency) (others : List Dependency) : Prop :=
  ∀ key, ∀ value ∈ d.contribution key, ∃ other ∈ others, ∃ value' ∈ other.contribution key,
    Identity.key value' = Identity.key value

/-- Whether the provider set has been merged from the dependency, or from one that has. -/
inductive MergedInto (d : Dependency) : ProviderSet → Prop
  | direct {own : ProviderSet} {dependencies : List Dependency} (mem : d ∈ dependencies) :
      d.MergedInto (own.merge dependencies)
  | through {own providers : ProviderSet} {dependencies : List Dependency} {label : Label}
      (merged : d.MergedInto providers) (mem : .library label providers ∈ dependencies) :
      d.MergedInto (own.merge dependencies)

theorem coveredBy_of_mem (mem : d ∈ dependencies) : d.CoveredBy dependencies :=
  fun _ value isValue => ⟨d, mem, value, isValue, rfl⟩

theorem contains_merge {key : ProviderKey} {value : key.Value} (own : ProviderSet)
    (mem : d ∈ dependencies) (isValue : value ∈ d.contribution key) :
    ((own.merge dependencies).get key).contains value = true := by
  rw [ProviderSet.merge, ProviderSet.get_ofFn, ProviderSet.listing_eq]
  refine OrderedSet.contains_ofList_of_mem (MergeOrder.mem_arrange.mpr (.inr ?_))
  exact List.mem_flatMap.mpr ⟨d, mem, isValue⟩

/-- A provider set holds what the dependencies contribute that were merged into it. -/
theorem MergedInto.contains {providers : ProviderSet} (merged : d.MergedInto providers)
    {key : ProviderKey} {value : key.Value} (isValue : value ∈ d.contribution key) :
    (providers.get key).contains value = true := by
  induction merged with
  | direct mem => exact contains_merge _ mem isValue
  | through merged mem ih =>
    obtain ⟨value', isHeld, same⟩ := OrderedSet.contains_iff.mp ih
    rw [OrderedSet.contains, same]
    exact contains_merge _ mem isHeld

theorem MergedInto.coveredBy {label : Label} {providers : ProviderSet}
    (merged : d.MergedInto providers) (mem : .library label providers ∈ dependencies) :
    d.CoveredBy dependencies := by
  intro key value isValue
  obtain ⟨value', isHeld, same⟩ := OrderedSet.contains_iff.mp (merged.contains isValue)
  exact ⟨_, mem, value', isHeld, same.symm⟩

/-- A covered dependency makes no difference where it stands behind those that cover it. -/
theorem CoveredBy.merge_eq (covered : d.CoveredBy dependencies) (own : ProviderSet)
    (rest : List Dependency) :
    own.merge (dependencies ++ d :: rest) = own.merge (dependencies ++ rest) := by
  refine congrArg ProviderSet.ofFn (funext fun key => OrderedSet.ext ?_)
  have old : ∀ value ∈ d.contribution key, ∃ value' ∈ dependencies.flatMap (·.contribution key),
      Identity.key value' = Identity.key value := fun value isValue => by
    obtain ⟨other, mem, value', isValue', same⟩ := covered key value isValue
    exact ⟨value', List.mem_flatMap.mpr ⟨other, mem, isValue'⟩, same⟩
  rw [OrderedSet.toList_ofList, OrderedSet.toList_ofList, ProviderSet.listing_eq,
    ProviderSet.listing_eq, List.flatMap_append, List.flatMap_append, List.flatMap_cons]
  cases key.order with
  | link =>
    have old' : ∀ value ∈ d.contribution key,
        ∃ value' ∈ (own.get key).toList ++ dependencies.flatMap (·.contribution key),
          Identity.key value' = Identity.key value := fun value isValue => by
      obtain ⟨value', mem, same⟩ := old value isValue
      exact ⟨value', List.mem_append_right _ mem, same⟩
    have absorbed := fresh_absorb old' (rest.flatMap (·.contribution key))
    rwa [List.append_assoc, List.append_assoc] at absorbed
  | build =>
    have absorbed := fresh_absorb old (rest.flatMap (·.contribution key) ++ (own.get key).toList)
    simpa only [MergeOrder.arrange, List.append_assoc] using absorbed

/-- The dependencies that make no difference behind others, whatever the target's own values, are
those that the others cover. -/
theorem coveredBy_iff :
    d.CoveredBy dependencies ↔
      ∀ own : ProviderSet, own.merge (dependencies ++ [d]) = own.merge dependencies := by
  constructor
  · intro covered own
    have same := covered.merge_eq own []
    rwa [List.append_nil] at same
  · intro same key value isValue
    have last : d ∈ dependencies ++ [d] := List.mem_append_right _ (List.mem_singleton_self d)
    have held := contains_merge .empty last isValue
    rw [same, ProviderSet.merge, ProviderSet.get_ofFn, OrderedSet.contains_ofList_iff,
      ProviderSet.listing_eq] at held
    obtain ⟨value', mem, same⟩ := held
    have inherited : value' ∈ dependencies.flatMap (·.contribution key) := by
      refine (MergeOrder.mem_arrange.mp mem).resolve_left ?_
      rw [ProviderSet.empty, ProviderSet.get_ofFn]
      exact List.not_mem_nil
    obtain ⟨other, isOther, isValue'⟩ := List.mem_flatMap.mp inherited
    exact ⟨other, isOther, value', isValue', same⟩

end Dependency

/-- To merge a dependency behind others changes nothing, neither values nor their order and
spelling, exactly if it is covered by them. This is so if it is one of them, and if one of them has
been merged from it. -/
theorem ProviderSet.merge_absorbs (dependencies : List Dependency) (d : Dependency) :
    ((∀ key, ∀ value ∈ d.contribution key, ∃ other ∈ dependencies,
        ∃ value' ∈ other.contribution key, Identity.key value' = Identity.key value) ↔
      ∀ own : ProviderSet, own.merge (dependencies ++ [d]) = own.merge dependencies) ∧
    (d ∈ dependencies →
      ∀ own : ProviderSet, own.merge (dependencies ++ [d]) = own.merge dependencies) ∧
    ∀ label providers, .library label providers ∈ dependencies → d.MergedInto providers →
      ∀ own : ProviderSet, own.merge (dependencies ++ [d]) = own.merge dependencies :=
  ⟨Dependency.coveredBy_iff,
    fun mem => Dependency.coveredBy_iff.mp (Dependency.coveredBy_of_mem mem),
    fun _ _ mem merged => Dependency.coveredBy_iff.mp (merged.coveredBy mem)⟩

namespace Absorbed

open Dependency

def own : ProviderSet :=
  { ProviderSet.empty with
    header := .ofList ["app/app.h", "zlib/zlib.h"]
    define := .ofList ["APP"] }

/-- Merged from a foreign library. -/
def base : ProviderSet :=
  { ProviderSet.empty with header := .ofList ["base/base.h"] }.merge [.foreign Shared.zlib]

/-- Merged from a library that has merged the foreign one. -/
def middle : ProviderSet :=
  ProviderSet.empty.merge [.library Shared.core.label base]

/-- A foreign library with the same header in another spelling. -/
def respelled : ForeignLibrary where
  label := ⟨"vendored", "zlib_copy", by decide, by decide⟩
  headers := ["zlib//zlib.h"]

theorem zlib_mergedInto_middle : (foreign Shared.zlib).MergedInto middle :=
  .through (.direct List.mem_cons_self) List.mem_cons_self

end Absorbed

open Absorbed in
/-- Another spelling of a header, a dependency that is repeated, and one that was merged before,
through another. -/
theorem ProviderSet.merge_absorbs_again :
    let offered := Dependency.library Shared.ui.label middle
    own.merge [offered, .foreign respelled] = own.merge [offered] ∧
      own.merge [offered, offered] = own.merge [offered] ∧
      own.merge [offered, .foreign Shared.zlib] = own.merge [offered] := by
  intro offered
  obtain ⟨covered, _⟩ := merge_absorbs [offered] (.foreign respelled)
  obtain ⟨_, repeated, _⟩ := merge_absorbs [offered] offered
  obtain ⟨_, _, merged⟩ := merge_absorbs [offered] (.foreign Shared.zlib)
  refine ⟨covered.mp ?_ own, repeated List.mem_cons_self own,
    merged _ _ List.mem_cons_self zlib_mergedInto_middle own⟩
  intro key value isValue
  cases key with
  | header =>
    obtain rfl := List.mem_singleton.mp (show value ∈ [⟨"zlib//zlib.h"⟩] from isValue)
    exact ⟨offered, List.mem_cons_self, "zlib/zlib.h", by decide, rfl⟩
  | _ => cases isValue

end ObjcPlan
