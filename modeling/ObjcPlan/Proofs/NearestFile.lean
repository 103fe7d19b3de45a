import Mathlib.Data.List.Nodup
import Mathlib.Logic.Relation
import ObjcPlan.Options.Loader
import ObjcPlan.Proofs.Ancestors

/-! The search for the options file. Each step up from a path drops its last component, until only
the root or nothing is left (`Path.parent?_eq_none_iff`), so no directory on the way is passed over
(`Path.exists_mem_upward_iff`). The file that is found lies in the longest of these directories that
has one (`Options.findFile?_nearest`). -/

namespace ObjcPlan

namespace Path

variable {p d e above : Path} {cs : List Component}

/-- Whether going up from the first path, in any number of steps, leads to the second. -/
def ClimbsTo : Path → Path → Prop :=
  Relation.ReflTransGen fun p above => p.parent? = some above

/-- The path itself and the directories above it, in the order in which going up passes them. -/
def upward (p : Path) : List Path :=
  p :: p.ancestors

/-! ### Steps up -/

theorem base_of_mem (root : .root ∈ p.components) : p.base = [.root] :=
  if_pos (isRooted_iff_root_mem.mpr root)

theorem base_of_notMem (root : .root ∉ p.components) : p.base = [] :=
  if_neg fun rooted => root (isRooted_iff_root_mem.mp rooted)

theorem base_prefix (p : Path) : p.base <+: p.components := by
  by_cases root : .root ∈ p.components
  · have named : p.text ≠ "" := by
      intro empty
      simp [components_of_empty empty] at root
    have start := (head_segments named).mpr (isRooted_iff_root_mem.mpr root)
    obtain ⟨rest, pieces⟩ := List.head?_eq_some_iff.mp start
    rw [base_of_mem root, components_eq named, pieces]
    exact List.prefix_append _ _
  · rw [base_of_notMem root]
    exact List.nil_prefix

/-- Going up ends at the root or at the empty path. -/
theorem parent?_eq_none_iff : p.parent? = none ↔ p.components = p.base := by
  unfold parent?
  split
  · next first rest pieces =>
    have whole := components_of_rooted pieces
    rw [Option.map_eq_none_iff, dropLastSegment?_eq_none_iff, base_of_mem (by simp [whole]), whole,
      List.cons_eq_cons]
    simp
  · next rest pieces =>
    have whole := components_of_current pieces
    have notBase : p.components ≠ p.base := by
      rw [whole, base]
      split <;> simp
    split <;> simp [notBase]
  · next rooted current =>
    have whole : p.components = p.steps := by
      unfold components steps
      split
      · next first rest pieces => exact absurd pieces (rooted first rest)
      · next rest pieces => exact absurd pieces (current rest)
      · rfl
    have notRoot : .root ∉ p.components := fun mem =>
      absurd (isStep_of_mem_steps _ (whole ▸ mem)).1 (by decide)
    rw [Option.map_eq_none_iff, dropLastSegment?_eq_none_iff, base_of_notMem notRoot, whole]
    rfl

theorem exists_components_concat (found : p.parent? = some above) :
    ∃ last, p.components = above.components ++ [last] := by
  have nonempty : p.components ≠ [] := by
    intro none
    have top : p.components = p.base := by
      rw [none, base_of_notMem (by simp [none])]
    simp [parent?_eq_none_iff.mpr top] at found
  exact ⟨_, components_parent? found ▸ (List.dropLast_append_getLast nonempty).symm⟩

theorem base_parent? (found : p.parent? = some above) : above.base = p.base := by
  obtain ⟨last, whole⟩ := exists_components_concat found
  by_cases root : .root ∈ above.components
  · rw [base_of_mem root, base_of_mem (whole ▸ List.mem_append_left _ root)]
  · rw [base_of_notMem root, base_of_notMem]
    intro root'
    have start := p.base_prefix
    rw [base_of_mem root', whole] at start
    cases components : above.components with
    | nil =>
      -- the root would be all that there is, and nothing is above it
      rw [components, List.nil_append] at start
      obtain rfl := (List.cons_prefix_cons.mp start).1
      have top : p.components = p.base := by
        rw [base_of_mem root', whole, components]
        rfl
      simp [parent?_eq_none_iff.mpr top] at found
    | cons first rest =>
      rw [components] at start
      obtain rfl := (List.cons_prefix_cons.mp start).1
      exact root (components ▸ List.mem_cons_self)

/-! ### All steps up -/

theorem upward_of_some (found : p.parent? = some above) : p.upward = p :: above.upward := by
  rw [upward, ancestors_of_some found, upward]

theorem upward_of_none (top : p.parent? = none) : p.upward = [p] := by
  rw [upward, ancestors_of_none top]

/-- The directories on the way up have, by their components, all starts of the path from the root
on. -/
theorem exists_mem_upward_iff (p : Path) (cs : List Component) :
    (∃ d ∈ p.upward, d.components = cs) ↔ p.base <+: cs ∧ cs <+: p.components := by
  induction p using ancestors.induct with
  | case1 p above found ih =>
    obtain ⟨last, whole⟩ := exists_components_concat found
    have start := p.base_prefix
    rw [upward_of_some found, List.exists_mem_cons_iff, ih, base_parent? found]
    rw [whole] at start ⊢
    rw [List.prefix_concat_iff]
    constructor
    · rintro (rfl | ⟨start', higher⟩)
      · exact ⟨start, .inl rfl⟩
      · exact ⟨start', .inr higher⟩
    · rintro ⟨start', rfl | higher⟩
      · exact .inl rfl
      · exact .inr ⟨start', higher⟩
  | case2 p top =>
    rw [upward_of_none top]
    simp only [List.mem_singleton, exists_eq_left, parent?_eq_none_iff.mp top]
    constructor
    · rintro rfl
      exact ⟨List.prefix_rfl, List.prefix_rfl⟩
    · rintro ⟨start, back⟩
      exact start.eq_of_length_le back.length_le

theorem mem_upward_iff : d ∈ p.upward ↔ p.ClimbsTo d := by
  induction p using ancestors.induct with
  | case1 p above found ih =>
    rw [upward_of_some found, List.mem_cons, ih]
    constructor
    · rintro (rfl | later)
      · exact .refl
      · exact .head found later
    · intro climbs
      rcases Relation.ReflTransGen.cases_head climbs with rfl | ⟨next, found', later⟩
      · exact .inl rfl
      · obtain rfl := Option.some.inj (found.symm.trans found')
        exact .inr later
  | case2 p top =>
    rw [upward_of_none top, List.mem_singleton]
    constructor
    · rintro rfl
      exact .refl
    · intro climbs
      rcases Relation.ReflTransGen.cases_head climbs with rfl | ⟨next, found, _⟩
      · rfl
      · simp [top] at found

theorem pairwise_upward (p : Path) : p.upward.Pairwise fun a b =>
    b.components <+: a.components ∧ b.components.length < a.components.length := by
  induction p using ancestors.induct with
  | case1 p above found ih =>
    obtain ⟨last, whole⟩ := exists_components_concat found
    rw [upward_of_some found]
    refine List.pairwise_cons.mpr ⟨fun d mem => ?_, ih⟩
    have start := ((exists_mem_upward_iff above d.components).mp ⟨d, mem, rfl⟩).2
    rw [whole, List.length_append]
    exact ⟨start.trans (List.prefix_append _ _), Nat.lt_succ_of_le start.length_le⟩
  | case2 p top =>
    rw [upward_of_none top]
    exact List.pairwise_singleton _ _

theorem eq_of_mem_upward (mem : d ∈ p.upward) (mem' : e ∈ p.upward)
    (same : d.components = e.components) : d = e := by
  have distinct : (p.upward.map components).Nodup :=
    List.pairwise_map.mpr (p.pairwise_upward.imp fun shorter same => by simp [same] at shorter)
  exact List.inj_on_of_nodup_map distinct mem mem' same

end Path

namespace Options

open ObjcPlan.Path

variable {present : Path → Bool} {start above file : Path}

/-- The search as a loop that ends early, with nothing, once it has taken so many turns. -/
def findFileWithin? (present : Path → Bool) : Nat → Path → Option (Option Path)
  | 0, _ => none
  | turns + 1, current =>
    if present (current / fileName) then some (some (current / fileName))
    else
      match current.parent? with
      | some above => findFileWithin? present turns above
      | none => some none

/-! ### Turns of the search -/

theorem findFile?_of_present (here : present (start / fileName) = true) :
    findFile? present start = some (start / fileName) := by
  rw [findFile?]
  exact if_pos here

theorem findFile?_of_some (absent : present (start / fileName) = false)
    (found : start.parent? = some above) : findFile? present start = findFile? present above := by
  rw [findFile?]
  simp only [absent, Bool.false_eq_true, if_false]
  split
  · next above' found' =>
    obtain rfl := Option.some.inj (found.symm.trans found')
    rfl
  · next top => simp [found] at top

theorem findFile?_of_none (absent : present (start / fileName) = false)
    (top : start.parent? = none) : findFile? present start = none := by
  rw [findFile?]
  simp only [absent, Bool.false_eq_true, if_false]
  split
  · next above found => simp [top] at found
  · rfl

theorem findFile?_eq_find? (present : Path → Bool) (start : Path) :
    findFile? present start =
      (start.upward.find? fun d => present (d / fileName)).map fun d : Path => d / fileName := by
  induction start using ancestors.induct with
  | case1 start above found ih =>
    rw [upward_of_some found, List.find?_cons]
    cases here : present (start / fileName) with
    | true => exact findFile?_of_present here
    | false => rw [findFile?_of_some here found, ih]
  | case2 start top =>
    rw [upward_of_none top, List.find?_cons]
    cases here : present (start / fileName) with
    | true => exact findFile?_of_present here
    | false => exact findFile?_of_none here top

/-- The search takes at most one turn for each component of the path and one more. -/
theorem findFileWithin?_eq {turns : Nat} (enough : start.components.length < turns) :
    findFileWithin? present turns start = some (findFile? present start) := by
  induction turns generalizing start with
  | zero => contradiction
  | succ turns ih =>
    rw [findFileWithin?]
    cases here : present (start / fileName) with
    | true => rw [if_pos rfl, findFile?_of_present here]
    | false =>
      rw [if_neg Bool.false_ne_true]
      cases found : start.parent? with
      | none => rw [findFile?_of_none here found]
      | some above =>
        obtain ⟨last, whole⟩ := exists_components_concat found
        rw [whole, List.length_append] at enough
        rw [findFile?_of_some here found]
        exact ih (Nat.lt_of_succ_lt_succ enough)

/-- Whether the directory is on the way up from `start`, has the file, and is the longest one of
which this holds. -/
structure IsNearest (present : Path → Bool) (start d : Path) : Prop where
  climbs : start.ClimbsTo d
  has : present (d / fileName) = true
  longest : ∀ e, start.ClimbsTo e → present (e / fileName) = true → e.components <+: d.components

theorem isNearest_of_find? {d : Path}
    (found : (start.upward.find? fun d => present (d / fileName)) = some d) :
    IsNearest present start d := by
  have sorted : start.upward.Pairwise fun a b => b.components <+: a.components :=
    start.pairwise_upward.imp fun h => h.1
  obtain ⟨has, _⟩ := List.find?_eq_some_iff_append.mp found
  refine ⟨mem_upward_iff.mp (List.mem_of_find?_eq_some found), has, fun e climbs => ?_⟩
  exact prefix_of_find? sorted found e (mem_upward_iff.mpr climbs)

theorem IsNearest.eq {d e : Path} (nearest : IsNearest present start d)
    (nearest' : IsNearest present start e) : d = e := by
  have shorter := nearest'.longest d nearest.climbs nearest.has
  have shorter' := nearest.longest e nearest'.climbs nearest'.has
  exact eq_of_mem_upward (mem_upward_iff.mpr nearest.climbs) (mem_upward_iff.mpr nearest'.climbs)
    (shorter.eq_of_length_le shorter'.length_le)

theorem find?_eq_some_iff_isNearest {d : Path} :
    (start.upward.find? fun d => present (d / fileName)) = some d ↔ IsNearest present start d := by
  refine ⟨isNearest_of_find?, fun nearest => ?_⟩
  cases found : start.upward.find? fun d => present (d / fileName) with
  | none =>
    have without := List.find?_eq_none.mp found d (mem_upward_iff.mpr nearest.climbs)
    exact absurd nearest.has without
  | some e => rw [(isNearest_of_find? found).eq nearest]

/-- The search goes up from a path, and the directories that it passes are told by their components:
they are all starts of the path, from the path itself down to its root, or to nothing if it has none.
It returns the file of the longest of them that has one, and nothing exactly if none of them has
one. It ends after a turn for each component and one more, at the latest. -/
theorem findFile?_nearest (present : Path → Bool) (start : Path) :
    (∀ cs, (∃ d, start.ClimbsTo d ∧ d.components = cs) ↔
      start.base <+: cs ∧ cs <+: start.components) ∧
    (∀ file, findFile? present start = some file ↔
      ∃ d, IsNearest present start d ∧ file = d / fileName) ∧
    (findFile? present start = none ↔
      ∀ d, start.ClimbsTo d → present (d / fileName) = false) ∧
    findFileWithin? present (start.components.length + 1) start =
      some (findFile? present start) := by
  refine ⟨fun cs => ?_, fun file => ?_, ?_, findFileWithin?_eq (Nat.lt_succ_self _)⟩
  · simp only [← mem_upward_iff]
    exact start.exists_mem_upward_iff cs
  · rw [findFile?_eq_find?, Option.map_eq_some_iff]
    simp only [find?_eq_some_iff_isNearest, eq_comm (b := file)]
  · rw [findFile?_eq_find?, Option.map_eq_none_iff, List.find?_eq_none]
    simp only [mem_upward_iff, Bool.not_eq_true]

end Options

end ObjcPlan
