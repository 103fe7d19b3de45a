import ObjcPlan.Proofs.Descent
import Mathlib.Data.List.Induction

/-! Going up from paths. The directory that holds a path has its components but the last
(`Path.components_parent?`). Resolving a path keeps the root, then one `..` for each that cancels
nothing, then names; the result is read back from its text (`Path.components_lexical`). As many `..`
as a path has names lead back to where it starts, but for the `..` that it has itself
(`Path.foldl_back`). -/

namespace ObjcPlan

namespace Path

open Component (ofSegment?)

variable {p q : Path} {segments kept : List String}

/-! ### Parents -/

theorem filterMap_dropWhile_isIdle (l : List String) :
    (l.dropWhile isIdle).filterMap ofSegment? = l.filterMap ofSegment? := by
  induction l with
  | nil => rfl
  | cons s rest ih =>
    rw [List.dropWhile_cons]
    split
    · next idle =>
      rw [isIdle, Option.isNone_iff_eq_none] at idle
      rw [ih, List.filterMap_cons_none idle]
    · rfl

theorem filterMap_backwards (segments : List String) :
    (backwards segments).filterMap ofSegment? = (segments.filterMap ofSegment?).reverse := by
  rw [backwards, filterMap_dropWhile_isIdle, List.filterMap_reverse]

/-- The first segment that is not idle is a component. -/
theorem ofSegment?_of_backwards {last : String} {before : List String}
    (found : backwards segments = last :: before) : ∃ component, ofSegment? last = some component := by
  have busy := List.head?_dropWhile_not isIdle segments.reverse
  rw [show segments.reverse.dropWhile isIdle = last :: before from found] at busy
  simpa [isIdle, Option.isSome_iff_exists] using busy

theorem dropLastSegment?_eq_none_iff :
    dropLastSegment? segments = none ↔ segments.filterMap ofSegment? = [] := by
  rw [← List.reverse_eq_nil_iff, ← filterMap_backwards, dropLastSegment?]
  split
  · next none => simp [none]
  · next last before found =>
    obtain ⟨component, isComponent⟩ := ofSegment?_of_backwards found
    simp [found, isComponent]

theorem filterMap_dropLastSegment? (h : dropLastSegment? segments = some kept) :
    kept.filterMap ofSegment? = (segments.filterMap ofSegment?).dropLast := by
  have whole := filterMap_backwards segments
  unfold dropLastSegment? at h
  split at h
  · contradiction
  · next last before found =>
    obtain ⟨component, isComponent⟩ := ofSegment?_of_backwards found
    rw [found, List.filterMap_cons_some isComponent] at whole
    rw [← Option.some.inj h, List.filterMap_reverse, filterMap_dropWhile_isIdle,
      ← List.reverse_reverse (segments.filterMap ofSegment?), ← whole]
    simp

theorem prefix_dropLastSegment? (h : dropLastSegment? segments = some kept) :
    kept <+: segments := by
  unfold dropLastSegment? at h
  split at h
  · contradiction
  · next last before found =>
    rw [← Option.some.inj h, ← List.reverse_suffix, List.reverse_reverse]
    have shorter : before.dropWhile isIdle <:+ last :: before :=
      (List.dropWhile_suffix _).trans (List.suffix_cons _ _)
    exact shorter.trans (found ▸ List.dropWhile_suffix _)

theorem segments_intercalate (flat : ∀ s ∈ segments, '/' ∉ s.toList) (nonempty : segments ≠ []) :
    Path.segments ⟨"/".intercalate segments⟩ = segments := by
  have cut : List.splitOn '/' (['/'].intercalate (segments.map String.toList)) =
      segments.map String.toList :=
    List.splitOn_intercalate '/' (by simpa using flat) (by simpa using nonempty)
  rw [Path.segments, Text.split, String.toList_intercalate]
  show (List.splitOn '/' (['/'].intercalate (segments.map String.toList))).map String.ofList = _
  rw [cut]
  simp

theorem segments_slash_append (text : String) :
    Path.segments ⟨"/" ++ text⟩ = "" :: Path.segments ⟨text⟩ := by
  have cut := Text.split_append '/' "" text
  rw [Text.split_eq_singleton (s := "") (by decide), String.empty_append] at cut
  exact cut

theorem components_slash_append (text : String) :
    components ⟨"/" ++ text⟩ = .root :: steps ⟨text⟩ := by
  unfold components steps
  rw [segments_slash_append]
  cases pieces : Path.segments ⟨text⟩ with
  | nil => exact absurd pieces (segments_ne_nil _)
  | cons first rest => rfl

theorem steps_intercalate (flat : ∀ s ∈ segments, '/' ∉ s.toList) :
    steps ⟨"/".intercalate segments⟩ = segments.filterMap ofSegment? := by
  by_cases nonempty : segments = []
  · rw [nonempty]
    rfl
  · rw [steps, segments_intercalate flat nonempty]

theorem flat_of_mem_segments : ∀ s ∈ p.segments, '/' ∉ s.toList :=
  fun _ mem => Text.notMem_of_mem_split mem

theorem components_of_rooted {first : String} {rest : List String}
    (pieces : p.segments = "" :: first :: rest) :
    p.components = .root :: (first :: rest).filterMap ofSegment? := by
  rw [components, pieces]
  rfl

theorem components_of_current {rest : List String} (pieces : p.segments = "." :: rest) :
    p.components = .current :: rest.filterMap ofSegment? := by
  rw [components, pieces]
  rfl

theorem components_of_plain {first : String} {rest : List String}
    (pieces : p.segments = first :: rest) (first_ne : first ≠ "") (first_ne' : first ≠ ".") :
    p.components = (first :: rest).filterMap ofSegment? := by
  have named : p.text ≠ "" := by
    intro empty
    rw [segments, empty] at pieces
    exact first_ne (List.cons.inj pieces).1.symm
  rw [components_eq named, steps, pieces, lead, if_neg first_ne, if_neg first_ne']
  rfl

/-- The directory that holds a path has its components but the last. -/
theorem components_parent? {above : Path} (h : p.parent? = some above) :
    above.components = p.components.dropLast := by
  have flat := p.flat_of_mem_segments
  unfold parent? at h
  split at h
  · next first rest pieces =>
    obtain ⟨kept, dropped, rfl⟩ := Option.map_eq_some_iff.mp h
    have within : ∀ s ∈ kept, '/' ∉ s.toList := fun s mem =>
      flat s (pieces ▸ List.mem_cons_of_mem _ ((prefix_dropLastSegment? dropped).subset mem))
    have busy : (first :: rest).filterMap ofSegment? ≠ [] := fun none => by
      simp [dropLastSegment?_eq_none_iff.mpr none] at dropped
    rw [components_slash_append, steps_intercalate within, filterMap_dropLastSegment? dropped,
      components_of_rooted pieces, List.dropLast_cons_of_ne_nil busy]
  · next rest pieces =>
    split at h
    · next kept dropped =>
      obtain rfl := Option.some.inj h
      have within : ∀ s ∈ "." :: kept, '/' ∉ s.toList := List.forall_mem_cons.mpr ⟨by decide,
        fun s mem => flat s
          (pieces ▸ List.mem_cons_of_mem _ ((prefix_dropLastSegment? dropped).subset mem))⟩
      have busy : rest.filterMap ofSegment? ≠ [] := fun none => by
        simp [dropLastSegment?_eq_none_iff.mpr none] at dropped
      rw [components_of_current (segments_intercalate within (by simp)),
        filterMap_dropLastSegment? dropped, components_of_current pieces,
        List.dropLast_cons_of_ne_nil busy]
    · next none =>
      obtain rfl := Option.some.inj h
      rw [components_of_current pieces, dropLastSegment?_eq_none_iff.mp none]
      rfl
  · next rooted current =>
    obtain ⟨kept, dropped, rfl⟩ := Option.map_eq_some_iff.mp h
    have start := prefix_dropLastSegment? dropped
    have within : ∀ s ∈ kept, '/' ∉ s.toList := fun s mem => flat s (start.subset mem)
    obtain ⟨first, rest, pieces⟩ := List.exists_cons_of_ne_nil p.segments_ne_nil
    have first_ne : first ≠ "" := by
      rintro rfl
      cases rest with
      | nil =>
        rw [pieces] at dropped
        simp [dropLastSegment?, backwards, isIdle, ofSegment?] at dropped
      | cons second rest => exact rooted second rest pieces
    have first_ne' : first ≠ "." := by
      rintro rfl
      exact current rest pieces
    rw [components_of_plain pieces first_ne first_ne', ← pieces,
      ← filterMap_dropLastSegment? dropped]
    cases kept with
    | nil => rfl
    | cons kept others =>
      have pieces' := segments_intercalate within (by simp)
      obtain rfl : kept = first := by
        rw [pieces] at start
        exact (List.cons_prefix_cons.mp start).1
      exact components_of_plain pieces' first_ne first_ne'

/-- A path that ends in a name is in a directory. -/
theorem exists_parent? {name : String} (last : p.components.getLast? = some (.name name)) :
    ∃ above, p.parent? = some above := by
  unfold parent?
  split
  · next first rest pieces =>
    rw [components_of_rooted pieces] at last
    cases dropped : dropLastSegment? (first :: rest) with
    | some kept => exact ⟨_, rfl⟩
    | none =>
      rw [dropLastSegment?_eq_none_iff.mp dropped] at last
      simp at last
  · split <;> exact ⟨_, rfl⟩
  · next rooted current =>
    cases dropped : dropLastSegment? p.segments with
    | some kept => exact ⟨_, rfl⟩
    | none =>
      rw [components] at last
      simp [dropLastSegment?_eq_none_iff.mp dropped] at last

/-- A file in a directory has the components of the directory above it. -/
theorem exists_parent?_join {name : String} (named : p.text ≠ "") (flat : '/' ∉ name.toList)
    (isName : ofSegment? name = some (.name name)) :
    ∃ above, (p / name).parent? = some above ∧ above.components = p.components := by
  have whole : (p / name).components = p.components ++ [.name name] := by
    rw [← steps_of_segment flat isName]
    exact components_join named (isRooted_eq_false flat)
  have last : (p / name).components.getLast? = some (.name name) := by simp [whole]
  obtain ⟨above, isAbove⟩ := exists_parent? last
  refine ⟨above, isAbove, ?_⟩
  rw [components_parent? isAbove, whole, List.dropLast_concat]

/-! ### Resolution -/

/-- Whether the component stands for one segment of a path: it is `..` or a name. -/
def Component.IsStep (c : Component) : Prop :=
  '/' ∉ c.text.toList ∧ ofSegment? c.text = some c

theorem Component.isStep_parent : IsStep .parent :=
  ⟨by decide, rfl⟩

theorem isStep_of_mem_steps : ∀ c ∈ p.steps, c.IsStep := by
  intro c mem
  obtain ⟨segment, isSegment, same⟩ := List.mem_filterMap.mp mem
  have text := Component.text_of_segment same
  rw [Component.IsStep, text]
  exact ⟨flat_of_mem_segments segment isSegment, same⟩

theorem Component.IsStep.cases {c : Component} (step : c.IsStep) :
    c = .parent ∨ ∃ name, c = .name name := by
  cases c with
  | root => exact absurd step.1 (by decide)
  | current => exact absurd step.2 (by decide)
  | parent => exact .inl rfl
  | name text => exact .inr ⟨text, rfl⟩

/-- Whether nothing of these components can be cancelled by a `..` after them. -/
def Grounded (kept : List Component) : Prop :=
  ∀ name, kept.head? ≠ some (.name name)

theorem resolveStep_append {base : List Component} (grounded : Grounded base)
    (kept : List Component) (c : Component) :
    resolveStep (kept ++ base) c = resolveStep kept c ++ base := by
  cases c with
  | parent =>
    cases kept with
    | cons top rest => cases top <;> rfl
    | nil =>
      cases base with
      | nil => rfl
      | cons top rest =>
        cases top with
        | name text => exact absurd rfl (grounded text)
        | _ => rfl
  | _ => rfl

/-- What is resolved behind grounded components is resolved on its own. -/
theorem foldl_resolveStep_append {base : List Component} (grounded : Grounded base)
    (kept components : List Component) :
    components.foldl resolveStep (kept ++ base) = components.foldl resolveStep kept ++ base := by
  induction components generalizing kept with
  | nil => rfl
  | cons c rest ih => rw [List.foldl_cons, resolveStep_append grounded, ih, List.foldl_cons]

theorem foldl_of_grounded {base : List Component} (grounded : Grounded base)
    (components : List Component) :
    components.foldl resolveStep base = components.foldl resolveStep [] ++ base := by
  rw [← foldl_resolveStep_append grounded, List.nil_append]

theorem mem_foldl_resolveStep {kept components : List Component} :
    ∀ c ∈ components.foldl resolveStep kept, c ∈ kept ∨ c ∈ components ∨ c = .parent := by
  induction components generalizing kept with
  | nil => exact fun c mem => .inl mem
  | cons d rest ih =>
    intro c mem
    rcases ih c mem with before | later | up
    · have among : c ∈ kept ∨ c = d ∨ c = .parent := by
        unfold resolveStep at before
        split at before
        · exact .inl before
        · split at before
          · exact .inl (List.mem_cons_of_mem _ before)
          · exact (List.mem_cons.mp before).elim (fun up => .inr (.inr up)) .inl
        · exact (List.mem_cons.mp before).elim (fun new => .inr (.inl new)) .inl
      rcases among with old | rfl | up
      · exact .inl old
      · exact .inr (.inl List.mem_cons_self)
      · exact .inr (.inr up)
    · exact .inr (.inl (List.mem_cons_of_mem _ later))
    · exact .inr (.inr up)

/-- What resolution starts from: the root of a rooted path. -/
def base (p : Path) : List Component :=
  if p.isRooted then [.root] else []

theorem grounded_base (p : Path) : Grounded p.base := by
  intro name
  unfold base
  split <;> simp

/-- This many `..`. -/
def ups (count : Nat) : List Component :=
  List.replicate count .parent

theorem ups_succ' (count : Nat) : ups (count + 1) = ups count ++ [.parent] :=
  List.replicate_succ'

theorem grounded_ups_append {kept : List Component} (grounded : Grounded kept) (count : Nat) :
    Grounded (ups count ++ kept) := by
  cases count with
  | zero => exact grounded
  | succ count => exact fun name same => by cases same

/-- Only a rooted path starts with an empty segment. -/
theorem head_segments (named : p.text ≠ "") : p.segments.head? = some "" ↔ p.isRooted = true := by
  obtain ⟨text⟩ := p
  obtain ⟨c, rest, chars⟩ := List.exists_cons_of_ne_nil (l := text.toList) (by simpa using named)
  by_cases slash : c = '/'
  · obtain rfl : text = "/" ++ String.ofList rest := by
      apply String.toList_inj.mp
      simp [chars, slash]
    simp [segments_slash_append, isRooted]
  · have flat : '/' ∉ [c] := by simpa using Ne.symm slash
    obtain ⟨first, others, _, pieces⟩ := Text.exists_splitOn_flat_append rest flat
    rw [segments, Text.split, chars, ← List.singleton_append, pieces, isRooted, chars]
    simp [slash]

theorem isRooted_iff_root_mem : p.isRooted = true ↔ .root ∈ p.components := by
  by_cases named : p.text = ""
  · rw [components_of_empty named, isRooted, named]
    simp
  · have notStep : .root ∉ p.steps := fun mem => absurd (isStep_of_mem_steps _ mem).1 (by decide)
    rw [components_eq named, List.mem_append, ← head_segments named]
    cases p.segments with
    | nil => simp [lead, notStep]
    | cons first rest =>
      by_cases rooted : first = ""
      · simp [lead, rooted]
      · by_cases current : first = "." <;> simp [lead, rooted, current, notStep]

theorem foldl_lead (named : p.text ≠ "") : (lead p.segments).foldl resolveStep [] = p.base := by
  have start := head_segments named
  unfold base
  cases pieces : p.segments with
  | nil => exact absurd pieces p.segments_ne_nil
  | cons first rest =>
    rw [pieces, List.head?_cons, Option.some_inj] at start
    simp only [lead, start]
    split
    · rfl
    · split <;> rfl

theorem foldl_components (p : Path) :
    p.components.foldl resolveStep [] = p.steps.foldl resolveStep [] ++ p.base := by
  by_cases named : p.text = ""
  · obtain ⟨text⟩ := p
    obtain rfl := named
    rfl
  · rw [components_eq named, List.foldl_append, foldl_lead named, foldl_of_grounded p.grounded_base]

/-- The components of the path once `.` is dropped and `x/..` is cancelled. -/
def resolved (p : Path) : List Component :=
  (p.components.foldl resolveStep []).reverse

theorem resolved_eq (p : Path) :
    p.resolved = p.base ++ (p.steps.foldl resolveStep []).reverse := by
  have whole : p.base.reverse = p.base := by
    unfold base
    split <;> rfl
  rw [resolved, foldl_components, List.reverse_append, whole]

theorem components_of_isStep {c : Component} (step : c.IsStep) :
    components ⟨c.text⟩ = [c] := by
  have pieces : segments ⟨c.text⟩ = [c.text] := Text.split_eq_singleton step.1
  rw [components_of_plain pieces, ← pieces]
  · exact steps_of_segment step.1 step.2
  · intro empty
    simp [Component.IsStep, empty, ofSegment?] at step
  · intro current
    simp [Component.IsStep, current, ofSegment?] at step

theorem components_foldl_join {steps : List Component} (named : p.text ≠ "")
    (areSteps : ∀ c ∈ steps, c.IsStep) :
    (steps.foldl (fun (p : Path) c => p / c.text) p).components = p.components ++ steps := by
  induction steps generalizing p with
  | nil => exact (List.append_nil _).symm
  | cons c rest ih =>
    have ⟨first, others⟩ := List.forall_mem_cons.mp areSteps
    calc (rest.foldl (fun (p : Path) c => p / c.text) (p / c.text)).components
        = (p / (⟨c.text⟩ : Path)).components ++ rest := ih (join_text_ne named) others
      _ = p.components ++ [c] ++ rest := by
        rw [components_join named (isRooted_eq_false first.1), steps_of_segment first.1 first.2]
      _ = p.components ++ c :: rest := List.append_assoc _ _ _

/-- Components that each stand for a segment are read back from the text that they come to. -/
theorem components_ofComponents {steps : List Component} (areSteps : ∀ c ∈ steps, c.IsStep) :
    (ofComponents steps).components = steps := by
  cases steps with
  | nil => rfl
  | cons c rest =>
    have ⟨first, others⟩ := List.forall_mem_cons.mp areSteps
    have named : c.text ≠ "" := by
      intro empty
      simp [Component.IsStep, empty, ofSegment?] at first
    have start : (⟨""⟩ : Path) / c.text = ⟨c.text⟩ := empty_join rfl
    show (rest.foldl (fun (p : Path) c => p / c.text) (⟨""⟩ / c.text)).components = _
    rw [start]
    calc (rest.foldl (fun (p : Path) c => p / c.text) ⟨c.text⟩).components
        = components ⟨c.text⟩ ++ rest := components_foldl_join named others
      _ = [c] ++ rest := by rw [components_of_isStep first]

/-- A resolved path is read back from its text. -/
theorem components_lexical (p : Path) : p.lexical.components = p.resolved := by
  have areSteps : ∀ c ∈ (p.steps.foldl resolveStep []).reverse, c.IsStep := by
    intro c mem
    rcases mem_foldl_resolveStep c (List.mem_reverse.mp mem) with none | isStep | rfl
    · cases none
    · exact isStep_of_mem_steps c isStep
    · exact Component.isStep_parent
  show (ofComponents p.resolved).components = p.resolved
  rw [resolved_eq]
  unfold base
  split
  · exact components_foldl_join (p := ⟨"/"⟩) (by decide) areSteps
  · exact components_ofComponents areSteps

theorem lexical_eq_iff : p.lexical = q.lexical ↔ p.resolved = q.resolved := by
  constructor
  · intro same
    rw [← components_lexical, same, components_lexical]
  · exact congrArg ofComponents

/-! ### There and back -/

/-- As many `..` as the steps have names lead back, but for each `..` of the steps. -/
theorem foldl_steps_back {steps : List Component} (areSteps : ∀ c ∈ steps, c.IsStep) :
    (steps ++ ups (steps.filterMap Component.name?).length).foldl resolveStep [] =
      ups (steps.count .parent) := by
  -- the last step is next to the `..`, so it is cancelled at once or is one of them
  induction steps using List.reverseRecOn with
  | nil => rfl
  | append_singleton front c ih =>
    have ⟨before, last⟩ := List.forall_mem_append.mp areSteps
    replace ih := ih before
    rcases (last c List.mem_cons_self).cases with rfl | ⟨name, rfl⟩
    · have names : (front ++ [Component.parent]).filterMap Component.name? =
          front.filterMap Component.name? := by
        simp [Component.name?]
      have alike (count : Nat) :
          front ++ [.parent] ++ ups count = front ++ ups count ++ [.parent] := by
        rw [List.append_assoc, List.append_assoc, ← ups_succ']
        rfl
      rw [names, alike, List.foldl_append, ih, List.count_append]
      show resolveStep (ups (front.count .parent)) .parent = ups (front.count .parent + 1)
      cases front.count .parent <;> rfl
    · have names : ((front ++ [Component.name name]).filterMap Component.name?).length =
          (front.filterMap Component.name?).length + 1 := by
        simp [Component.name?]
      rw [names, List.append_assoc, List.foldl_append, List.count_append]
      show List.foldl resolveStep (front.foldl resolveStep []) (ups _) = _
      rw [← List.foldl_append, ih]
      rfl

theorem mem_components_join_of_mem_steps {c : Component} (isStep : c ∈ q.steps) :
    c ∈ (p / q).components := by
  obtain ⟨front, whole, _⟩ := q.exists_components_eq
  have last : c ∈ q.components := whole ▸ List.mem_append_right _ isStep
  by_cases rooted : q.isRooted = true
  · rw [join_of_rooted rooted]
    exact last
  · by_cases named : p.text = ""
    · rw [empty_join named]
      exact last
    · rw [components_join named (by simpa using rooted)]
      exact List.mem_append_right _ isStep

/-- A path that ends in more than dots has a name. -/
theorem exists_name_mem_steps {s t : String} {c : Char} (flat : '/' ∉ t.toList)
    (last : t.toList.getLast? = some c) (notDot : c ≠ '.') :
    ∃ name, .name name ∈ steps ⟨s ++ t⟩ := by
  obtain ⟨front, before, _, longer⟩ := Text.exists_splitOn_append_flat s.toList flat
  have isPiece : String.ofList before ++ t ∈ segments ⟨s ++ t⟩ := by
    have text : String.ofList (before ++ t.toList) = String.ofList before ++ t := by
      apply String.toList_inj.mp
      simp
    rw [segments, Text.split, String.toList_append, longer, ← text]
    exact List.mem_map_of_mem (List.mem_append_right _ List.mem_cons_self)
  have isName := (IsSegment.of_last (flat_of_mem_segments _ isPiece)
    (last_append _ last) notDot).2
  exact ⟨_, List.mem_filterMap.mpr ⟨_, isPiece, isName⟩⟩

theorem filterMap_name?_components (p : Path) :
    p.components.filterMap Component.name? = p.steps.filterMap Component.name? := by
  obtain ⟨front, whole, idle⟩ := p.exists_components_eq
  have none : front.filterMap Component.name? = [] := by
    rw [List.filterMap_eq_nil_iff]
    intro c mem
    rcases idle c mem with rfl | rfl <;> rfl
  rw [whole, List.filterMap_append, none, List.nil_append]

theorem count_parent_components (p : Path) :
    p.components.count .parent = p.steps.count .parent := by
  obtain ⟨front, whole, idle⟩ := p.exists_components_eq
  have none : front.count .parent = 0 := by
    rw [List.count_eq_zero]
    intro mem
    rcases idle _ mem with same | same <;> cases same
  rw [whole, List.count_append, none, Nat.zero_add]

/-- As many `..` as a path has names lead back to where it starts, but for each `..` that it has
itself. -/
theorem foldl_back (p : Path) :
    (p.components ++ ups (p.components.filterMap Component.name?).length).foldl resolveStep [] =
      ups (p.components.count .parent) ++ p.base := by
  rw [List.foldl_append, foldl_components, foldl_resolveStep_append p.grounded_base,
    ← List.foldl_append, filterMap_name?_components, count_parent_components,
    foldl_steps_back isStep_of_mem_steps]

end Path

end ObjcPlan
