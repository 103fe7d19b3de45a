import ObjcPlan.Proofs.Components

/-! Paths that lead down from a directory (`Path.IsDescent`): relative ones without `..`. A relative
path can be taken in steps (`Path.join_assoc`), and it leads down if each of its steps does
(`Path.isDescent_descend_iff`). -/

namespace ObjcPlan

/-! ### Pieces of texts with flat ends -/

namespace Text

variable {separator : Char} {s t piece : String}

theorem exists_splitOn_append_flat {l : List Char} (s : List Char) (flat : separator ∉ l) :
    ∃ front last, s.splitOn separator = front ++ [last] ∧
      (s ++ l).splitOn separator = front ++ [last ++ l] := by
  simp only [List.splitOn_eq_splitOnP]
  induction s with
  | nil =>
    refine ⟨[], [], rfl, ?_⟩
    have single := List.splitOn_eq_singleton flat
    rw [List.splitOn_eq_splitOnP] at single
    exact single
  | cons c rest ih =>
    obtain ⟨front, last, pieces, longer⟩ := ih
    rw [List.cons_append, List.splitOnP_cons_eq_if_modifyHead,
      List.splitOnP_cons_eq_if_modifyHead, pieces, longer]
    split
    · exact ⟨[] :: front, last, rfl, rfl⟩
    · cases front with
      | nil => exact ⟨[], c :: last, rfl, rfl⟩
      | cons first others => exact ⟨(c :: first) :: others, last, rfl, rfl⟩

/-- Only the last piece of a text grows with what is put behind it. -/
theorem mem_split_append_flat (flat : separator ∉ t.toList)
    (mem : piece ∈ split separator (s ++ t)) :
    piece ∈ split separator s ∨ ∃ before, piece = before ++ t := by
  obtain ⟨front, last, pieces, longer⟩ := exists_splitOn_append_flat s.toList flat
  rw [split, String.toList_append, longer, List.map_append, List.mem_append] at mem
  rcases mem with inFront | isLast
  · left
    rw [split, pieces, List.map_append]
    exact List.mem_append_left _ inFront
  · right
    refine ⟨String.ofList last, ?_⟩
    rw [List.mem_singleton.mp isLast]
    apply String.toList_inj.mp
    simp

theorem exists_splitOn_flat_append {l : List Char} (s : List Char) (flat : separator ∉ l) :
    ∃ first rest, s.splitOn separator = first :: rest ∧
      (l ++ s).splitOn separator = (l ++ first) :: rest := by
  simp only [List.splitOn_eq_splitOnP]
  induction l with
  | nil =>
    cases pieces : s.splitOnP (· == separator) with
    | nil => exact absurd pieces (List.splitOnP_ne_nil _ _)
    | cons first rest => exact ⟨first, rest, rfl, pieces⟩
  | cons c others ih =>
    rw [List.mem_cons, not_or] at flat
    obtain ⟨first, rest, pieces, longer⟩ := ih flat.2
    refine ⟨first, rest, pieces, ?_⟩
    have kept : (c == separator) = false := by simpa using Ne.symm flat.1
    rw [List.cons_append, List.splitOnP_cons_eq_if_modifyHead, longer, kept]
    rfl

/-- Only the first piece of a text grows with what is put before it. -/
theorem mem_split_flat_append (flat : separator ∉ t.toList)
    (mem : piece ∈ split separator (t ++ s)) :
    piece ∈ split separator s ∨ ∃ behind, piece = t ++ behind := by
  obtain ⟨first, rest, pieces, longer⟩ := exists_splitOn_flat_append s.toList flat
  rw [split, String.toList_append, longer, List.map_cons, List.mem_cons] at mem
  rcases mem with isFirst | inRest
  · right
    refine ⟨String.ofList first, ?_⟩
    rw [isFirst]
    apply String.toList_inj.mp
    simp
  · left
    rw [split, pieces, List.map_cons]
    exact List.mem_cons_of_mem _ inRest

end Text

namespace Path

open Component (ofSegment?)

variable {p q r : Path} {names : List String}

/-! ### Relative paths -/

theorem isRooted_append {s t : String} (named : s ≠ "") :
    isRooted ⟨s ++ t⟩ = isRooted ⟨s⟩ := by
  have nonempty : s.toList ≠ [] := by simpa using named
  rw [isRooted, String.toList_append, List.head?_append_of_ne_nil _ nonempty]
  rfl

theorem isRooted_join (named : p.text ≠ "") (relative : q.isRooted = false) :
    (p / q).isRooted = p.isRooted := by
  rw [join_of_relative relative]
  split
  · exact isRooted_append named
  · rw [isRooted_append (by simp [named]), isRooted_append named]

theorem join_of_rooted (rooted : q.isRooted = true) : p / q = q := by
  show p.join q = q
  rw [join, if_pos rooted]

theorem empty_join (named : p.text = "") : p / q = q := by
  by_cases rooted : q.isRooted = true
  · exact join_of_rooted rooted
  · rw [join_of_relative (by simpa using rooted), if_pos (.inl named), named, String.empty_append]

theorem isRooted_join_of_relative (relative : p.isRooted = false) (relative' : q.isRooted = false) :
    (p / q).isRooted = false := by
  by_cases named : p.text = ""
  · rw [empty_join named]
    exact relative'
  · rw [isRooted_join named relative']
    exact relative

theorem isRooted_join_of_rooted (rooted : p.isRooted = true) : (p / q).isRooted = true := by
  by_cases rooted' : q.isRooted = true
  · rw [join_of_rooted rooted']
    exact rooted'
  · have named : p.text ≠ "" := by
      intro empty
      simp [isRooted, empty] at rooted
    rw [isRooted_join named (by simpa using rooted')]
    exact rooted

theorem isRooted_descend_of_rooted (rooted : p.isRooted = true) :
    (p.descend names).isRooted = true := by
  induction names generalizing p with
  | nil => exact rooted
  | cons s rest ih => exact ih (isRooted_join_of_rooted rooted)

/-- To join a relative path is to write it behind a fixed text. -/
theorem exists_join_eq (p : Path) :
    ∃ front : String, ∀ q : Path, q.isRooted = false → p / q = ⟨front ++ q.text⟩ := by
  by_cases closed : p.text = "" ∨ p.text.toList.getLast? = some '/'
  · refine ⟨p.text, fun q relative => ?_⟩
    rw [join_of_relative relative, if_pos closed]
  · refine ⟨p.text ++ "/", fun q relative => ?_⟩
    rw [join_of_relative relative, if_neg closed]

theorem exists_rest_of_join (relative : q.isRooted = false) :
    ∃ rest : String, p / q = ⟨p.text ++ rest⟩ := by
  rw [join_of_relative relative]
  split
  · exact ⟨q.text, rfl⟩
  · exact ⟨"/" ++ q.text, congrArg mk String.append_assoc⟩

theorem join_assoc (relative : q.isRooted = false) (relative' : r.isRooted = false) :
    p / q / r = p / (q / r) := by
  by_cases named : q.text = ""
  · -- an empty path in between leaves at most the slash that the next join would write
    rw [empty_join named, join_of_relative relative, named]
    split
    · rw [String.append_empty]
    · next unclosed =>
      rw [String.append_empty, join_of_relative relative', if_pos (.inr (last_append _ rfl)),
        join_of_relative relative', if_neg unclosed]
  · obtain ⟨front, joined⟩ := p.exists_join_eq
    have last : (front ++ q.text).toList.getLast? = q.text.toList.getLast? := by
      rw [String.toList_append, List.getLast?_append_of_ne_nil _ (by simpa using named)]
    rw [joined q relative, joined (q / r) (isRooted_join_of_relative relative relative'),
      join_of_relative relative', join_of_relative relative']
    simp only [last, named, String.append_eq_empty_iff, and_false, false_or]
    split
    · rw [String.append_assoc]
    · rw [String.append_assoc, String.append_assoc, String.append_assoc]

theorem join_left_cancel (relative : q.isRooted = false) (relative' : r.isRooted = false)
    (same : p / q = p / r) : q = r := by
  obtain ⟨front, joined⟩ := p.exists_join_eq
  rw [joined q relative, joined r relative'] at same
  exact congrArg mk ((String.append_right_inj _).mp (congrArg Path.text same))

theorem isRooted_descend (relative : p.isRooted = false)
    (relatives : ∀ s ∈ names, isRooted ⟨s⟩ = false) : (p.descend names).isRooted = false := by
  induction names generalizing p with
  | nil => exact relative
  | cons s rest ih =>
    have ⟨first, others⟩ := List.forall_mem_cons.mp relatives
    exact ih (isRooted_join_of_relative relative first) others

/-- What a relative path and relative names lead to can be reached in one step. -/
theorem join_descend (relative : q.isRooted = false)
    (relatives : ∀ s ∈ names, isRooted ⟨s⟩ = false) :
    (p / q).descend names = p / q.descend names := by
  induction names generalizing q with
  | nil => rfl
  | cons s rest ih =>
    have ⟨first, others⟩ := List.forall_mem_cons.mp relatives
    calc (p / q / s).descend rest
        = (p / (q / s)).descend rest := congrArg (descend · rest) (join_assoc relative first)
      _ = p / (q / s).descend rest := ih (isRooted_join_of_relative relative first) others

/-! ### Paths without `..` -/

theorem parent_mem_steps_iff : .parent ∈ p.steps ↔ ".." ∈ p.segments := by
  rw [steps, List.mem_filterMap]
  constructor
  · rintro ⟨segment, mem, same⟩
    obtain rfl : ".." = segment := Component.text_of_segment same
    exact mem
  · intro mem
    exact ⟨"..", mem, rfl⟩

theorem parent_mem_components_iff : .parent ∈ p.components ↔ ".." ∈ p.segments := by
  obtain ⟨front, whole, idle⟩ := p.exists_components_eq
  have notFront : .parent ∉ front := by
    intro mem
    rcases idle _ mem with same | same <;> cases same
  rw [whole, List.mem_append, parent_mem_steps_iff]
  simp [notFront]

theorem parent_mem_join (relative : q.isRooted = false) :
    .parent ∈ (p / q).components ↔ .parent ∈ p.components ∨ .parent ∈ q.components := by
  by_cases named : p.text = ""
  · rw [empty_join named, components_of_empty named]
    simp
  · rw [components_join named relative, List.mem_append, parent_mem_steps_iff (p := q),
      parent_mem_components_iff (p := q)]

/-- Whether the path is relative and has no `..`. -/
def IsDescent (p : Path) : Prop :=
  p.isRooted = false ∧ .parent ∉ p.components

instance (p : Path) : Decidable p.IsDescent :=
  inferInstanceAs (Decidable (_ ∧ _))

theorem isDescent_join_iff (relative : q.isRooted = false) :
    (p / q).IsDescent ↔ p.IsDescent ∧ q.IsDescent := by
  have rooted : (p / q).isRooted = p.isRooted := by
    by_cases named : p.text = ""
    · rw [empty_join named, relative, isRooted, named]
      rfl
    · exact isRooted_join named relative
  unfold IsDescent
  rw [rooted, parent_mem_join relative, relative]
  tauto

theorem isDescent_descend_iff (relatives : ∀ s ∈ names, isRooted ⟨s⟩ = false) :
    (p.descend names).IsDescent ↔ p.IsDescent ∧ ∀ s ∈ names, IsDescent ⟨s⟩ := by
  induction names generalizing p with
  | nil => simp [descend]
  | cons s rest ih =>
    have ⟨first, others⟩ := List.forall_mem_cons.mp relatives
    have step : (p / s).IsDescent ↔ p.IsDescent ∧ IsDescent ⟨s⟩ := isDescent_join_iff first
    show ((p / s).descend rest).IsDescent ↔ _
    rw [ih others, step, List.forall_mem_cons, and_assoc]

/-- A name without a slash leads down unless it is `..`. -/
theorem isDescent_of_flat {s : String} (flat : '/' ∉ s.toList) (notUp : s ≠ "..") :
    IsDescent ⟨s⟩ := by
  refine ⟨isRooted_eq_false flat, ?_⟩
  rw [parent_mem_components_iff, segments, Text.split_eq_singleton flat]
  simpa using notUp.symm

/-- A path leads down with a flat ending put behind it, if that ends in no dot. -/
theorem isDescent_append {s t : String} {c : Char} (down : IsDescent ⟨s⟩) (named : s ≠ "")
    (flat : '/' ∉ t.toList) (last : t.toList.getLast? = some c) (notDot : c ≠ '.') :
    IsDescent ⟨s ++ t⟩ := by
  refine ⟨(isRooted_append named).trans down.1, ?_⟩
  rw [parent_mem_components_iff]
  intro mem
  rcases Text.mem_split_append_flat flat mem with among | ⟨before, same⟩
  · exact down.2 (parent_mem_components_iff.mpr among)
  · have ends := last_append before last
    rw [← same] at ends
    exact notDot (Option.some.inj ends).symm

end Path

end ObjcPlan
