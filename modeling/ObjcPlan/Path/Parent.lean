import ObjcPlan.Path.Basic

/-!
Going up from a path ends: the directory that holds it has the shorter text (`length_parent?`).
-/

namespace ObjcPlan.Path

theorem intercalate_segments (p : Path) : "/".intercalate p.segments = p.text := by
  apply String.toList_inj.mp
  rw [String.toList_intercalate]
  simp [segments, Text.split, List.map_map, Function.comp_def, List.intercalate_splitOn]

/-- How long the segments are, each with a slash. -/
def weight : List String → Nat
  | [] => 0
  | segment :: rest => segment.length + 1 + weight rest

theorem length_intercalate (segments : List String) (h : segments ≠ []) :
    ("/".intercalate segments).length + 1 = weight segments := by
  rw [← String.length_toList, String.toList_intercalate]
  induction segments with
  | nil => exact absurd rfl h
  | cons first rest ih =>
    cases rest with
    | nil => simp [weight, String.length_toList]
    | cons second rest =>
      have := ih (by simp)
      have : "/".toList.length = 1 := rfl
      simp only [List.map_cons, List.intercalate_cons_cons, List.length_append, weight,
        String.length_toList] at *
      omega

theorem length_intercalate_le (segments : List String) :
    ("/".intercalate segments).length ≤ weight segments - 1 := by
  by_cases h : segments = []
  · subst h; decide
  · have := length_intercalate segments h
    omega

theorem weight_append (l m : List String) : weight (l ++ m) = weight l + weight m := by
  induction l with
  | nil => simp [weight]
  | cons segment rest ih =>
    rw [List.cons_append, weight, weight, ih]
    omega

theorem weight_reverse (l : List String) : weight l.reverse = weight l := by
  induction l with
  | nil => rfl
  | cons segment rest ih =>
    rw [List.reverse_cons, weight_append, ih, weight, weight, weight]
    omega

theorem weight_dropWhile (test : String → Bool) (l : List String) :
    weight (l.dropWhile test) ≤ weight l := by
  have := congrArg weight (@List.takeWhile_append_dropWhile _ test l)
  rw [weight_append] at this
  omega

theorem weight_dropLastSegment? {segments kept : List String}
    (h : dropLastSegment? segments = some kept) : weight kept + 2 ≤ weight segments := by
  unfold dropLastSegment? at h
  split at h
  · contradiction
  · next last before found =>
    have last_ne : last ≠ "" := by
      have := List.head?_dropWhile_not isIdle segments.reverse
      rw [show segments.reverse.dropWhile isIdle = last :: before from found] at this
      rintro rfl
      simp [isIdle, Component.ofSegment?] at this
    have := weight_dropWhile isIdle segments.reverse
    rw [show segments.reverse.dropWhile isIdle = last :: before from found,
      weight_reverse] at this
    have length_pos : 0 < last.length :=
      Nat.pos_of_ne_zero fun zero => last_ne (String.length_eq_zero_iff.mp zero)
    have := weight_dropWhile isIdle before
    rw [← Option.some.inj h, weight_reverse]
    simp only [weight] at *
    omega

/-- Going up ends: the directory that holds a path has the shorter text. -/
theorem length_parent? {p above : Path} (h : p.parent? = some above) :
    above.text.length < p.text.length := by
  have whole := p.intercalate_segments
  unfold parent? at h
  split at h
  · next first rest segments =>
    obtain ⟨kept, drop, rfl⟩ := Option.map_eq_some_iff.mp h
    have := weight_dropLastSegment? drop
    have := length_intercalate_le kept
    have := length_intercalate p.segments (by simp [segments])
    rw [segments] at this whole
    rw [whole] at this
    have : "/".length = 1 := rfl
    simp only [weight, String.length_append] at *
    have : "".length = 0 := rfl
    omega
  · next rest segments =>
    have size := length_intercalate p.segments (by simp [segments])
    rw [segments] at size whole
    rw [whole] at size
    split at h
    · next kept drop =>
      have := weight_dropLastSegment? drop
      have := length_intercalate ("." :: kept) (by simp)
      rw [← Option.some.inj h]
      simp only [weight] at *
      omega
    · rw [← Option.some.inj h]
      simp only [weight] at size
      have : ".".length = 1 := rfl
      have : "".length = 0 := rfl
      change "".length < _
      omega
  · obtain ⟨kept, drop, rfl⟩ := Option.map_eq_some_iff.mp h
    have bound := weight_dropLastSegment? drop
    have := length_intercalate_le kept
    have size := length_intercalate p.segments fun nil => by
      simp [nil, weight] at bound
    rw [whole] at size
    simp only at *
    omega

end ObjcPlan.Path
