import ObjcPlan.Path.Parent
import Mathlib.Data.List.Basic

/-! What joining does to the components of a path. A relative path adds its own components to those
of the directory that it is joined to (`Path.components_join`), and to replace the extension of a
file in a directory is to replace it in the file's name (`Path.withExtension_join`). -/

namespace ObjcPlan

namespace Text

theorem split_append (separator : Char) (s t : String) :
    split separator (s ++ String.singleton separator ++ t) =
      split separator s ++ split separator t := by
  have cut := List.splitOnP_append_cons (p := (· == separator)) s.toList t.toList
    (beq_self_eq_true separator)
  simp [split, List.splitOn_eq_splitOnP, cut]

theorem split_eq_singleton {separator : Char} {s : String} (h : separator ∉ s.toList) :
    split separator s = [s] := by
  simp [split, List.splitOn_eq_singleton h]

theorem split_ne_nil (separator : Char) (s : String) : split separator s ≠ [] := by
  simp [split, List.splitOn_ne_nil]

theorem notMem_of_mem_splitOnP {α : Type} {test : α → Bool} {l piece : List α}
    (mem : piece ∈ l.splitOnP test) : ∀ a ∈ piece, test a = false := by
  induction l generalizing piece with
  | nil =>
    obtain rfl : piece = [] := by simpa using mem
    simp
  | cons a rest ih =>
    rw [List.splitOnP_cons_eq_if_modifyHead] at mem
    split at mem
    · rcases List.mem_cons.mp mem with rfl | later
      · simp
      · exact ih later
    · next kept =>
      cases pieces : rest.splitOnP test with
      | nil => simp [pieces] at mem
      | cons first others =>
        rw [pieces, List.modifyHead_cons] at mem
        rcases List.mem_cons.mp mem with rfl | later
        · intro b isIn
          rcases List.mem_cons.mp isIn with rfl | isIn
          · simpa using kept
          · exact ih (pieces ▸ List.mem_cons_self) b isIn
        · exact ih (pieces ▸ List.mem_cons_of_mem _ later)

theorem notMem_of_mem_split {separator : Char} {s piece : String}
    (mem : piece ∈ split separator s) : separator ∉ piece.toList := by
  obtain ⟨chars, isPiece, rfl⟩ := List.mem_map.mp mem
  rw [List.splitOn_eq_splitOnP] at isPiece
  intro isIn
  simpa using notMem_of_mem_splitOnP isPiece separator (by simpa using isIn)

end Text

namespace Path

open Component (ofSegment?)

/-! ### Segments -/

theorem Component.text_of_segment {segment : String} {component : Component}
    (h : ofSegment? segment = some component) : component.text = segment := by
  unfold ofSegment? at h
  split at h
  · contradiction
  · split at h
    · next parent =>
      obtain rfl := Option.some.inj h
      exact parent.symm
    · obtain rfl := Option.some.inj h
      rfl

theorem segments_ne_nil (p : Path) : p.segments ≠ [] :=
  Text.split_ne_nil _ _

theorem segments_eq_singleton_empty {p : Path} (h : p.segments = [""]) : p.text = "" := by
  have := p.intercalate_segments
  rw [h] at this
  simpa using this.symm

/-- The components that the path adds to a directory which it is joined to. -/
def steps (p : Path) : List Component :=
  p.segments.filterMap ofSegment?

/-- What a path that starts with these segments has before its steps. -/
def lead : List String → List Component
  | [] => []
  | first :: _ => if first = "" then [.root] else if first = "." then [.current] else []

theorem components_eq {p : Path} (named : p.text ≠ "") :
    p.components = lead p.segments ++ p.steps := by
  unfold components steps
  split
  · next segments => simp [segments, lead, ofSegment?]
  · next segments => simp [segments, lead, ofSegment?]
  · next rooted current =>
    cases segments : p.segments with
    | nil => rfl
    | cons first rest =>
      have first_ne : first ≠ "" := by
        rintro rfl
        cases rest with
        | nil => exact named (segments_eq_singleton_empty segments)
        | cons second rest => exact rooted second rest segments
      have first_ne' : first ≠ "." := by
        rintro rfl
        exact current rest segments
      simp [lead, first_ne, first_ne']

theorem components_of_empty {p : Path} (empty : p.text = "") : p.components = [] := by
  obtain ⟨text⟩ := p
  obtain rfl := empty
  rfl

/-- Before its steps, a path has at most a root or a leading `.`. -/
theorem exists_components_eq (p : Path) :
    ∃ front, p.components = front ++ p.steps ∧ ∀ c ∈ front, c = .root ∨ c = .current := by
  by_cases named : p.text = ""
  · obtain ⟨text⟩ := p
    obtain rfl := named
    exact ⟨[], rfl, by simp⟩
  · refine ⟨lead p.segments, components_eq named, ?_⟩
    unfold lead
    repeat' split
    all_goals simp

theorem lead_append {front : List String} (nonempty : front ≠ []) (rest : List String) :
    lead (front ++ rest) = lead front := by
  cases front with
  | nil => contradiction
  | cons first others => rfl

theorem steps_of_segment {segment : String} {component : Component} (flat : '/' ∉ segment.toList)
    (h : ofSegment? segment = some component) : steps ⟨segment⟩ = [component] := by
  simp [steps, segments, Text.split_eq_singleton flat, h]

/-! ### Joins -/

variable {p q : Path}

theorem join_of_relative (relative : q.isRooted = false) :
    p / q = if p.text = "" ∨ p.text.toList.getLast? = some '/' then ⟨p.text ++ q.text⟩
      else ⟨p.text ++ "/" ++ q.text⟩ := by
  show p.join q = _
  rw [join, if_neg (by simp [relative])]

theorem join_text_ne (named : p.text ≠ "") : (p / q).text ≠ "" := by
  show (p.join q).text ≠ ""
  unfold join
  split
  · next rooted =>
    intro empty
    simp [isRooted, empty] at rooted
  · split <;> simp [named]

theorem join_name_text_ne {name : String} (named : name ≠ "") : (p / name).text ≠ "" := by
  show (p.join ⟨name⟩).text ≠ ""
  unfold join
  split
  · exact named
  · split <;> simp [named]

/-- A relative path is put behind the segments of a directory, up to the slash at its end. -/
theorem segments_join (named : p.text ≠ "") : ∃ front : List String, front ≠ [] ∧
    (p.segments = front ∨ p.segments = front ++ [""]) ∧
    ∀ q : Path, q.isRooted = false → (p / q).segments = front ++ q.segments := by
  by_cases closed : p.text.toList.getLast? = some '/'
  · obtain ⟨before, chars⟩ := List.getLast?_eq_some_iff.mp closed
    have text : p.text = String.ofList before ++ String.singleton '/' := by
      apply String.toList_inj.mp
      simp [chars]
    refine ⟨Text.split '/' (String.ofList before), Text.split_ne_nil _ _, .inr ?_, ?_⟩
    · have cut := Text.split_append '/' (String.ofList before) ""
      rw [segments, text]
      simpa [Text.split_eq_singleton] using cut
    · intro q relative
      rw [join_of_relative relative, if_pos (.inr closed), segments, text, Text.split_append]
      rfl
  · refine ⟨p.segments, p.segments_ne_nil, .inl rfl, fun q relative => ?_⟩
    rw [join_of_relative relative, if_neg (by simp [named, closed])]
    exact Text.split_append '/' p.text q.text

/-- A relative path adds its steps to the components of a directory. -/
theorem components_join (named : p.text ≠ "") (relative : q.isRooted = false) :
    (p / q).components = p.components ++ q.steps := by
  obtain ⟨front, nonempty, whole, joined⟩ := segments_join named
  have idle : ofSegment? "" = none := rfl
  have steps : p.steps = front.filterMap ofSegment? ∧ lead p.segments = lead front := by
    rcases whole with same | closed
    · exact ⟨by rw [Path.steps, same], by rw [same]⟩
    · rw [Path.steps, closed, lead_append nonempty]
      simp [idle]
  rw [components_eq (join_text_ne named), components_eq named, steps.1, steps.2, Path.steps,
    joined q relative, lead_append nonempty, List.filterMap_append, List.append_assoc]
  rfl

/-! ### Names -/

/-- Whether a text is one segment of a path, and not an idle one. -/
def IsSegment (s : String) : Prop :=
  '/' ∉ s.toList ∧ ∃ component, ofSegment? s = some component

theorem IsSegment.of_last {s : String} {c : Char} (flat : '/' ∉ s.toList)
    (last : s.toList.getLast? = some c) (notDot : c ≠ '.') :
    IsSegment s ∧ ofSegment? s = some (.name s) := by
  have plain : ofSegment? s = some (.name s) := by
    have ne {t : String} (h : t.toList.getLast? ≠ some c) : s ≠ t := by
      rintro rfl
      exact h last
    have dot : some '.' ≠ some c := fun same => notDot (Option.some.inj same).symm
    rw [ofSegment?, if_neg, if_neg]
    · exact ne (by simpa using dot)
    · rintro (empty | current)
      · exact ne (by simp) empty
      · exact ne (by simpa using dot) current
  exact ⟨⟨flat, _, plain⟩, plain⟩

theorem last_append (s : String) {t : String} {c : Char} (last : t.toList.getLast? = some c) :
    (s ++ t).toList.getLast? = some c := by
  rw [String.toList_append, List.getLast?_append, last]
  rfl

theorem isRooted_eq_false {s : String} (flat : '/' ∉ s.toList) : isRooted ⟨s⟩ = false := by
  have : s.toList.head? ≠ some '/' := fun first => flat (List.mem_of_head? first)
  simpa [isRooted] using this

/-- The components as texts. -/
def texts (p : Path) : List String :=
  p.components.map Component.text

theorem texts_join_name {s : String} (named : p.text ≠ "") (h : IsSegment s) :
    (p / s).texts = p.texts ++ [s] := by
  obtain ⟨flat, component, isComponent⟩ := h
  show ((p / (⟨s⟩ : Path)).components).map _ = _
  rw [components_join named (isRooted_eq_false flat), steps_of_segment flat isComponent,
    List.map_append]
  simp [texts, Component.text_of_segment isComponent]

/-- The path that the names lead to from a directory. -/
def descend (p : Path) (names : List String) : Path :=
  names.foldl (fun (p : Path) (name : String) => p / name) p

theorem descend_text_ne {names : List String} (named : p.text ≠ "") :
    (p.descend names).text ≠ "" := by
  induction names generalizing p with
  | nil => exact named
  | cons s rest ih => exact ih (join_text_ne named)

theorem texts_descend {names : List String} (named : p.text ≠ "")
    (segments : ∀ s ∈ names, IsSegment s) : (p.descend names).texts = p.texts ++ names := by
  induction names generalizing p with
  | nil => exact (List.append_nil _).symm
  | cons s rest ih =>
    have ⟨first, others⟩ := List.forall_mem_cons.mp segments
    calc ((p / s).descend rest).texts
        = (p / s).texts ++ rest := ih (join_text_ne named) others
      _ = p.texts ++ [s] ++ rest := by rw [texts_join_name named first]
      _ = p.texts ++ s :: rest := List.append_assoc _ _ _

/-- A slash at the end of a name makes no difference to what is below. -/
theorem join_slash (p : Path) {s : String} (flat : '/' ∉ s.toList) (named : s ≠ "")
    (relative : q.isRooted = false) : p / (s ++ "/") / q = p / s / q := by
  have relative' : isRooted ⟨s ++ "/"⟩ = false := by
    have first : (s ++ "/").toList.head? = s.toList.head? := by
      rw [String.toList_append, List.head?_append_of_ne_nil _ (by simpa using named)]
    rw [isRooted, first]
    exact isRooted_eq_false flat
  show p / (⟨s ++ "/"⟩ : Path) / q = p / (⟨s⟩ : Path) / q
  obtain ⟨before, closed, plain⟩ : ∃ before, p / (⟨s ++ "/"⟩ : Path) = ⟨before ++ s ++ "/"⟩ ∧
      p / (⟨s⟩ : Path) = ⟨before ++ s⟩ := by
    rw [join_of_relative relative', join_of_relative (isRooted_eq_false flat)]
    split
    · exact ⟨p.text, congrArg mk String.append_assoc.symm, rfl⟩
    · exact ⟨p.text ++ "/", congrArg mk String.append_assoc.symm, rfl⟩
  have behind : ¬((before ++ s) = "" ∨ (before ++ s).toList.getLast? = some '/') := by
    have last : s.toList.getLast? ≠ some '/' := fun last => flat (List.mem_of_getLast? last)
    rw [String.toList_append, List.getLast?_append_of_ne_nil _ (by simpa using named)]
    simp [named, last]
  rw [closed, plain, join_of_relative relative, join_of_relative relative, if_neg behind,
    if_pos (.inr (last_append _ rfl))]

/-! ### Extensions -/

theorem mem_of_mem_stem {name : String} {c : Char} (mem : c ∈ (cutExtension name).1.toList) :
    c ∈ name.toList := by
  have within : ∀ c ∈ name.toList.reverse.dropWhile (· ≠ '.'), c ∈ name.toList := fun c isIn =>
    List.mem_reverse.mp ((List.dropWhile_sublist _).mem isIn)
  unfold cutExtension at mem
  split at mem
  · exact mem
  · exact mem
  · next stem _ cut =>
    rw [cut] at within
    exact within c (List.mem_cons_of_mem _ (by simpa using mem))

theorem fileName?_flat {name : String} (h : p.fileName? = some name) : '/' ∉ name.toList := by
  obtain ⟨component, last, isName⟩ := Option.bind_eq_some_iff.mp h
  obtain ⟨front, whole, idle⟩ := p.exists_components_eq
  have mem := List.mem_of_getLast? last
  rw [whole, List.mem_append] at mem
  rcases mem with inFront | isStep
  · rcases idle component inFront with rfl | rfl <;> cases isName
  · obtain ⟨segment, isSegment, same⟩ := List.mem_filterMap.mp isStep
    have text := Component.text_of_segment same
    cases component with
    | name text' =>
      obtain rfl := Option.some.inj isName
      obtain rfl : text' = segment := text
      exact Text.notMem_of_mem_split isSegment
    | _ => contradiction

theorem stem_flat (file : Path) : '/' ∉ (file.stem?.getD "").toList := by
  cases named : file.fileName? with
  | none => simp [stem?, named]
  | some name =>
    rw [stem?, named]
    exact fun mem => fileName?_flat named (mem_of_mem_stem mem)

theorem isSegment_replaceExtension {name extension : String} {c : Char} (flat : '/' ∉ name.toList)
    (flat' : '/' ∉ extension.toList) (last : extension.toList.getLast? = some c)
    (notDot : c ≠ '.') : IsSegment (replaceExtension name extension) := by
  unfold replaceExtension
  dsimp only
  split
  · exact ⟨by decide, .parent, rfl⟩
  · refine (IsSegment.of_last (c := c) ?_ ?_ notDot).1
    · simpa [flat'] using fun mem => flat (mem_of_mem_stem mem)
    · exact last_append _ last

theorem backwards_concat {name : String} (isName : ofSegment? name = some (.name name))
    (front : List String) : backwards (front ++ [name]) = name :: front.reverse := by
  have busy : ¬isIdle name = true := by simp [isIdle, isName]
  rw [backwards, List.reverse_append, List.reverse_singleton, List.singleton_append,
    List.dropWhile_cons_of_neg busy]

/-- To replace the extension of a file in a directory is to replace it in the file's name. -/
theorem withExtension_join {name extension : String} (named : p.text ≠ "")
    (segment : IsSegment name) (isName : ofSegment? name = some (.name name))
    (replaced : IsSegment (replaceExtension name extension)) :
    (p / name).withExtension extension = p / replaceExtension name extension := by
  obtain ⟨front, nonempty, _, joined⟩ := segments_join named
  have segments {s : String} (h : IsSegment s) : (p / s).segments = front ++ [s] := by
    have single : Path.segments ⟨s⟩ = [s] := Text.split_eq_singleton h.1
    exact single ▸ joined ⟨s⟩ (isRooted_eq_false h.1)
  have fileName : (p / name).fileName? = some name := by
    show ((p / (⟨name⟩ : Path)).components).getLast?.bind _ = _
    rw [components_join named (isRooted_eq_false segment.1), steps_of_segment segment.1 isName,
      List.getLast?_concat]
    rfl
  have text := (p / replaceExtension name extension).intercalate_segments
  rw [segments replaced] at text
  rw [withExtension, fileName, segments segment, backwards_concat isName]
  simp only [List.drop_succ_cons, List.drop_zero, List.reverse_reverse, text]

end Path

end ObjcPlan
