import ObjcPlan.FileKind
import ObjcPlan.Proofs.Descent

/-! The last name of a path (`Path.fileName?`). A path keeps it below any directory
(`Path.fileName?_join`), and so it keeps its kind as a source. What a text ends in is what its last
name ends in, unless that is a slash or a dot (`Path.exists_fileName?_of_last`). -/

namespace ObjcPlan

namespace Path

open Component (ofSegment?)

variable {p q : Path} {name : String}

theorem fileName?_eq_some_iff : p.fileName? = some name ↔ p.steps.getLast? = some (.name name) := by
  obtain ⟨front, whole, idle⟩ := p.exists_components_eq
  rw [fileName?, whole, Option.bind_eq_some_iff, List.getLast?_append]
  constructor
  · rintro ⟨component, last, isName⟩
    cases component with
    | name text =>
      obtain rfl := Option.some.inj isName
      rcases Option.or_eq_some_iff.mp last with isStep | ⟨_, inFront⟩
      · exact isStep
      · rcases idle _ (List.mem_of_getLast? inFront) with same | same <;> cases same
    | _ => cases isName
  · intro last
    exact ⟨.name name, by rw [last]; rfl, rfl⟩

theorem getLast?_components_join {c : Component} (last : q.steps.getLast? = some c) :
    (p / q).components.getLast? = some c := by
  have behind (front : List Component) : (front ++ q.steps).getLast? = some c := by
    rw [List.getLast?_append, last]
    rfl
  obtain ⟨front, whole, _⟩ := q.exists_components_eq
  by_cases rooted : q.isRooted = true
  · rw [join_of_rooted rooted, whole, behind]
  · by_cases named : p.text = ""
    · rw [empty_join named, whole, behind]
    · rw [components_join named (by simpa using rooted), behind]

theorem fileName?_join (named : q.fileName? = some name) : (p / q).fileName? = some name := by
  rw [fileName?, getLast?_components_join (fileName?_eq_some_iff.mp named)]
  rfl

theorem last_join {c : Char} (last : q.text.toList.getLast? = some c) :
    (p / q).text.toList.getLast? = some c := by
  by_cases rooted : q.isRooted = true
  · rw [join_of_rooted rooted]
    exact last
  · obtain ⟨front, joined⟩ := p.exists_join_eq
    rw [joined q (by simpa using rooted)]
    exact last_append front last

/-- The last name of a text with a flat ending is what the last piece of the text becomes. -/
theorem exists_fileName?_append {s t : String} {c : Char} (flat : '/' ∉ t.toList)
    (last : t.toList.getLast? = some c) (notDot : c ≠ '.') : ∃ front piece,
      s.toList.splitOn '/' = front ++ [piece] ∧
        fileName? ⟨s ++ t⟩ = some (String.ofList piece ++ t) := by
  obtain ⟨front, piece, pieces, longer⟩ := Text.exists_splitOn_append_flat s.toList flat
  refine ⟨front, piece, pieces, ?_⟩
  have segments : segments ⟨s ++ t⟩ = front.map String.ofList ++ [String.ofList piece ++ t] := by
    have text : String.ofList (piece ++ t.toList) = String.ofList piece ++ t := by
      apply String.toList_inj.mp
      simp
    rw [segments, Text.split, String.toList_append, longer, List.map_append, ← text]
    rfl
  have isPiece : String.ofList piece ++ t ∈ Path.segments ⟨s ++ t⟩ :=
    segments ▸ List.mem_append_right _ List.mem_cons_self
  have isName := (IsSegment.of_last (Text.notMem_of_mem_split isPiece)
    (last_append _ last) notDot).2
  rw [fileName?_eq_some_iff, steps, segments, List.filterMap_append]
  simp [isName]

/-- What a text ends in is what its last name ends in, unless it is a slash or a dot. -/
theorem exists_fileName?_of_last {c : Char} (last : p.text.toList.getLast? = some c)
    (notSlash : c ≠ '/') (notDot : c ≠ '.') :
    ∃ name, p.fileName? = some name ∧ name.toList.getLast? = some c := by
  obtain ⟨before, chars⟩ := List.getLast?_eq_some_iff.mp last
  have text : p = ⟨String.ofList before ++ String.singleton c⟩ := by
    apply congrArg mk
    apply String.toList_inj.mp
    simp [chars]
  have ends : (String.singleton c).toList.getLast? = some c := by simp
  obtain ⟨_, piece, _, isName⟩ :=
    exists_fileName?_append (s := String.ofList before) (by simpa using notSlash.symm) ends notDot
  exact ⟨_, text ▸ isName, last_append _ ends⟩

/-- What the text of a path ends in is what its last component ends in, unless it is a slash or a
dot. -/
theorem exists_last_texts {p : Path} {c : Char} (last : p.text.toList.getLast? = some c)
    (notSlash : c ≠ '/') (notDot : c ≠ '.') :
    ∃ text, p.texts.getLast? = some text ∧ text.toList.getLast? = some c := by
  obtain ⟨name, named, ends⟩ := exists_fileName?_of_last last notSlash notDot
  obtain ⟨component, isLast, isName⟩ := Option.bind_eq_some_iff.mp named
  refine ⟨name, ?_, ends⟩
  rw [texts, List.getLast?_map, isLast]
  cases component with
  | name text => exact isName
  | _ => contradiction

theorem getLast?_texts_join_up (p : Path) : (p / "..").texts.getLast? = some ".." := by
  have last : (p / (⟨".."⟩ : Path)).components.getLast? = some .parent :=
    getLast?_components_join (by decide)
  rw [texts, List.getLast?_map]
  exact congrArg (Option.map Component.text) last

theorem last_of_cutExtension {extension : String} (cut : (cutExtension name).2 = some extension)
    (named : extension ≠ "") : name.toList.getLast? = extension.toList.getLast? := by
  unfold cutExtension at cut
  split at cut
  · contradiction
  · contradiction
  · obtain rfl := Option.some.inj cut
    rw [← List.head?_reverse, String.toList_ofList, List.getLast?_reverse]
    cases chars : name.toList.reverse with
    | nil => rfl
    | cons c rest =>
      rw [List.takeWhile_cons]
      split
      · rfl
      · next isDot =>
        have isDot : c = '.' := by simpa using isDot
        simp [chars, isDot] at named

theorem exists_fileName?_of_extension? {extension : String} (h : p.extension? = some extension) :
    ∃ name, p.fileName? = some name ∧ (cutExtension name).2 = some extension :=
  Option.bind_eq_some_iff.mp h

theorem extension?_join {extension : String} (h : q.extension? = some extension) :
    (p / q).extension? = some extension := by
  obtain ⟨name, named, cut⟩ := exists_fileName?_of_extension? h
  rw [extension?, fileName?_join named]
  exact cut

end Path

namespace FileKind

/-- A file of a known kind is of this kind below any directory. -/
theorem ofPath_join {p q : Path} (known : ofPath q ≠ .other) : ofPath (p / q) = ofPath q := by
  cases extension : q.extension? with
  | none => simp [ofPath, extension] at known
  | some text => rw [ofPath, Path.extension?_join extension, ofPath, extension]

theorem ofPath_eq_of_components {p q : Path} (same : p.components = q.components) :
    ofPath p = ofPath q := by
  rw [ofPath, ofPath, Path.extension?, Path.extension?, Path.fileName?, Path.fileName?, same]

end FileKind

end ObjcPlan
