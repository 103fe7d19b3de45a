import ObjcPlan.Proofs.Codec
import ObjcPlan.Proofs.Lexical
import Mathlib.Data.List.TakeWhile

/-! Which texts name a target, and that each target has one text of its own. A text is read as a
label if it spells out a package and a name, or a package alone that has directories
(`Label.Spells`). However a label was come by, its text is read back as that label
(`Label.texts_identify_labels`). -/

namespace ObjcPlan

namespace Label

/-- Whether a text has neither white space nor a colon. -/
def IsWord (s : String) : Prop :=
  ∀ c ∈ s.toList, Text.isBlank c = false ∧ c ≠ ':'

/-- Whether a package is the path that leads through these directories. -/
structure IsPackage (package : String) (directories : List String) : Prop where
  path : package = "/".intercalate directories
  flat : ∀ directory ∈ directories, '/' ∉ directory.toList
  named : ∀ directory ∈ directories, directory ≠ ""
  dotless : ∀ directory ∈ directories, directory ≠ "." ∧ directory ≠ ".."
  word : IsWord package

/-- The texts that name a target, each with the target's package and name. -/
inductive Spells : String → String → String → Prop
  | full {package name : String} {directories : List String}
      (isPackage : IsPackage package directories) (named : name ≠ "") (word : IsWord name) :
      Spells ("//" ++ package ++ ":" ++ name) package name
  | short {package name : String} {directories : List String}
      (isPackage : IsPackage package directories) (last : directories.getLast? = some name) :
      Spells ("//" ++ package) package name

variable {package name text rest : String} {directories : List String} {l : Label}

/-! ### Packages and names -/

theorem isWord_iff {s : String} : IsWord s ↔ s.toList.any isForbidden = false := by
  simp [IsWord, isForbidden]

theorem nameFault?_eq_none_iff : nameFault? name = none ↔ name ≠ "" ∧ IsWord name := by
  rw [nameFault?, isWord_iff]
  split <;> simp_all

theorem IsPackage.split_eq (h : IsPackage package directories) (below : directories ≠ []) :
    Text.split '/' package = directories := by
  have segments := Path.segments_intercalate h.flat below
  rwa [← h.path] at segments

theorem isPackage_root : IsPackage "" [] :=
  ⟨rfl, nofun, nofun, nofun, nofun⟩

/-- A package without fault leads through the directories that it splits into. -/
theorem isPackage_split (ok : packageFault? package = none) (below : package ≠ "") :
    IsPackage package (Text.split '/' package) := by
  unfold packageFault? at ok
  dsimp only at ok
  split at ok
  · contradiction
  · next wellFormed =>
    split at ok
    · contradiction
    · next dotless =>
      split at ok
      · contradiction
      · next word =>
        refine ⟨(Path.intercalate_segments ⟨package⟩).symm, fun _ => Text.notMem_of_mem_split,
          ?_, ?_, isWord_iff.mpr (by simpa using word)⟩
        · have filled : "" ∉ Text.split '/' package := by simpa [below] using wellFormed
          exact fun directory mem empty => filled (empty ▸ mem)
        · simpa using dotless

theorem packageFault?_eq_none_iff :
    packageFault? package = none ↔ ∃ directories, IsPackage package directories := by
  refine ⟨fun ok => ?_, fun ⟨directories, h⟩ => ?_⟩
  · by_cases below : package = ""
    · exact ⟨[], below ▸ isPackage_root⟩
    · exact ⟨_, isPackage_split ok below⟩
  · by_cases below : directories = []
    · obtain rfl := below
      obtain rfl : package = "" := h.path
      decide
    · have wellFormed : directories.any (· = "") = false := by simpa using h.named
      have dotless : directories.any (fun d => d = "." ∨ d = "..") = false := by
        simpa using h.dotless
      have word := isWord_iff.mp h.word
      simp only [packageFault?, h.split_eq below, wellFormed, dotless, word, Bool.false_eq_true,
        and_false, if_false]

theorem mem_intercalate {directory : String} {c : Char} (mem : directory ∈ directories)
    (isIn : c ∈ directory.toList) : c ∈ ("/".intercalate directories).toList := by
  induction directories with
  | nil => contradiction
  | cons first others ih =>
    cases others with
    | nil => simpa [List.mem_singleton.mp mem] using isIn
    | cons second others =>
      rw [String.intercalate_cons_cons, String.toList_append, String.toList_append]
      rcases List.mem_cons.mp mem with rfl | later
      · exact List.mem_append_left _ (List.mem_append_left _ isIn)
      · exact List.mem_append_right _ (ih later)

/-- A directory of a package would do as a name. -/
theorem IsPackage.directory (h : IsPackage package directories) {directory : String}
    (mem : directory ∈ directories) : directory ≠ "" ∧ IsWord directory :=
  ⟨h.named directory mem, fun c isIn => h.word c (h.path ▸ mem_intercalate mem isIn)⟩

/-! ### Reading -/

theorem checked_eq_ok_iff : checked package name = .ok l ↔ l.package = package ∧ l.name = name := by
  refine ⟨fun same => ?_, ?_⟩
  · unfold checked at same
    split at same
    · contradiction
    · split at same
      · contradiction
      · obtain rfl := Except.ok.inj same
        exact ⟨rfl, rfl⟩
  · rintro ⟨rfl, rfl⟩
    exact l.checked_eq

theorem parse_eq_ok_iff : parse text = .ok l ↔ read text = .ok l := by
  rw [parse]
  cases read text <;> simp [Except.mapError]

theorem read_short (flat : ':' ∉ rest.toList) : read ("//" ++ rest) = .ok l ↔
    packageFault? rest = none ∧ l.package = rest ∧ l.name = (Text.split '/' rest).getLastD "" := by
  have behind : Text.dropStart? ['/', '/'] ("//" ++ rest).toList = some rest.toList :=
    Text.dropStart?_eq_some_iff.mpr (by simp)
  have whole : Text.splitOnce? ':' rest = none := by
    have none : rest.toList.dropWhile (· ≠ ':') = [] :=
      List.dropWhile_eq_nil_iff.mpr fun c mem => by
        simpa using fun same : c = ':' => flat (same ▸ mem)
    rw [Text.splitOnce?, none]
  rw [read, behind]
  simp only [String.ofList_toList, whole]
  cases packageFault? rest with
  | some fault => simp
  | none =>
    by_cases last : (Text.split '/' rest).getLastD "" = ""
    · simp only [last, if_true]
      simpa using fun _ => l.name_ne_empty
    · simp only [last, if_false, checked_eq_ok_iff, true_and]

/-- A text that is read starts with two slashes, and names a target in full if a colon follows. -/
theorem read_cases (h : read text = .ok l) :
    (∃ package name, ':' ∉ package.toList ∧ text = fullText package name) ∨
      ∃ rest, ':' ∉ rest.toList ∧ text = "//" ++ rest := by
  unfold read at h
  split at h
  · contradiction
  · next rest found =>
    have start : text = "//" ++ String.ofList rest := by
      apply String.toList_inj.mp
      simpa using Text.dropStart?_eq_some_iff.mp found
    by_cases colon : ':' ∈ rest
    · obtain ⟨package, name, rfl, flat⟩ := List.eq_append_cons_of_mem colon
      refine .inl ⟨String.ofList package, String.ofList name, by simpa using flat, ?_⟩
      apply String.toList_inj.mp
      simp [start, fullText]
    · exact .inr ⟨String.ofList rest, by simpa using colon, start⟩

theorem spells_of_parse (h : parse text = .ok l) : Spells text l.package l.name := by
  rw [parse_eq_ok_iff] at h
  obtain ⟨package, name, flat, rfl⟩ | ⟨rest, flat, rfl⟩ := read_cases h
  · rw [read_fullText flat] at h
    obtain ⟨rfl, rfl⟩ := checked_eq_ok_iff.mp h
    obtain ⟨directories, isPackage⟩ := packageFault?_eq_none_iff.mp l.package_ok
    obtain ⟨named, word⟩ := nameFault?_eq_none_iff.mp l.name_ok
    exact .full isPackage named word
  · obtain ⟨ok, rfl, last⟩ := (read_short flat).mp h
    have below : l.package ≠ "" := fun root => l.name_ne_empty (by rw [last, root]; decide)
    refine .short (isPackage_split ok below) ?_
    rw [last, List.getLastD_eq_getLast?, List.getLast?_eq_getLast_of_ne_nil (Text.split_ne_nil _ _)]
    rfl

theorem exists_parse_of_spells (h : Spells text package name) :
    ∃ l, parse text = .ok l ∧ l.package = package ∧ l.name = name := by
  cases h with
  | full isPackage named word =>
    have package_ok := packageFault?_eq_none_iff.mpr ⟨_, isPackage⟩
    have name_ok := nameFault?_eq_none_iff.mpr ⟨named, word⟩
    have read := parse_text ⟨package, name, package_ok, name_ok⟩
    exact ⟨_, read, rfl, rfl⟩
  | @short _ _ directories isPackage last =>
    have package_ok := packageFault?_eq_none_iff.mpr ⟨_, isPackage⟩
    have name_ok := nameFault?_eq_none_iff.mpr
      (isPackage.directory (List.mem_of_getLast? last))
    have below : directories ≠ [] := List.ne_nil_of_mem (List.mem_of_getLast? last)
    have flat : ':' ∉ package.toList := fun mem => (isPackage.word ':' mem).2 rfl
    have read : parse ("//" ++ package) = .ok ⟨package, name, package_ok, name_ok⟩ := by
      rw [parse_eq_ok_iff, read_short flat, isPackage.split_eq below, List.getLastD_eq_getLast?,
        last]
      exact ⟨package_ok, rfl, rfl⟩
    exact ⟨_, read, rfl, rfl⟩

/-- To make a label of its parts is to read the text that they make in full, down to the fault. -/
theorem ofParts_eq_parse (flat : ':' ∉ package.toList) (name : String) :
    ofParts package name = parse (fullText package name) := by
  rw [ofParts, parse, read_fullText flat]

theorem resolve_colon (base : Label) (name : String) :
    base.resolve (":" ++ name) = parse (fullText base.package name) := by
  have rest : Text.dropStart? [':'] (":" ++ name).toList = some name.toList :=
    Text.dropStart?_eq_some_iff.mpr (by simp)
  rw [← ofParts_eq_parse base.colon_notMem_package, resolve, rest]
  simp only [String.ofList_toList]

/-- The JSON values of labels are their texts. -/
theorem decode_eq_some_iff {json : Json} :
    Coded.decode json = some l ↔ ∃ text, json = .string text ∧ parse text = .ok l := by
  cases json with
  | string text =>
    show (parse text).toOption = some l ↔ _
    cases read : parse text <;> simp [Except.toOption, read]
  | _ =>
    show none = some l ↔ _
    simp

/-- A text has a label exactly if it spells out a package and a name, and the label is the one of
that package and name; a JSON value has the label of its text. The text of any label is read back as
the label, so that labels are equal as their texts are. To make a label of a package and a name, and
to resolve a name in the package of another label, has the result of reading the text in full, be it
a label or the reason for which there is none. -/
theorem texts_identify_labels :
    (∀ text package name,
      (∃ l, parse text = .ok l ∧ l.package = package ∧ l.name = name) ↔
        Spells text package name) ∧
    (∀ (json : Json) (l : Label),
      Coded.decode json = some l ↔ ∃ text, json = .string text ∧ parse text = .ok l) ∧
    (∀ l : Label, parse l.text = .ok l) ∧
    (∀ a b : Label, a = b ↔ a.text = b.text) ∧
    (∀ package name, ':' ∉ package.toList →
      ofParts package name = parse ("//" ++ package ++ ":" ++ name)) ∧
    ∀ (base : Label) (name : String),
      base.resolve (":" ++ name) = parse ("//" ++ base.package ++ ":" ++ name) := by
  refine ⟨fun text package name => ⟨?_, exists_parse_of_spells⟩, fun json l => decode_eq_some_iff,
    parse_text, fun a b => ⟨congrArg text, fun same => ?_⟩,
    fun package name flat => ofParts_eq_parse flat name, resolve_colon⟩
  · rintro ⟨l, read, rfl, rfl⟩
    exact spells_of_parse read
  · have read := a.parse_text
    rw [same, b.parse_text] at read
    exact (Except.ok.inj read).symm

theorem texts_identify_labels_nested :
    (∃ l, parse "//objc/lib" = .ok l ∧ l.package = "objc/lib" ∧ l.name = "lib") ∧
      ':' ∉ "objc/lib".toList ∧ ofParts "objc/lib" "a:b" = parse "//objc/lib:a:b" ∧
      ofParts "objc/lib" "a:b" = .error ⟨"//objc/lib:a:b", .nameCharacter⟩ := by
  have isPackage : IsPackage "objc/lib" ["objc", "lib"] :=
    ⟨by decide, by decide, by decide, by decide, isWord_iff.mpr (by decide)⟩
  have flat : ':' ∉ "objc/lib".toList := by decide
  obtain ⟨spelled, _, _, _, made, _⟩ := texts_identify_labels
  exact ⟨(spelled _ _ _).mpr (.short isPackage rfl), flat, made "objc/lib" "a:b" flat,
    by decide +kernel⟩

end Label

end ObjcPlan
