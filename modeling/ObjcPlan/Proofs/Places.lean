import ObjcPlan.Facts
import ObjcPlan.Label
import ObjcPlan.Proofs.Components

/-! The places where plans write. What is written for a library is told by names below the directory
of its package (`Place`). If the target's own name is one name of a file, the components of a place
come to these names (`Place.texts_path`), and target and package can be read off from them, but for
one pair: the fully linked archive of one target can go by the name of the archive of another
(`Place.eq_or_shadows_of_components`). -/

namespace ObjcPlan

open ObjcPlan.Path

/-! ### Directories and names of labels -/

namespace Label

variable {l l' : Label}

/-- The directories of the package, from the outermost one on. -/
def directories (l : Label) : List String :=
  l.packagePath.steps.map Component.text

theorem segment_of_directory (named : l.package ≠ "") {directory : String}
    (mem : directory ∈ l.packagePath.segments) :
    Component.ofSegment? directory = some (.name directory) := by
  have ok := l.package_ok
  unfold packageFault? at ok
  dsimp only at ok
  split at ok
  · contradiction
  · next wellFormed =>
    split at ok
    · contradiction
    · next dotless =>
      have nonempty : directory ≠ "" := by
        rintro rfl
        exact wellFormed ⟨named, List.any_eq_true.mpr ⟨"", mem, by simp⟩⟩
      have notDots : ¬(directory = "." ∨ directory = "..") := fun dots =>
        dotless (List.any_eq_true.mpr ⟨directory, mem, by simpa using dots⟩)
      rw [not_or] at notDots
      simp [Component.ofSegment?, nonempty, notDots]

theorem intercalate_directories (l : Label) : "/".intercalate l.directories = l.package := by
  by_cases named : l.package = ""
  · have steps : l.packagePath.steps = [] := by
      rw [packagePath, named]
      rfl
    rw [directories, steps, named]
    rfl
  · have whole : l.directories = l.packagePath.segments := by
      rw [directories, steps, List.map_filterMap]
      calc l.packagePath.segments.filterMap (fun s => (Component.ofSegment? s).map Component.text)
          = l.packagePath.segments.filterMap some :=
            List.filterMap_congr fun s mem => by rw [segment_of_directory named mem]; rfl
        _ = l.packagePath.segments := List.filterMap_some
    rw [whole]
    exact l.packagePath.intercalate_segments

theorem isRooted_packagePath (l : Label) : l.packagePath.isRooted = false := by
  by_contra rooted
  rw [Bool.not_eq_false, isRooted, decide_eq_true_iff] at rooted
  obtain ⟨rest, chars⟩ := List.head?_eq_some_iff.mp rooted
  have text : l.package = "" ++ String.singleton '/' ++ String.ofList rest := by
    apply String.toList_inj.mp
    simpa [packagePath] using chars
  have named : l.package ≠ "" := by
    rw [text]
    simp
  have first : "" ∈ l.packagePath.segments := by
    show "" ∈ Text.split '/' l.package
    rw [text, Text.split_append]
    exact List.mem_append_left _ (by simp [Text.split_eq_singleton])
  simpa [Component.ofSegment?] using segment_of_directory named first

theorem texts_join_package {p : Path} (named : p.text ≠ "") :
    (p / l.packagePath).texts = p.texts ++ l.directories := by
  rw [texts, components_join named l.isRooted_packagePath, List.map_append]
  rfl

/-- Whether the name of the target names a file of its directory: it has no slash and is no dot. -/
def IsFlat (l : Label) : Prop :=
  '/' ∉ l.name.toList ∧ l.name ≠ "."

instance (l : Label) : Decidable l.IsFlat :=
  inferInstanceAs (Decidable (_ ∧ _))

theorem IsFlat.isSegment (flat : l.IsFlat) : IsSegment l.name := by
  refine ⟨flat.1, ?_⟩
  rw [Component.ofSegment?, if_neg (by simp [l.name_ne_empty, flat.2])]
  split <;> exact ⟨_, rfl⟩

end Label

/-! ### Places -/

/-- What is written for a library. Compilations are told by the kind of reference counting, the
number of their directory, if it has one, and the stem of the source. -/
inductive Place
  | object (arc : Bool) (index : Option Nat) (stem : String)
  | depFile (arc : Bool) (index : Option Nat) (stem : String)
  | archive
  | objlist
  | fullyLinked
  | moduleMap

namespace Place

variable {place place' : Place} {name name' : String} {facts : Facts}

/-- The directories in which a compilation writes, below the directory of the package. -/
def bucket (name : String) (arc : Bool) (index : Option Nat) : List String :=
  ["_objs", name, if arc then "arc" else "non_arc"] ++ index.toList.map toString

/-- The names that lead from the directory of the package to the file, for a target's name. -/
def names (name : String) : Place → List String
  | object arc index stem => bucket name arc index ++ [stem ++ ".o"]
  | depFile arc index stem => bucket name arc index ++ [replaceExtension (stem ++ ".o") "d"]
  | archive => ["lib" ++ name ++ ".a"]
  | objlist => [name ++ "-archive.objlist"]
  | fullyLinked => [name ++ "_fully_linked.a"]
  | moduleMap => [name ++ ".modulemaps", "module.modulemap"]

def root (place : Place) (facts : Facts) : Path :=
  match place with
  | moduleMap => facts.genfilesDir
  | _ => facts.binDir

def path (place : Place) (label : Label) (facts : Facts) : Path :=
  (place.root facts / label.packagePath).descend (place.names label.name)

/-- Whether the stem of the source, if there is one, has no slash. -/
def IsFlat : Place → Prop
  | object _ _ stem | depFile _ _ stem => '/' ∉ stem.toList
  | _ => True

theorem isDigit_of_mem_toString {n : Nat} : ∀ c ∈ (toString n).toList, c.isDigit = true := by
  show ∀ c ∈ (String.ofList (Nat.toDigits 10 n)).toList, _
  rw [String.toList_ofList]
  exact fun c => Nat.isDigit_of_mem_toDigits (by omega) (by omega)

theorem isSegment_toString (n : Nat) : IsSegment (toString n) := by
  cases last : (toString n).toList.getLast? with
  | none =>
    have empty : (String.ofList (Nat.toDigits 10 n)).toList = [] :=
      List.getLast?_eq_none_iff.mp last
    rw [String.toList_ofList] at empty
    exact absurd empty Nat.toDigits_ne_nil
  | some c =>
    refine (IsSegment.of_last (fun slash => ?_) last ?_).1
    · exact absurd (isDigit_of_mem_toString _ slash) (by decide)
    · rintro rfl
      exact absurd (isDigit_of_mem_toString _ (List.mem_of_getLast? last)) (by decide)

theorem isSegment_of_mem_names (flat : place.IsFlat) (segment : IsSegment name) :
    ∀ s ∈ place.names name, IsSegment s := by
  have bucket_segments (arc : Bool) (index : Option Nat) :
      ∀ s ∈ bucket name arc index, IsSegment s := by
    intro s mem
    simp only [bucket, List.cons_append, List.nil_append, List.mem_cons, List.mem_map,
      Option.mem_toList] at mem
    rcases mem with rfl | rfl | rfl | ⟨n, _, rfl⟩
    · exact ⟨by decide, _, rfl⟩
    · exact segment
    · cases arc <;> exact ⟨by decide, _, rfl⟩
    · exact isSegment_toString n
  have ends {s : String} {c : Char} (noSlash : '/' ∉ s.toList)
      (last : s.toList.getLast? = some c) (notDot : c ≠ '.') : IsSegment s :=
    (IsSegment.of_last noSlash last notDot).1
  intro s mem
  cases place with
  | object arc index stem =>
    rcases List.mem_append.mp mem with inBucket | isLeaf
    · exact bucket_segments arc index s inBucket
    · obtain rfl := List.mem_singleton.mp isLeaf
      have flat : '/' ∉ stem.toList := flat
      exact ends (by simpa using flat) (last_append stem (c := 'o') (by decide)) (by decide)
  | depFile arc index stem =>
    rcases List.mem_append.mp mem with inBucket | isLeaf
    · exact bucket_segments arc index s inBucket
    · obtain rfl := List.mem_singleton.mp isLeaf
      have flat : '/' ∉ stem.toList := flat
      exact isSegment_replaceExtension (c := 'd') (by simpa using flat) (by decide) (by decide)
        (by decide)
  | archive =>
    obtain rfl := List.mem_singleton.mp mem
    exact ends (by simpa using segment.1) (last_append _ (c := 'a') (by decide)) (by decide)
  | objlist =>
    obtain rfl := List.mem_singleton.mp mem
    exact ends (by simpa using segment.1) (last_append _ (c := 't') (by decide)) (by decide)
  | fullyLinked =>
    obtain rfl := List.mem_singleton.mp mem
    exact ends (by simpa using segment.1) (last_append _ (c := 'a') (by decide)) (by decide)
  | moduleMap =>
    rcases List.mem_cons.mp mem with rfl | isLeaf
    · exact ends (by simpa using segment.1) (last_append _ (c := 's') (by decide)) (by decide)
    · obtain rfl := List.mem_singleton.mp isLeaf
      exact ⟨by decide, _, rfl⟩

theorem texts_path {label : Label} (named : (place.root facts).text ≠ "") (flat : place.IsFlat)
    (flat' : label.IsFlat) : (place.path label facts).texts =
      (place.root facts).texts ++ label.directories ++ place.names label.name := by
  rw [path, texts_descend (join_text_ne named) (isSegment_of_mem_names flat flat'.isSegment),
    label.texts_join_package named]

/-! ### Telling places apart -/

/-- The characters with which the last name of the place can end. -/
def marks : Place → List Char
  | object .. => ['o']
  | depFile .. => ['d', '.']
  | archive | fullyLinked => ['a']
  | objlist => ['t']
  | moduleMap => ['p']

theorem replaceExtension_cases (name : String) :
    replaceExtension name "d" = ".." ∨
      (replaceExtension name "d").toList.getLast? = some 'd' := by
  unfold replaceExtension
  dsimp only
  split
  · exact .inl rfl
  · exact .inr (by simp)

theorem exists_mark (place : Place) (name : String) : ∃ last,
    (place.names name).getLast? = some last ∧ ∃ c ∈ place.marks, last.toList.getLast? = some c := by
  cases place with
  | object arc index stem =>
    exact ⟨_, List.getLast?_concat, 'o', List.mem_singleton_self _, last_append _ (by decide)⟩
  | depFile arc index stem =>
    refine ⟨_, List.getLast?_concat, ?_⟩
    rcases replaceExtension_cases (stem ++ ".o") with up | last
    · exact ⟨'.', List.mem_cons_of_mem _ List.mem_cons_self, by rw [up]; decide⟩
    · exact ⟨'d', List.mem_cons_self, last⟩
  | archive => exact ⟨_, rfl, 'a', by decide, last_append _ (by decide)⟩
  | objlist => exact ⟨_, rfl, 't', by decide, last_append _ (by decide)⟩
  | fullyLinked => exact ⟨_, rfl, 'a', by decide, last_append _ (by decide)⟩
  | moduleMap => exact ⟨"module.modulemap", rfl, 'p', by decide, by decide⟩

/-- Whether a file is the fully linked archive of one target and goes by the name of the archive of
another. -/
def Shadows (place place' : Place) (name name' : String) : Prop :=
  place = fullyLinked ∧ place' = archive ∧ name ++ "_fully_linked" = "lib" ++ name'

theorem shadows_of_names (same : name ++ "_fully_linked.a" = "lib" ++ name' ++ ".a") :
    Shadows fullyLinked archive name name' := by
  refine ⟨rfl, rfl, ?_⟩
  have whole : (name ++ "_fully_linked") ++ ".a" = ("lib" ++ name') ++ ".a" := by
    rw [String.append_assoc]
    exact same
  exact (String.append_left_inj _).mp whole

theorem toString_ne (n : Nat) (arc : Bool) : toString n ≠ if arc then "arc" else "non_arc" := by
  intro same
  have digits := isDigit_of_mem_toString (n := n)
  rw [same] at digits
  cases arc with
  | true => exact absurd (digits 'a' (by decide)) (by decide)
  | false => exact absurd (digits 'n' (by decide)) (by decide)

theorem bucket_inj {top top' : List String} {arc arc' : Bool} {index index' : Option Nat}
    (same : top ++ bucket name arc index = top' ++ bucket name' arc' index') :
    top = top' ∧ name = name' := by
  have last := congrArg List.getLast? same
  -- a numbered directory never meets one that is not numbered, else both lists end alike
  cases index with
  | none =>
    cases index' with
    | none =>
      obtain ⟨tops, names⟩ := List.append_inj' same rfl
      exact ⟨tops, (List.cons.inj (List.cons.inj names).2).1⟩
    | some n => exact absurd (by simpa [bucket] using last.symm) (toString_ne n arc)
  | some n =>
    cases index' with
    | none => exact absurd (by simpa [bucket] using last) (toString_ne n arc')
    | some n' =>
      obtain ⟨tops, names⟩ := List.append_inj' same rfl
      exact ⟨tops, (List.cons.inj (List.cons.inj names).2).1⟩

theorem bucket_inj_of_leaf {top top' : List String} {arc arc' : Bool} {index index' : Option Nat}
    {leaf leaf' : String}
    (same : top ++ (bucket name arc index ++ [leaf]) =
      top' ++ (bucket name' arc' index' ++ [leaf'])) : top = top' ∧ name = name' := by
  rw [← List.append_assoc, ← List.append_assoc] at same
  exact bucket_inj (List.append_inj' same rfl).1

/-- The names that lead to a file tell where they start and whose file it is, unless it is an
archive that is called like another. -/
theorem names_inj {top top' : List String}
    (same : top ++ place.names name = top' ++ place'.names name') :
    top = top' ∧ place.root = place'.root ∧
      (name = name' ∨ Shadows place place' name name' ∨ Shadows place' place name' name) := by
  -- the last names are the same, and so are the characters with which they end
  obtain ⟨last, isLast, c, mem, ends⟩ := place.exists_mark name
  obtain ⟨last', isLast', c', mem', ends'⟩ := place'.exists_mark name'
  have lasts := congrArg List.getLast? same
  rw [List.getLast?_append, List.getLast?_append, isLast, isLast'] at lasts
  obtain rfl := Option.some.inj lasts
  obtain rfl := Option.some.inj (ends.symm.trans ends')
  -- places whose last names can end alike are of one kind, or two archives
  cases place with
  | object arc index stem =>
    cases place' with
    | object arc' index' stem' =>
      obtain ⟨tops, names⟩ := bucket_inj_of_leaf same
      exact ⟨tops, rfl, .inl names⟩
    | _ => simp_all [marks]
  | depFile arc index stem =>
    cases place' with
    | depFile arc' index' stem' =>
      obtain ⟨tops, names⟩ := bucket_inj_of_leaf same
      exact ⟨tops, rfl, .inl names⟩
    | _ => simp_all [marks]
  | archive =>
    cases place' with
    | archive =>
      obtain ⟨tops, names⟩ := List.append_inj' same rfl
      exact ⟨tops, rfl, .inl (by simpa [Place.names] using names)⟩
    | fullyLinked =>
      obtain ⟨tops, names⟩ := List.append_inj' same rfl
      exact ⟨tops, rfl, .inr (.inr (shadows_of_names (List.singleton_inj.mp names).symm))⟩
    | _ => simp_all [marks]
  | objlist =>
    cases place' with
    | objlist =>
      obtain ⟨tops, names⟩ := List.append_inj' same rfl
      exact ⟨tops, rfl, .inl (by simpa [Place.names] using names)⟩
    | _ => simp_all [marks]
  | fullyLinked =>
    cases place' with
    | fullyLinked =>
      obtain ⟨tops, names⟩ := List.append_inj' same rfl
      exact ⟨tops, rfl, .inl (by simpa [Place.names] using names)⟩
    | archive =>
      obtain ⟨tops, names⟩ := List.append_inj' same rfl
      exact ⟨tops, rfl, .inr (.inl (shadows_of_names (List.singleton_inj.mp names)))⟩
    | _ => simp_all [marks]
  | moduleMap =>
    cases place' with
    | moduleMap =>
      obtain ⟨tops, names⟩ := List.append_inj' same rfl
      exact ⟨tops, rfl, .inl (by simpa [Place.names] using names)⟩
    | _ => simp_all [marks]

/-- Two files of different targets are at different places, unless one is shadowed by the other. -/
theorem eq_or_shadows_of_components {label label' : Label}
    (named : ∀ place : Place, (place.root facts).text ≠ "") (flat : place.IsFlat)
    (flat' : place'.IsFlat) (labelFlat : label.IsFlat) (labelFlat' : label'.IsFlat)
    (same : (place.path label facts).components = (place'.path label' facts).components) :
    label.package = label'.package ∧ (label.name = label'.name ∨
      Shadows place place' label.name label'.name ∨
      Shadows place' place label'.name label.name) := by
  have texts : (place.path label facts).texts = (place'.path label' facts).texts :=
    congrArg (List.map Component.text) same
  rw [texts_path (named place) flat labelFlat, texts_path (named place') flat' labelFlat'] at texts
  obtain ⟨tops, roots, names⟩ := names_inj texts
  rw [roots] at tops
  have directories : label.directories = label'.directories := List.append_cancel_left tops
  refine ⟨?_, names⟩
  rw [← label.intercalate_directories, directories, label'.intercalate_directories]

end Place

end ObjcPlan
