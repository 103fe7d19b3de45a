import ObjcPlan.Proofs.Containment
import ObjcPlan.Proofs.FileNames

/-! Where one library writes. Its compilations are told apart by the kind of reference counting, the
number of the directory and the stem of the source, and its other files by how their names end, so
that nothing is written twice (`Library.analyze_writes_apart`), whatever the name of the target. -/

namespace ObjcPlan

open ObjcPlan.Path

/-! ### Stems -/

namespace Path

theorem stem_ne_empty_of_cutExtension {name extension : String}
    (cut : (cutExtension name).2 = some extension) : (cutExtension name).1 ≠ "" := by
  unfold cutExtension at *
  split at cut
  · contradiction
  · contradiction
  · next stem more _ =>
    simpa using more

theorem cutExtension_object_of_ne {stem : String} (named : stem ≠ "") :
    (cutExtension (stem ++ ".o")).1 = stem := by
  rw [cutExtension_object, if_neg named]

theorem replaceExtension_object_inj {stem stem' : String} (named : stem ≠ "") (named' : stem' ≠ "")
    (same : replaceExtension (stem ++ ".o") "d" = replaceExtension (stem' ++ ".o") "d") :
    stem = stem' := by
  by_cases dot : stem = "."
  · by_cases dot' : stem' = "."
    · rw [dot, dot']
    · exact absurd (same.symm.trans (by rw [dot]; decide)) (replaceExtension_object_ne dot')
  · by_cases dot' : stem' = "."
    · exact absurd (same.trans (by rw [dot']; decide)) (replaceExtension_object_ne dot)
    · simpa [replaceExtension, cutExtension_object_of_ne named, cutExtension_object_of_ne named',
        dot, dot', String.append_assoc] using same

end Path

theorem Library.stem_ne_empty {t : Library} {source : Library.Source}
    (compiled : source ∈ t.compiledSources) : source.file.stem?.getD "" ≠ "" := by
  obtain ⟨language, isLanguage⟩ := language_of_mem compiled
  cases extension : source.file.extension? with
  | none => simp [FileKind.ofPath, extension, FileKind.language?] at isLanguage
  | some text =>
    obtain ⟨name, named, cut⟩ := exists_fileName?_of_extension? extension
    rw [stem?, named]
    exact stem_ne_empty_of_cutExtension cut

/-- What is put before a text changes its last piece only if that is its first. -/
theorem Text.last_of_splitOn_flat_append {separator : Char} {l s piece piece' : List Char}
    {front front' : List (List Char)} (flat : separator ∉ l)
    (pieces : s.splitOn separator = front ++ [piece])
    (pieces' : (l ++ s).splitOn separator = front' ++ [piece']) :
    piece' = piece ∨ piece' = l ++ piece := by
  obtain ⟨first, rest, whole, longer⟩ := exists_splitOn_flat_append s flat
  have last := congrArg List.getLast? (whole.symm.trans pieces)
  have last' := congrArg List.getLast? (longer.symm.trans pieces')
  rw [List.getLast?_concat] at last last'
  cases rest with
  | nil =>
    obtain rfl : first = piece := Option.some.inj last
    exact .inr (Option.some.inj last').symm
  | cons second others =>
    rw [List.getLast?_cons_cons] at last last'
    exact .inl (Option.some.inj (last'.symm.trans last))

/-! ### Numbers -/

theorem count_take_lt {α : Type} [BEq α] [LawfulBEq α] {l : List α} {a : α} {i j : Nat}
    (before : i < j) (isThere : l[i]? = some a) : (l.take i).count a < (l.take j).count a :=
  calc (l.take i).count a
      < (l.take i).count a + 1 := Nat.lt_succ_self _
    _ = (l.take (i + 1)).count a := by
      rw [List.take_add_one, isThere, List.count_append]
      simp
    _ ≤ (l.take j).count a := (List.take_prefix_take_left before).sublist.count_le a

namespace Library

variable {t : Library}

/-- Two sources of one directory with one stem have different numbers. -/
theorem number?_inj {s : Bool × String} {i j : Nat} (isThere : t.stems[i]? = some s)
    (isThere' : t.stems[j]? = some s) (same : t.number? (s, i) = t.number? (s, j)) : i = j := by
  -- the later one counts the earlier one
  have different {i j : Nat} (before : i < j) (isThere : t.stems[i]? = some s)
      (isThere' : t.stems[j]? = some s) : t.number? (s, i) ≠ t.number? (s, j) := by
    have fewer := count_take_lt before isThere
    have fewer' := count_take_lt (List.getElem?_eq_some_iff.mp isThere').1 isThere'
    rw [List.take_length] at fewer'
    have many : t.stems.count s > 1 := by omega
    simp only [number?, if_pos many]
    intro same
    have := Option.some.inj same
    omega
  rcases Nat.lt_trichotomy i j with before | equal | behind
  · exact absurd same (different before isThere isThere')
  · exact equal
  · exact absurd same.symm (different behind isThere' isThere)

end Library

/-! ### Telling the places of a library apart -/

namespace Path

theorem descend_concat (p : Path) (names : List String) (s : String) :
    p.descend (names ++ [s]) = p.descend names / s := by
  simp [descend]

end Path

namespace Place

variable {place place' : Place} {label : Label} {facts : Facts}

/-- The last component of a file ends with one of the marks of its place. -/
theorem exists_last_texts (place : Place) (label : Label) (facts : Facts) : ∃ text,
    (place.path label facts).texts.getLast? = some text ∧
      ∃ c ∈ place.marks, text.toList.getLast? = some c := by
  obtain ⟨last, isLast, c, mem, ends⟩ := place.exists_mark label.name
  obtain ⟨front, whole⟩ := List.getLast?_eq_some_iff.mp isLast
  rw [path, whole, descend_concat]
  by_cases dot : c = '.'
  · -- only a dependency file that is called `..` ends with a dot
    obtain rfl : last = ".." := by
      cases place with
      | depFile arc index stem =>
        obtain rfl : replaceExtension (stem ++ ".o") "d" = last :=
          Option.some.inj (List.getLast?_concat.symm.trans isLast)
        rcases replaceExtension_cases (stem ++ ".o") with up | last
        · exact up
        · exact absurd (Option.some.inj (last.symm.trans ends)) (by simp [dot])
      | _ => simp [marks, dot] at mem
    rw [dot] at mem ends
    exact ⟨"..", getLast?_texts_join_up _, '.', mem, ends⟩
  · have notSlash : c ≠ '/' := by
      rintro rfl
      cases place <;> simp [marks] at mem
    obtain ⟨text, isText, ends⟩ := Path.exists_last_texts (last_join ends) notSlash dot
    exact ⟨text, isText, c, mem, ends⟩

theorem toString_inj {m n : Nat} (same : toString m = toString n) : m = n := by
  have digits : Nat.toDigits 10 m = Nat.toDigits 10 n := String.ofList_inj.mp same
  rw [← Nat.ofDigitChars_ten_toDigits (n := m), digits, Nat.ofDigitChars_ten_toDigits]

theorem texts_compiled {leaf : String} (segment : IsSegment leaf) (arc : Bool)
    (index : Option Nat) :
    ((facts.binDir / label.packagePath).descend (bucket label.name arc index ++ [leaf])).texts =
      (facts.binDir / label.packagePath / "_objs" / label.name).texts ++
        ((if arc then "arc" else "non_arc") :: (index.toList.map toString ++ [leaf])) := by
  have named : (facts.binDir / label.packagePath / "_objs" / label.name).text ≠ "" :=
    join_text_ne (join_name_text_ne (by decide))
  refine texts_descend named ?_
  refine List.forall_mem_cons.mpr ⟨?_, List.forall_mem_append.mpr
    ⟨List.forall_mem_map.mpr fun n _ => isSegment_toString n,
      List.forall_mem_singleton.mpr segment⟩⟩
  cases arc <;> exact ⟨by decide, _, rfl⟩

theorem compiled_inj {arc arc' : Bool} {index index' : Option Nat} {leaf leaf' : String}
    (segment : IsSegment leaf) (segment' : IsSegment leaf')
    (same : ((facts.binDir / label.packagePath).descend
        (bucket label.name arc index ++ [leaf])).components =
      ((facts.binDir / label.packagePath).descend
        (bucket label.name arc' index' ++ [leaf'])).components) :
    arc = arc' ∧ index = index' ∧ leaf = leaf' := by
  have texts := congrArg (List.map Component.text) same
  have texts := (texts_compiled segment arc index).symm.trans
    (texts.trans (texts_compiled segment' arc' index'))
  obtain ⟨directories, rest⟩ := List.cons.inj (List.append_cancel_left texts)
  obtain ⟨numbers, leaves⟩ := List.append_inj' rest rfl
  refine ⟨?_, ?_, List.singleton_inj.mp leaves⟩
  · cases arc <;> cases arc' <;> first | rfl | exact absurd directories (by decide)
  · rcases index with _ | n <;> rcases index' with _ | n'
    · rfl
    · cases numbers
    · cases numbers
    · exact congrArg some (toString_inj (List.singleton_inj.mp numbers))

theorem fileName?_archive (label : Label) (facts : Facts) : ∃ front piece,
    ("lib" ++ label.name).toList.splitOn '/' = front ++ [piece] ∧
      (archive.path label facts).fileName? = some (String.ofList piece ++ ".a") := by
  obtain ⟨front, piece, pieces, named⟩ :=
    exists_fileName?_append (s := "lib" ++ label.name) (t := ".a") (c := 'a') (by decide)
      (by decide) (by decide)
  exact ⟨front, piece, pieces, fileName?_join named⟩

theorem fileName?_fullyLinked (label : Label) (facts : Facts) : ∃ front piece,
    label.name.toList.splitOn '/' = front ++ [piece] ∧
      (fullyLinked.path label facts).fileName? =
        some (String.ofList piece ++ "_fully_linked.a") := by
  obtain ⟨front, piece, pieces, named⟩ :=
    exists_fileName?_append (s := label.name) (t := "_fully_linked.a") (c := 'a') (by decide)
      (by decide) (by decide)
  exact ⟨front, piece, pieces, fileName?_join named⟩

/-- The archive and the fully linked archive of a target do not go by one name, since the last piece
of its name is never so much longer behind `lib`. -/
theorem archive_ne_fullyLinked (label : Label) (facts : Facts) :
    (archive.path label facts).components ≠ (fullyLinked.path label facts).components := by
  obtain ⟨front, piece, pieces, named⟩ := fileName?_archive label facts
  obtain ⟨front', piece', pieces', named'⟩ := fileName?_fullyLinked label facts
  intro same
  have names : String.ofList piece ++ ".a" = String.ofList piece' ++ "_fully_linked.a" := by
    rw [fileName?, same] at named
    exact Option.some.inj (named.symm.trans named')
  have lengths : piece.length + ".a".length = piece'.length + "_fully_linked.a".length := by
    simpa using congrArg String.length names
  have flat : '/' ∉ "lib".toList := by decide
  rw [String.toList_append] at pieces
  rcases Text.last_of_splitOn_flat_append flat pieces' pieces with rfl | rfl
  · exact absurd (Nat.add_left_cancel lengths) (by decide)
  · rw [List.length_append, Nat.add_comm _ piece'.length, Nat.add_assoc] at lengths
    exact absurd (Nat.add_left_cancel lengths) (by decide)

/-- The places of a library are told apart by the components of their paths. -/
theorem eq_of_components {t : Library} (isOf : place.IsOf t) (isOf' : place'.IsOf t)
    (same : (place.path label facts).components = (place'.path label facts).components) :
    place = place' := by
  -- the last components are the same, and so are the characters with which they end
  obtain ⟨text, isLast, c, mem, ends⟩ := place.exists_last_texts label facts
  obtain ⟨text', isLast', c', mem', ends'⟩ := place'.exists_last_texts label facts
  rw [texts, same] at isLast
  obtain rfl := Option.some.inj (isLast.symm.trans isLast')
  obtain rfl := Option.some.inj (ends.symm.trans ends')
  cases place with
  | object arc index stem =>
    cases place' with
    | object arc' index' stem' =>
      obtain ⟨rfl, rfl, leaves⟩ :=
        compiled_inj (isSegment_object isOf.isFlat).1 (isSegment_object isOf'.isFlat).1 same
      rw [(String.append_left_inj _).mp leaves]
    | _ => simp_all [marks]
  | depFile arc index stem =>
    cases place' with
    | depFile arc' index' stem' =>
      obtain ⟨rfl, rfl, leaves⟩ :=
        compiled_inj (isSegment_depFile isOf.isFlat) (isSegment_depFile isOf'.isFlat) same
      obtain ⟨source, compiled, rfl⟩ := isOf
      obtain ⟨source', compiled', rfl⟩ := isOf'
      rw [replaceExtension_object_inj (Library.stem_ne_empty compiled)
        (Library.stem_ne_empty compiled') leaves]
    | _ => simp_all [marks]
  | archive =>
    cases place' with
    | archive => rfl
    | fullyLinked => exact absurd same (archive_ne_fullyLinked label facts)
    | _ => simp_all [marks]
  | objlist =>
    cases place' with
    | objlist => rfl
    | _ => simp_all [marks]
  | fullyLinked =>
    cases place' with
    | fullyLinked => rfl
    | archive => exact absurd same.symm (archive_ne_fullyLinked label facts)
    | _ => simp_all [marks]
  | moduleMap =>
    cases place' with
    | moduleMap => rfl
    | _ => simp_all [marks]

/-- Different places of a library make paths with different components. -/
theorem pairwise_path {t : Library} {places : List Place} (nodup : places.Nodup)
    (isOf : ∀ place ∈ places, place.IsOf t) (label : Label) (facts : Facts) :
    (places.map (·.path label facts)).Pairwise fun p q => p.components ≠ q.components :=
  List.pairwise_map.mpr (nodup.imp_of_mem fun mem mem' different same =>
    different (eq_of_components (isOf _ mem) (isOf _ mem') same))

end Place

namespace Library

variable {t : Library}

theorem eq_of_number? {entry entry' : (Bool × String) × Nat} (mem : entry ∈ t.stems.zipIdx)
    (mem' : entry' ∈ t.stems.zipIdx) (arcs : entry.1.1 = entry'.1.1)
    (stems : entry.1.2 = entry'.1.2) (numbers : t.number? entry = t.number? entry') :
    entry = entry' := by
  obtain ⟨s, i⟩ := entry
  obtain ⟨s', j⟩ := entry'
  obtain rfl : s = s' := Prod.ext arcs stems
  exact Prod.ext rfl (number?_inj (List.mem_zipIdx_iff_getElem?.mp mem)
    (List.mem_zipIdx_iff_getElem?.mp mem') numbers)

theorem nodup_compilePlaces (t : Library) : t.compilePlaces.Nodup := by
  have entries : t.stems.zipIdx.Nodup := by
    refine List.Nodup.of_map Prod.snd ?_
    rw [List.zipIdx_map_snd]
    exact List.nodup_range'
  refine List.nodup_flatMap.mpr ⟨fun entry _ => by simp, entries.imp_of_mem ?_⟩
  intro entry entry' mem mem' different
  have apart (arcs : entry.1.1 = entry'.1.1) (numbers : t.number? entry = t.number? entry')
      (stems : entry.1.2 = entry'.1.2) : False :=
    different (eq_of_number? mem mem' arcs stems numbers)
  simp only [List.disjoint_cons_left, List.mem_cons, Place.object.injEq, Place.depFile.injEq,
    List.not_mem_nil, reduceCtorEq, or_false, false_or, List.disjoint_nil_left, Function.onFun]
  tauto

end Library

theorem AnalyzedLibrary.nodup_places (l : AnalyzedLibrary) (t : Library) : (l.places t).Nodup := by
  have others : ((l.archive.toList.map fun _ => Place.archive) ++
      ((l.fullyLinked.toList.map fun _ => Place.fullyLinked) ++
        ((l.moduleMap.write?.toList.map fun _ => Place.moduleMap) ++
          l.archive.toList.map fun _ => Place.objlist))).Nodup := by
    cases l.archive <;> cases l.fullyLinked <;> cases l.moduleMap.write? <;> simp
  simp only [places, List.append_assoc]
  refine List.nodup_append'.mpr ⟨t.nodup_compilePlaces, others, fun place mem mem' => ?_⟩
  obtain ⟨entry, _, isOne⟩ := List.mem_flatMap.mp mem
  simp only [List.mem_cons, List.not_mem_nil, or_false] at isOne
  rcases isOne with rfl | rfl <;> simp at mem'

/-- The objects of a library and their dependency files have paths of their own. If the library is
accepted, so have all files that are written for it: these, the archive, the fully linked archive,
the module map that is generated, and the list of what is archived. -/
theorem Library.analyze_writes_apart (t : Library) (dependencies : List Dependency)
    (facts : Facts) :
    ((objectPaths t facts.binDir).flatMap fun object => [object, object.withExtension "d"]).Pairwise
        (fun p q => p.components ≠ q.components) ∧
      ∀ warnings, Validation.check ⟨facts.disableResources⟩ t = .ok warnings →
        ∃ l, t.analyze dependencies facts = .ok l ∧
          l.writtenPaths =
            l.compiles.flatMap (fun e => [e.object, e.depFile]) ++
              l.archive.toList.map ArchivePlan.archive ++
              l.fullyLinked.toList.map FullyLinkedPlan.archive ++
              l.moduleMap.write?.toList.map FileWrite.output ++
              l.archive.toList.map (fun plan => plan.objlist.output) ∧
          l.writtenPaths.Pairwise fun p q => p.components ≠ q.components := by
  constructor
  · rw [t.flatMap_objectPaths]
    exact Place.pairwise_path t.nodup_compilePlaces (fun _ => isOf_of_mem_compilePlaces) _ _
  · intro warnings accepted
    obtain ⟨l, analyzed⟩ := exists_analyze accepted dependencies
    have planned := plannedFor_of_analyze analyzed
    refine ⟨l, analyzed, planned.writtenPaths_eq, ?_⟩
    rw [planned.writtenPaths_eq_map]
    exact Place.pairwise_path (l.nodup_places t)
      (fun _ mem => (AnalyzedLibrary.PlannedFor.isOf_of_mem_places mem).1) _ _

namespace Stems

/-- A library whose sources have few different stems, one of them `.`. -/
def library : Library where
  label := ⟨"stems", "stems", by decide, by decide⟩
  srcs := ["a.m", "b/a.m", "a.m", "a.0.m", "..m", "a.c", "a.h"]
  nonArcSrcs := ["c/a.m"]

theorem accepted (policy : Validation.Policy) :
    ∃ warnings, Validation.check policy library = .ok warnings := by
  obtain ⟨_ | _⟩ := policy <;> exact exists_of_isOk (by decide)

end Stems

theorem Library.analyze_writes_apart_stems :
    ∃ facts l, Facts.resolve {} (.xcode Toolchain.defaultRoot) = .ok facts ∧
      Stems.library.analyze [] facts = .ok l ∧ l.compiles.length = 7 ∧
      l.writtenPaths.Pairwise fun p q => p.components ≠ q.components := by
  obtain ⟨facts, resolved⟩ := Outlets.exists_facts
  obtain ⟨warnings, accepted⟩ := Stems.accepted ⟨facts.disableResources⟩
  obtain ⟨l, analyzed, _, apart⟩ :=
    (Stems.library.analyze_writes_apart [] facts).2 warnings accepted
  exact ⟨facts, l, resolved, analyzed,
    (plannedFor_of_analyze analyzed).length_compiles.trans (by decide), apart⟩

end ObjcPlan
