import ObjcPlan.Proofs.SourceFiles

/-! How references are counted. The attribute that lists a source says whether the compiler counts
them, and the last option of a compilation about it is the one for this attribute, whatever
definitions, user options and paths stand before and behind it
(`Library.compiles_count_as_declared`). -/

namespace ObjcPlan

open ObjcPlan.Path

/-- The options that say how references are counted. -/
def countingOptions : List String :=
  ["-fobjc-arc", "-fno-objc-arc"]

/-- The last argument that says how references are counted. -/
def lastCountingOption? (arguments : List String) : Option String :=
  arguments.reverse.find? (· ∈ countingOptions)

theorem Language.usesArc_iff {language : Language} :
    language.usesArc = true ↔ language = .objc ∨ language = .objcpp := by
  cases language <;> decide

namespace SourceAttribute

/-- Whether references are counted automatically in the sources of the attribute. -/
def arc : SourceAttribute → Bool
  | srcs => true
  | nonArcSrcs => false

def countingOption : SourceAttribute → String
  | srcs => "-fobjc-arc"
  | nonArcSrcs => "-fno-objc-arc"

end SourceAttribute

namespace Library

/-- A file to compile and the attribute that lists it. -/
structure DeclaredSource where
  listedIn : SourceAttribute
  file : Path

def listed (t : Library) : SourceAttribute → List Path
  | .srcs => t.srcs
  | .nonArcSrcs => t.nonArcSrcs

/-- The files to compile: those of `srcs` and then those of `nonArcSrcs`, in order. -/
def declaredSources (t : Library) : List DeclaredSource :=
  [.srcs, .nonArcSrcs].flatMap fun a =>
    ((t.listed a).filter fun file => (FileKind.ofPath file).language?.isSome).map (⟨a, ·⟩)

theorem compiledSources_eq_map (t : Library) :
    t.compiledSources = t.declaredSources.map fun d => ⟨d.file, d.listedIn.arc⟩ := by
  simp [compiledSources, declaredSources, listed, SourceAttribute.arc, Function.comp_def]

end Library

/-- Whether the compilation is that of the declared source and counts references as its attribute
says, if the source is in Objective-C or Objective-C++. -/
structure CompileEntry.CountsAsDeclared (t : Library) (d : Library.DeclaredSource)
    (e : CompileEntry) : Prop where
  source : e.source = t.label.execPath d.file
  arc : e.arc = d.listedIn.arc
  language : FileKind.ofPath d.file = .source e.language
  option : e.language = .objc ∨ e.language = .objcpp →
    lastCountingOption? e.action.arguments = some d.listedIn.countingOption

theorem lastCountingOption?_append {l m : List String} {option : String}
    (counts : option ∈ countingOptions) (others : ∀ text ∈ m, text ∉ countingOptions) :
    lastCountingOption? (l ++ option :: m) = some option := by
  have behind : m.reverse.find? (· ∈ countingOptions) = none := by simpa using others
  have reversed : (l ++ option :: m).reverse = m.reverse ++ option :: l.reverse := by simp
  rw [lastCountingOption?, reversed, List.find?_append, behind]
  simp [counts]

/-! ### What a compilation ends with -/

namespace Path

variable {p : Path}

theorem text_notMem_of_last {c : Char} (last : p.text.toList.getLast? = some c) (other : c ≠ 'c') :
    p.text ∉ countingOptions := by
  have ends : ∀ option ∈ countingOptions, option.toList.getLast? = some 'c' := by decide
  intro mem
  exact other (Option.some.inj (last.symm.trans (ends _ mem)))

/-- A path that is an option about counting has no extension. -/
theorem text_notMem_of_kind (known : FileKind.ofPath p ≠ .other) : p.text ∉ countingOptions := by
  have unknown : ∀ option ∈ countingOptions, FileKind.ofPath ⟨option⟩ = .other := by decide
  exact fun mem => known (unknown _ mem)

theorem last_intercalate (separator : String) (front : List String) {s : String} {c : Char}
    (last : s.toList.getLast? = some c) :
    (separator.intercalate (front ++ [s])).toList.getLast? = some c := by
  by_cases alone : front = []
  · simpa [alone] using last
  · rw [String.intercalate_append_of_ne_nil alone (by simp), String.intercalate_singleton]
    exact last_append _ last

/-- A dependency file ends with its extension or with `..`. -/
theorem last_withExtension {c : Char} (last : p.text.toList.getLast? = some c) (notSlash : c ≠ '/')
    (notDot : c ≠ '.') : (p.withExtension "d").text.toList.getLast? = some 'd' ∨
      (p.withExtension "d").text.toList.getLast? = some '.' := by
  obtain ⟨name, named, _⟩ := exists_fileName?_of_last last notSlash notDot
  rw [withExtension, named]
  rcases Place.replaceExtension_cases name with up | ends
  · exact .inr (last_intercalate _ _ (by rw [up]; decide))
  · exact .inl (last_intercalate _ _ ends)

end Path

namespace Compilation

variable {c : Compilation} {e : CompileEntry}

/-- Behind the option for reference counting come the files alone, and none of their paths reads
like one. -/
theorem lastCountingOption?_of_mem_plan (planned : e ∈ c.plan)
    (known : FileKind.ofPath e.source ≠ .other) (usesArc : e.language.usesArc = true) :
    lastCountingOption? e.action.arguments =
      some (if e.arc then "-fobjc-arc" else "-fno-objc-arc") := by
  obtain ⟨source, _, language, object, isObject, rfl⟩ := mem_plan planned
  have ends := last_of_mem_objectPaths isObject
  have depFile : (object.withExtension "d").text ∉ countingOptions := by
    rcases last_withExtension ends (by decide) (by decide) with last | last
    · exact text_notMem_of_last last (by decide)
    · exact text_notMem_of_last last (by decide)
  show lastCountingOption? (c.arguments _ language source.arc object _) = _
  rw [arguments, if_pos (by exact usesArc), List.append_assoc, List.singleton_append]
  refine lastCountingOption?_append ?_ ?_
  · cases source.arc <;> decide
  · simp only [List.forall_mem_cons]
    exact ⟨by decide, text_notMem_of_kind known, by decide, text_notMem_of_last ends (by decide),
      by decide, by decide, depFile, List.forall_mem_nil _⟩

theorem forall₂_countsAsDeclared (c : Compilation) :
    List.Forall₂ (CompileEntry.CountsAsDeclared c.library) c.library.declaredSources c.plan := by
  have length : c.library.declaredSources.length = c.plan.length := by
    have objects := congrArg List.length c.objects_plan
    rw [List.length_map, length_objectPaths, Library.compiledSources_eq_map, List.length_map]
      at objects
    exact objects.symm
  refine List.forall₂_iff_get.mpr ⟨length, fun i bound bound' => ?_⟩
  have isSource : c.library.compiledSources[i]? = some
      ⟨c.library.declaredSources[i].file, c.library.declaredSources[i].listedIn.arc⟩ := by
    rw [Library.compiledSources_eq_map, List.getElem?_map, List.getElem?_eq_getElem bound]
    rfl
  obtain ⟨e, _, isEntry, _, compiles⟩ := c.exists_compiles isSource
  obtain rfl : c.plan.get ⟨i, bound'⟩ = e :=
    Option.some.inj ((List.getElem?_eq_getElem bound').symm.trans isEntry)
  refine ⟨compiles.source, compiles.arc, compiles.language, fun choice => ?_⟩
  have usesArc := Language.usesArc_iff.mpr choice
  have known : FileKind.ofPath (c.plan.get ⟨i, bound'⟩).source ≠ .other := by
    rw [compiles.source, Label.execPath, FileKind.ofPath_join (by simp [compiles.language]),
      compiles.language]
    simp
  rw [lastCountingOption?_of_mem_plan (List.get_mem ..) known usesArc, compiles.arc]
  cases (c.library.declaredSources.get ⟨i, bound⟩).listedIn <;> rfl

theorem arguments_congr_arc {source object depFile : Path} {language : Language}
    (noChoice : ¬(language = .objc ∨ language = .objcpp)) (arc arc' : Bool) :
    c.arguments source language arc object depFile =
      c.arguments source language arc' object depFile := by
  rw [← Language.usesArc_iff] at noChoice
  simp [arguments, noChoice]

end Compilation

/-- The compilations of a library are those of the files to compile, in order. In Objective-C and
Objective-C++ the last option about counting is the one for the attribute that lists the file,
whatever the library, its dependencies and the configuration say; in any other language the
arguments do not depend on the attribute. So it is in every analysis. -/
theorem Library.compiles_count_as_declared (t : Library) :
    (∀ providers facts moduleMap,
      let c : Compilation := ⟨t, providers, facts, moduleMap⟩
      List.Forall₂ (CompileEntry.CountsAsDeclared t) t.declaredSources c.plan ∧
      ∀ source language object depFile, ¬(language = .objc ∨ language = .objcpp) →
        c.arguments source language true object depFile =
          c.arguments source language false object depFile) ∧
    ∀ dependencies facts l, t.analyze dependencies facts = .ok l →
      List.Forall₂ (CompileEntry.CountsAsDeclared t) t.declaredSources l.compiles ∧
      l.compiles.map CompileEntry.action <+: l.actions := by
  refine ⟨fun providers facts moduleMap => ?_, fun dependencies facts l analyzed => ?_⟩
  · exact ⟨Compilation.forall₂_countsAsDeclared ⟨t, providers, facts, moduleMap⟩,
      fun _ _ _ _ noChoice => Compilation.arguments_congr_arc noChoice true false⟩
  · have planned := plannedFor_of_analyze analyzed
    refine ⟨?_, ?_⟩
    · rw [planned.compiles]
      exact (t.compilation l.providers facts).forall₂_countsAsDeclared
    · rw [AnalyzedLibrary.actions, List.append_assoc]
      exact List.prefix_append _ _

namespace Opposed

/-- A library whose options contradict both attributes. -/
def library : Library where
  label := ⟨"opposed", "opposed", by decide, by decide⟩
  srcs := ["a.m", "c.c"]
  nonArcSrcs := ["b.mm"]
  copts := ["-fobjc-arc", "-fno-objc-arc", "-fobjc-arc", "-fno-objc-arc"]

def options : Options where
  objccopts := ["-fno-objc-arc", "-fobjc-arc"]

end Opposed

theorem Library.compiles_count_as_declared_opposed : ∃ facts l a c b,
    Facts.resolve Opposed.options (.xcode Toolchain.defaultRoot) = .ok facts ∧
      Opposed.library.analyze [] facts = .ok l ∧ l.compiles = [a, c, b] ∧
      lastCountingOption? a.action.arguments = some "-fobjc-arc" ∧
      lastCountingOption? b.action.arguments = some "-fno-objc-arc" ∧
      (Opposed.library.compilation l.providers facts).arguments c.source .c true c.object c.depFile =
        (Opposed.library.compilation l.providers facts).arguments c.source .c false c.object
          c.depFile := by
  obtain ⟨facts, resolved⟩ : ∃ facts,
      Facts.resolve Opposed.options (.xcode Toolchain.defaultRoot) = .ok facts :=
    exists_of_isOk (by decide)
  obtain ⟨warnings, accepted⟩ : ∃ warnings,
      Validation.check ⟨facts.disableResources⟩ Opposed.library = .ok warnings := by
    cases facts.disableResources <;> exact exists_of_isOk (by decide)
  obtain ⟨l, analyzed⟩ := exists_analyze accepted []
  obtain ⟨ofPlan, ofAnalysis⟩ := compiles_count_as_declared Opposed.library
  obtain ⟨counted, _⟩ := ofAnalysis [] facts l analyzed
  have declared : Opposed.library.declaredSources =
      [⟨.srcs, "a.m"⟩, ⟨.srcs, "c.c"⟩, ⟨.nonArcSrcs, "b.mm"⟩] := by rfl
  rw [declared] at counted
  generalize compiles : l.compiles = entries at counted
  rcases counted with _ | @⟨_, a, _, _, first, _ | @⟨_, c, _, _, _, _ | @⟨_, b, _, _, last, ⟨⟩⟩⟩⟩
  refine ⟨facts, l, a, c, b, resolved, analyzed, compiles, first.option ?_, last.option ?_,
    (ofPlan _ _ _).2 _ _ _ _ (by decide)⟩
  · exact .inl (FileKind.source.inj first.language).symm
  · exact .inr (FileKind.source.inj last.language).symm

end ObjcPlan
