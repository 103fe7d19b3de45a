import Mathlib.Logic.Relation
import ObjcPlan.Proofs.IncludeDirectories

/-! What a path denotes, as far as its text can tell: `.` stands for nothing, and a `..` takes back
the name before it. Two paths are resolved to the same one exactly if these two rules lead from one
to the other (`Path.lexical_eq_iff_sameDirectory`), so resolution is a normal form, and to join a
relative path respects it (`Path.SameDirectory.join`). Hence the include directory of an entry
depends on nothing but the directory that the entry denotes (`Library.includes_by_directory`). -/

namespace ObjcPlan

namespace Path

variable {p p' q q' : Path} {cs ds front back : List Component}

/-- One step of resolution: a `.` is dropped, or a name is cancelled with the `..` behind it. -/
inductive Cancels : List Component → List Component → Prop
  | current (front back : List Component) : Cancels (front ++ .current :: back) (front ++ back)
  | name (front back : List Component) (name : String) :
      Cancels (front ++ .name name :: .parent :: back) (front ++ back)

/-- Whether steps of resolution, taken forwards and backwards, lead from one to the other. -/
def Equivalent : List Component → List Component → Prop :=
  Relation.EqvGen Cancels

/-- Whether two paths denote the same directory, as far as their texts can tell. -/
def SameDirectory (p q : Path) : Prop :=
  Equivalent p.components q.components

/-! ### Steps of resolution -/

theorem Cancels.append (cancels : Cancels cs ds) (front back : List Component) :
    Cancels (front ++ cs ++ back) (front ++ ds ++ back) := by
  cases cancels with
  | current before behind =>
    have step := Cancels.current (front ++ before) (behind ++ back)
    simpa using step
  | name before behind name =>
    have step := Cancels.name (front ++ before) (behind ++ back) name
    simpa using step

theorem Cancels.foldl_eq (cancels : Cancels cs ds) (kept : List Component) :
    cs.foldl resolveStep kept = ds.foldl resolveStep kept := by
  cases cancels with
  | current front back =>
    rw [List.foldl_append, List.foldl_append]
    rfl
  | name front back name =>
    rw [List.foldl_append, List.foldl_append]
    rfl

namespace Equivalent

theorem refl (cs : List Component) : Equivalent cs cs :=
  Relation.EqvGen.refl cs

theorem symm (same : Equivalent cs ds) : Equivalent ds cs :=
  Relation.EqvGen.symm _ _ same

theorem trans {es : List Component} (same : Equivalent cs ds) (same' : Equivalent ds es) :
    Equivalent cs es :=
  Relation.EqvGen.trans _ _ _ same same'

theorem of_cancels (cancels : Cancels cs ds) : Equivalent cs ds :=
  Relation.EqvGen.rel _ _ cancels

theorem surround (same : Equivalent cs ds) (front back : List Component) :
    Equivalent (front ++ cs ++ back) (front ++ ds ++ back) := by
  induction same with
  | rel _ _ cancels => exact of_cancels (cancels.append front back)
  | refl => exact refl _
  | symm _ _ _ ih => exact ih.symm
  | trans _ _ _ _ _ ih ih' => exact ih.trans ih'

theorem append {cs' ds' : List Component} (same : Equivalent cs ds) (same' : Equivalent cs' ds') :
    Equivalent (cs ++ cs') (ds ++ ds') := by
  have first := same.surround [] cs'
  have second := same'.surround ds []
  simp only [List.nil_append, List.append_nil] at first second
  exact first.trans second

theorem foldl_eq (same : Equivalent cs ds) (kept : List Component) :
    cs.foldl resolveStep kept = ds.foldl resolveStep kept := by
  induction same with
  | rel _ _ cancels => exact cancels.foldl_eq kept
  | refl => rfl
  | symm _ _ _ ih => exact ih.symm
  | trans _ _ _ _ _ ih ih' => exact ih.trans ih'

end Equivalent

theorem equivalent_resolveStep (kept : List Component) (c : Component) :
    Equivalent (kept.reverse ++ [c]) (resolveStep kept c).reverse := by
  have stays : Equivalent (kept.reverse ++ [c]) (c :: kept).reverse := by
    rw [List.reverse_cons]
    exact .refl _
  cases c with
  | current => simpa [resolveStep] using Equivalent.of_cancels (.current kept.reverse [])
  | parent =>
    cases kept with
    | nil => exact stays
    | cons top rest =>
      cases top with
      | name text =>
        simpa [resolveStep] using Equivalent.of_cancels (.name rest.reverse [] text)
      | _ => exact stays
  | _ => exact stays

/-- Components are equivalent to what is kept of them. -/
theorem equivalent_resolved (cs : List Component) :
    Equivalent cs (cs.foldl resolveStep []).reverse := by
  induction cs using List.reverseRecOn with
  | nil => exact .refl _
  | append_singleton front c ih =>
    rw [List.foldl_append]
    exact (ih.append (.refl [c])).trans (equivalent_resolveStep _ c)

/-! ### Paths -/

/-- Two paths are resolved to the same one exactly if they denote the same directory. -/
theorem lexical_eq_iff_sameDirectory : p.lexical = q.lexical ↔ p.SameDirectory q := by
  rw [lexical_eq_iff]
  constructor
  · intro same
    have resolved : Equivalent p.components q.resolved := same ▸ equivalent_resolved p.components
    exact resolved.trans (equivalent_resolved q.components).symm
  · intro same
    exact congrArg List.reverse (same.foldl_eq [])

theorem sameDirectory_lexical (p : Path) : p.lexical.SameDirectory p := by
  unfold SameDirectory
  rw [components_lexical]
  exact (equivalent_resolved p.components).symm

theorem equivalent_steps (relative : q.isRooted = false) : Equivalent q.steps q.components := by
  obtain ⟨front, whole, idle⟩ := q.exists_components_eq
  have isCurrent : ∀ c ∈ front, c = .current := by
    intro c mem
    rcases idle c mem with rfl | isCurrent
    · have rooted := isRooted_iff_root_mem.mpr (whole ▸ List.mem_append_left q.steps mem)
      simp [relative] at rooted
    · exact isCurrent
  rw [whole]
  clear whole idle
  induction front with
  | nil => exact .refl _
  | cons c front ih =>
    obtain ⟨rfl, others⟩ := List.forall_mem_cons.mp isCurrent
    exact (ih others).trans (Equivalent.of_cancels (.current [] _)).symm

/-- To join a relative path is to go on with what it denotes. -/
theorem equivalent_join (relative : q.isRooted = false) :
    Equivalent (p / q).components (p.components ++ q.components) := by
  by_cases named : p.text = ""
  · rw [empty_join named, components_of_empty named]
    exact .refl _
  · rw [components_join named relative]
    exact (Equivalent.refl _).append (equivalent_steps relative)

theorem SameDirectory.join (same : p.SameDirectory p') (same' : q.SameDirectory q')
    (relative : q.isRooted = false) (relative' : q'.isRooted = false) :
    (p / q).SameDirectory (p' / q') :=
  (equivalent_join relative).trans
    ((Equivalent.append same same').trans (equivalent_join relative').symm)

/-- A resolved path goes up first and then down. -/
theorem exists_components_lexical_eq (p : Path) : ∃ (count : Nat) (names : List String),
    p.lexical.components = p.base ++ ups count ++ names.map .name := by
  obtain ⟨names, count, same⟩ := exists_foldl_resolveStep_eq (p.isStep_of_mem_steps)
  refine ⟨count, names.reverse, ?_⟩
  have palindrome : (ups count).reverse = ups count := List.reverse_replicate
  rw [components_lexical, resolved_eq, same, foldl_ups, List.reverse_append, palindrome,
    ← List.map_reverse, List.append_assoc]

end Path

namespace OrderedSet

open Identity

theorem existsUnique_of_contains {α : Type} [Identity α] {s : OrderedSet α} {a : α}
    (held : s.contains a = true) : ∃! b, b ∈ s.toList ∧ key b = key a := by
  obtain ⟨b, mem, same⟩ := contains_iff.mp held
  have distinct : (s.toList.map key).Nodup := List.pairwise_map.mpr s.distinct
  refine ⟨b, ⟨mem, same.symm⟩, ?_⟩
  rintro c ⟨mem', same'⟩
  exact List.inj_on_of_nodup_map distinct mem' mem (same'.trans same)

end OrderedSet

namespace Library

open Identity

variable {t : Library} {facts : Facts} {entry other : Path}

theorem includePaths_eq_iff : t.includePaths facts entry = t.includePaths facts other ↔
    (t.label.execPath entry).SameDirectory (t.label.execPath other) := by
  rw [← Path.lexical_eq_iff_sameDirectory]
  constructor
  · intro same
    exact IncludePath.angle.inj (List.cons.inj same).1
  · intro same
    unfold includePaths
    rw [same]

/-- An entry adds nothing if an earlier one denotes the same directory. -/
theorem includePath_ownProviders_of_repeated {front back : List Path}
    (entries : t.includes = front ++ entry :: back)
    (repeated : ∃ earlier ∈ front,
      (t.label.execPath earlier).SameDirectory (t.label.execPath entry)) :
    (t.ownProviders facts).includePath =
      .ofList ((front ++ back).flatMap (t.includePaths facts)) := by
  obtain ⟨earlier, mem, same⟩ := repeated
  have old : ∀ i ∈ t.includePaths facts entry,
      key i ∈ (front.flatMap (t.includePaths facts)).map key ++ [] := by
    rw [← includePaths_eq_iff.mpr same]
    intro i isOne
    have isOld := List.mem_flatMap.mpr ⟨earlier, mem, isOne⟩
    exact List.mem_append_left _ (List.mem_map_of_mem isOld)
  show OrderedSet.ofList (t.includes.flatMap (t.includePaths facts)) = _
  apply OrderedSet.ext
  rw [OrderedSet.toList_ofList, OrderedSet.toList_ofList, entries, List.flatMap_append,
    List.flatMap_append, List.flatMap_cons]
  exact fresh_append_congr rfl (fresh_append_of_old old _)

/-- Resolution gives every path a normal form: it starts with the root of the path if there is one,
goes up some directories and then down to some names, and resolved again it stays the same. Whether
a path is resolved before a relative one is joined to it makes no difference. Two paths have the
same normal form exactly if they denote the same directory.

So the two places where an include entry of a library is searched, its normal form below the
sources and below the generated files, are told by the directory that it denotes and tell which this
is. The library offers each of them once, and offers the same as without
an entry that denotes the directory of an earlier one. -/
theorem includes_by_directory :
    (∀ p : Path, ∃ (count : Nat) (names : List String),
      p.lexical.components = p.base ++ Path.ups count ++ names.map .name) ∧
    (∀ p : Path, p.lexical.lexical = p.lexical) ∧
    (∀ p q : Path, q.isRooted = false → (p / q).lexical = (p.lexical / q).lexical) ∧
    (∀ p q : Path, p.lexical = q.lexical ↔ p.SameDirectory q) ∧
    ∀ (t : Library) (facts : Facts),
      (∀ entry, t.includePaths facts entry = [.angle (t.label.execPath entry).lexical,
        .angle (facts.genfilesDir / (t.label.execPath entry).lexical)]) ∧
      (∀ entry other, t.includePaths facts entry = t.includePaths facts other ↔
        (t.label.execPath entry).SameDirectory (t.label.execPath other)) ∧
      (∀ entry other : Path, entry.isRooted = false → other.isRooted = false →
        entry.SameDirectory other →
          (t.label.execPath entry).SameDirectory (t.label.execPath other)) ∧
      (∀ entry ∈ t.includes, ∀ i ∈ t.includePaths facts entry,
        ∃! held, held ∈ (t.ownProviders facts).includePath.toList ∧ key held = key i) ∧
      ∀ front entry back, t.includes = front ++ entry :: back →
        (∃ earlier ∈ front, (t.label.execPath earlier).SameDirectory (t.label.execPath entry)) →
          (t.ownProviders facts).includePath =
            .ofList ((front ++ back).flatMap (t.includePaths facts)) := by
  refine ⟨Path.exists_components_lexical_eq, fun p => ?_, fun p q relative => ?_,
    fun p q => Path.lexical_eq_iff_sameDirectory, fun t facts => ⟨fun _ => rfl,
      fun entry other => ?_, fun entry other relative relative' same => ?_, fun entry mem i isOne => ?_,
      fun front entry back entries repeated => ?_⟩⟩
  · exact Path.lexical_eq_iff_sameDirectory.mpr p.sameDirectory_lexical
  · have same : p.SameDirectory p.lexical := p.sameDirectory_lexical.symm
    exact Path.lexical_eq_iff_sameDirectory.mpr (same.join (.refl _) relative relative)
  · exact includePaths_eq_iff
  · exact Path.SameDirectory.join (.refl _) same relative relative'
  · exact OrderedSet.existsUnique_of_contains
      (OrderedSet.contains_ofList_of_mem (List.mem_flatMap.mpr ⟨entry, mem, isOne⟩))
  · exact includePath_ownProviders_of_repeated entries repeated

end Library

/-- A library with two spellings of one include directory. -/
def Includes.respelled : Library where
  label := Shared.core.label
  includes := ["include", "gen/../include/."]

/-- The second spelling adds nothing to the two places of the first. -/
theorem Library.includes_by_directory_respelled :
    ∃ facts, Facts.resolve {} (.xcode Toolchain.defaultRoot) = .ok facts ∧
      (Includes.respelled.ownProviders facts).includePath.toList =
        [.angle "core/include",
          .angle "mortar-out/ios_x86_64-fastbuild/genfiles/core/include"] := by
  obtain ⟨facts, resolved⟩ := Outlets.exists_facts
  obtain ⟨_, _, _, same_iff, entries⟩ := includes_by_directory
  obtain ⟨places, _, _, _, once⟩ := entries Includes.respelled facts
  have same : (Includes.respelled.label.execPath "include").SameDirectory
      (Includes.respelled.label.execPath "gen/../include/.") :=
    (same_iff _ _).mp (by decide)
  have kept := once ["include"] "gen/../include/." [] rfl ⟨_, List.mem_cons_self, same⟩
  refine ⟨facts, resolved, ?_⟩
  rw [kept, List.append_nil, List.flatMap_singleton, places, Includes.genfilesDir resolved]
  decide

end ObjcPlan
