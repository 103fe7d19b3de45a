import Mathlib.Data.List.Infix
import ObjcPlan.Proofs.Analyses

/-! What replacing `$(TARGET_CPU)` does. A supported cpu starts with the name of a family, which
fits nowhere in the variable or in the option for the modules cache, so neither can come about by
the replacement: no variable is left (`not_hasVariable_expandMakeVariables`), to replace again
changes nothing (`expandMakeVariables_expandMakeVariables`), and an option sets the modules cache
exactly if it does so before (`setsModulesCache_expand`). -/

namespace ObjcPlan

namespace Text

variable {piece value value' q rest l : List Char} {a c : Char}

/-- Whether no end of `q` can run into the value: neither of them starts with the other. -/
def Apart (q value : List Char) : Prop :=
  ∀ y ∈ q.tails, y ≠ [] → ¬ y <+: value ∧ ¬ value <+: y

instance : Decidable (Apart q value) :=
  inferInstanceAs (Decidable (∀ y ∈ q.tails, y ≠ [] → ¬ y <+: value ∧ ¬ value <+: y))

namespace Apart

theorem tail (apart : Apart (c :: q) value) : Apart q value := by
  intro y mem
  have isEnd := ((List.mem_tails y q).mp mem).trans (List.suffix_cons c q)
  exact apart y ((List.mem_tails _ _).mpr isEnd)

/-- What a longer value starts with is enough to be apart from it. -/
theorem of_start (start : value' <+: value) (apart : Apart q value') : Apart q value := by
  intro y mem nonempty
  obtain ⟨before, behind⟩ := apart y mem nonempty
  constructor
  · intro front
    rcases List.prefix_or_prefix_of_prefix front start with shorter | longer
    · exact before shorter
    · exact behind longer
  · exact fun front => behind (start.trans front)

theorem eq_nil (apart : Apart q value) (front : q <+: value ++ rest) : q = [] := by
  by_contra nonempty
  have whole := (List.mem_tails q q).mpr (List.suffix_refl q)
  obtain ⟨before, behind⟩ := apart q whole nonempty
  rcases List.prefix_or_prefix_of_prefix front (List.prefix_append value rest) with shorter | longer
  · exact before shorter
  · exact behind longer

end Apart

theorem replaceAll_append (nonempty : piece ≠ []) (rest : List Char) :
    replaceAll piece value (piece ++ rest) = value ++ replaceAll piece value rest := by
  obtain ⟨c, piece, rfl⟩ := List.exists_cons_of_ne_nil nonempty
  have found : dropStart? (c :: piece) (c :: (piece ++ rest)) = some rest :=
    dropStart?_eq_some_iff.mpr rfl
  rw [List.cons_append, replaceAll, if_neg nonempty]
  split
  · next after found' =>
    obtain rfl := Option.some.inj (found.symm.trans found')
    rfl
  · next none => simp [found] at none

theorem replaceAll_cons (absent : ¬ piece <+: c :: rest) :
    replaceAll piece value (c :: rest) = c :: replaceAll piece value rest := by
  have nonempty : piece ≠ [] := by
    rintro rfl
    exact absent List.nil_prefix
  rw [replaceAll, if_neg nonempty]
  split
  · next after found =>
    exact absurd ⟨after, (dropStart?_eq_some_iff.mp found).symm⟩ absent
  · rfl

/-- A text is read from left to right: it is over, starts with the piece, or with another
character. -/
theorem replaceAll_induction (nonempty : piece ≠ []) {motive : List Char → Prop} (nil : motive [])
    (found : ∀ rest, motive rest → motive (piece ++ rest))
    (other : ∀ c rest, ¬ piece <+: c :: rest → motive rest → motive (c :: rest)) (l : List Char) :
    motive l := by
  induction size : l.length using Nat.strongRecOn generalizing l with
  | ind size' ih =>
    subst size
    by_cases start : piece <+: l
    · obtain ⟨rest, rfl⟩ := start
      have : 0 < piece.length := List.length_pos_iff.mpr nonempty
      exact found rest (ih rest.length (by simp; omega) rest rfl)
    · cases l with
      | nil => exact nil
      | cons c rest => exact other c rest start (ih rest.length (by simp) rest rfl)

/-- What is apart from the value was there before. -/
theorem prefix_of_prefix_replaceAll (nonempty : piece ≠ []) (apart : Apart q value)
    (front : q <+: replaceAll piece value l) : q <+: l := by
  induction l using replaceAll_induction nonempty generalizing q with
  | nil => simpa [replaceAll] using front
  | found rest ih =>
    rw [replaceAll_append nonempty] at front
    rw [apart.eq_nil front]
    exact List.nil_prefix
  | other c rest absent ih =>
    rw [replaceAll_cons absent] at front
    cases q with
    | nil => exact List.nil_prefix
    | cons d q =>
      obtain ⟨rfl, later⟩ := List.cons_prefix_cons.mp front
      exact List.cons_prefix_cons.mpr ⟨rfl, ih apart.tail later⟩

theorem prefix_replaceAll (notMem : a ∉ q) (front : q <+: l) :
    q <+: replaceAll (a :: piece) value l := by
  induction q generalizing l with
  | nil => exact List.nil_prefix
  | cons d q ih =>
    obtain ⟨rest, rfl⟩ := front
    rw [List.mem_cons, not_or] at notMem
    have absent : ¬ a :: piece <+: d :: (q ++ rest) := fun start =>
      notMem.1 (List.cons_prefix_cons.mp start).1
    rw [List.cons_append, replaceAll_cons absent]
    exact List.cons_prefix_cons.mpr ⟨rfl, ih notMem.2 (List.prefix_append q rest)⟩

theorem replaceAll_append_of_notMem (notMem : a ∉ q) (l : List Char) :
    replaceAll (a :: piece) value (q ++ l) = q ++ replaceAll (a :: piece) value l := by
  induction q with
  | nil => rfl
  | cons d q ih =>
    rw [List.mem_cons, not_or] at notMem
    have absent : ¬ a :: piece <+: d :: (q ++ l) := fun start =>
      notMem.1 (List.cons_prefix_cons.mp start).1
    rw [List.cons_append, replaceAll_cons absent, ih notMem.2, List.cons_append]

theorem infix_of_infix_append (notMem : a ∉ q) (inside : a :: piece <:+: q ++ l) :
    a :: piece <:+: l := by
  induction q with
  | nil => exact inside
  | cons d q ih =>
    rw [List.mem_cons, not_or] at notMem
    rcases List.infix_cons_iff.mp inside with start | later
    · exact absurd (List.cons_prefix_cons.mp start).1 notMem.1
    · exact ih notMem.2 later

/-- No piece is left, nor does one come about. -/
theorem not_infix_replaceAll (notMem : a ∉ value) (apart : Apart piece value) (l : List Char) :
    ¬ a :: piece <:+: replaceAll (a :: piece) value l := by
  induction l using replaceAll_induction (List.cons_ne_nil a piece) with
  | nil => simp [replaceAll]
  | found rest ih =>
    rw [replaceAll_append (List.cons_ne_nil a piece)]
    exact fun inside => ih (infix_of_infix_append notMem inside)
  | other c rest absent ih =>
    rw [replaceAll_cons absent, List.infix_cons_iff]
    rintro (start | later)
    · obtain ⟨rfl, front⟩ := List.cons_prefix_cons.mp start
      have before := prefix_of_prefix_replaceAll (List.cons_ne_nil a piece) apart front
      exact absent (List.cons_prefix_cons.mpr ⟨rfl, before⟩)
    · exact ih later

theorem replaceAll_eq_self (absent : ¬ piece <:+: l) : replaceAll piece value l = l := by
  induction l with
  | nil => simp [replaceAll]
  | cons c rest ih =>
    rw [List.infix_cons_iff, not_or] at absent
    rw [replaceAll_cons absent.1, ih absent.2]

end Text

/-! ### Supported cpus -/

namespace Options

variable {cpu : String} {target : Family × String}

/-- What supported cpus start with. -/
def cpuFronts : List String :=
  ["ios", "tvos", "watchos", "darwin"]

theorem mem_cpuFronts {front : String} {family : Family} (found : familyOf? front = some family) :
    front ∈ cpuFronts := by
  unfold familyOf? at found
  split at found
  all_goals first | decide | contradiction

theorem exists_front (supported : splitCpu? cpu = some target) :
    ∃ front ∈ cpuFronts, front.toList <+: cpu.toList := by
  unfold splitCpu? at supported
  split at supported
  · next same => exact ⟨"darwin", by decide, by rw [same]⟩
  · split at supported
    · next front arch cut =>
      split at supported
      · contradiction
      · obtain ⟨family, found, _⟩ := Option.map_eq_some_iff.mp supported
        refine ⟨front, mem_cpuFronts found, ?_⟩
        unfold Text.splitOnce? at cut
        split at cut
        · contradiction
        · obtain ⟨rfl, _⟩ := Prod.mk.inj (Option.some.inj cut)
          rw [String.toList_ofList]
          exact List.takeWhile_prefix _
    · contradiction

theorem apart_of_supported (supported : splitCpu? cpu = some target) {q : List Char}
    (apart : ∀ front ∈ cpuFronts, Text.Apart q front.toList) : Text.Apart q cpu.toList := by
  obtain ⟨front, mem, start⟩ := exists_front supported
  exact (apart front mem).of_start start

theorem splitCpu?_of_target {o : Options} (isTarget : o.target = .ok target) :
    splitCpu? o.cpu = some target := by
  unfold Options.target at isTarget
  split at isTarget
  · next found => rw [found, Except.ok.inj isTarget]
  · contradiction

end Options

/-- Facts hold the cpu and the compiler options as they were configured, and the cpu is one that is
supported. -/
theorem Facts.configured_of_resolve {o : Options} {toolchain : Toolchain} {facts : Facts}
    (resolved : Facts.resolve o toolchain = .ok facts) :
    facts.cpu = o.cpu ∧ facts.objccopts = o.objccopts ∧
      ∃ target, Options.splitCpu? facts.cpu = some target := by
  unfold resolve at resolved
  obtain ⟨_, _, resolved⟩ := exists_of_bind resolved
  obtain ⟨target, isTarget, resolved⟩ := exists_of_bind resolved
  obtain ⟨_, _, resolved⟩ := exists_of_bind resolved
  obtain ⟨_, _, resolved⟩ := exists_of_bind resolved
  obtain rfl := Except.ok.inj resolved
  exact ⟨rfl, rfl, target, Options.splitCpu?_of_target isTarget⟩

/-! ### Expansion -/

/-- Whether the variable for the cpu stands somewhere in a text. -/
def HasVariable (text : String) : Prop :=
  targetCpuVariable.toList <:+: text.toList

theorem not_hasVariable_of_notMem {text : String} (plain : '$' ∉ text.toList) :
    ¬ HasVariable text :=
  fun inside => plain (inside.subset (show '$' ∈ targetCpuVariable.toList by decide))

theorem expandMakeVariables_eq_self {value : String} (absent : ¬ HasVariable value) (cpu : String) :
    expandMakeVariables value cpu = value := by
  rw [expandMakeVariables, Text.replaceAll_eq_self absent, String.ofList_toList]

theorem expandMakeVariables_of_notMem {value : String} (plain : '$' ∉ value.toList) (cpu : String) :
    expandMakeVariables value cpu = value :=
  expandMakeVariables_eq_self (not_hasVariable_of_notMem plain) cpu

theorem expandMakeVariables_variable {before : String} (plain : '$' ∉ before.toList)
    (after cpu : String) :
    expandMakeVariables (before ++ (targetCpuVariable ++ after)) cpu =
      before ++ (cpu ++ expandMakeVariables after cpu) := by
  rw [← String.toList_inj]
  simp only [expandMakeVariables, String.toList_append, String.toList_ofList]
  rw [← Text.replaceAll_append (by decide)]
  exact Text.replaceAll_append_of_notMem plain _

section

variable {cpu : String} {target : Family × String} (supported : Options.splitCpu? cpu = some target)

include supported

theorem not_hasVariable_expandMakeVariables (literal : '$' ∉ cpu.toList) (value : String) :
    ¬ HasVariable (expandMakeVariables value cpu) := by
  have apart : Text.Apart "(TARGET_CPU)".toList cpu.toList :=
    Options.apart_of_supported supported (by decide)
  rw [HasVariable, expandMakeVariables, String.toList_ofList]
  exact Text.not_infix_replaceAll literal apart value.toList

/-- A cpu without a `$` is put in once and for all. -/
theorem expandMakeVariables_expandMakeVariables (literal : '$' ∉ cpu.toList) (value : String) :
    expandMakeVariables (expandMakeVariables value cpu) cpu = expandMakeVariables value cpu :=
  expandMakeVariables_eq_self (not_hasVariable_expandMakeVariables supported literal value) cpu

theorem setsModulesCache_expand (value : String) :
    Validation.setsModulesCache (expandMakeVariables value cpu) =
      Validation.setsModulesCache value := by
  have apart : Text.Apart Validation.modulesCacheOption.toList cpu.toList :=
    Options.apart_of_supported supported (by decide)
  unfold Validation.setsModulesCache expandMakeVariables
  rw [String.toList_ofList, Bool.eq_iff_iff, List.isPrefixOf_iff_prefix,
    List.isPrefixOf_iff_prefix]
  constructor
  · exact Text.prefix_of_prefix_replaceAll (by decide) apart
  · exact Text.prefix_replaceAll (a := '$') (by decide)

end

end ObjcPlan
