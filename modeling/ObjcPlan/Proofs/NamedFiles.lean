import ObjcPlan.Proofs.Arguments

/-! The files that the options of the plan itself name in a compilation: what stands behind an
option that takes the next argument (`Argument.operands`), and the module map, which is part of its
option. Options of the user may read the same; their origins keep them apart. -/

namespace ObjcPlan

namespace Argument

variable {l m : List Argument} {origin : Origin} {option : String}

/-- The option that names a module map. -/
def moduleMapOption : String := "-fmodule-map-file="

/-- What the plan gives to an option of its own that takes the next argument. -/
def operands (option : String) : List Argument → List String
  | ⟨.fixed, text⟩ :: ⟨.operand, value⟩ :: rest =>
    if text = option then value :: operands option rest else operands option rest
  | _ :: rest => operands option rest
  | [] => []

/-- Whether the first argument, if there is one, does not belong to an option before it. -/
def startsAnew : List Argument → Bool
  | ⟨.operand, _⟩ :: _ => false
  | _ => true

theorem startsAnew_append (anew : startsAnew l = true) (anew' : startsAnew m = true) :
    startsAnew (l ++ m) = true := by
  rcases l with _ | ⟨⟨_ | _, _⟩, _⟩ <;> first | exact anew' | exact anew

theorem startsAnew_listed (isOption : origin ≠ .operand) (texts : List String) :
    startsAnew (listed origin texts) = true := by
  cases texts with
  | nil => rfl
  | cons text rest => cases origin <;> first | rfl | contradiction

theorem startsAnew_taking (option value : String) : startsAnew (taking option value) = true := by
  simp [taking, startsAnew]

theorem startsAnew_flatMap {α : Type} {values : List α} {f : α → List Argument}
    (anew : ∀ a ∈ values, startsAnew (f a) = true) : startsAnew (values.flatMap f) = true := by
  induction values with
  | nil => rfl
  | cons a rest ih =>
    have ⟨first, others⟩ := List.forall_mem_cons.mp anew
    exact startsAnew_append first (ih others)

/-- What an option takes is read the same whatever options follow. -/
theorem operands_append (anew : startsAnew m = true) :
    operands option (l ++ m) = operands option l ++ operands option m := by
  fun_induction operands option l with
  | case1 value rest ih => simp [operands, ih]
  | case2 text value rest different ih => simp [operands, different, ih]
  | case3 argument rest single ih =>
    rw [List.cons_append, operands, ih]
    intro text value rest' isOption isNext
    cases rest with
    | nil =>
      obtain rfl : m = _ := isNext
      contradiction
    | cons next rest =>
      obtain ⟨rfl, _⟩ := List.cons.inj isNext
      exact single text value rest isOption rfl
  | case4 => rfl

theorem operands_listed (isOption : origin ≠ .operand) (texts : List String) :
    operands option (listed origin texts) = [] := by
  induction texts with
  | nil => rfl
  | cons text rest ih =>
    have anew := startsAnew_listed isOption rest
    calc operands option ([⟨origin, text⟩] ++ listed origin rest)
        = operands option [⟨origin, text⟩] ++ operands option (listed origin rest) :=
          operands_append anew
      _ = [] := by
        rw [ih]
        cases origin <;> rfl

theorem operands_taking (other value : String) :
    operands option (taking other value) = if other = option then [value] else [] :=
  rfl

theorem operands_flatMap {α : Type} {values : List α} {f : α → List Argument}
    (anew : ∀ a ∈ values, startsAnew (f a) = true) : operands option (values.flatMap f) =
      values.flatMap fun a => operands option (f a) := by
  induction values with
  | nil => rfl
  | cons a rest ih =>
    have ⟨_, others⟩ := List.forall_mem_cons.mp anew
    rw [List.flatMap_cons, List.flatMap_cons, operands_append (startsAnew_flatMap others),
      ih others]

end Argument

open Argument

theorem IncludePath.startsAnew_sourced (i : IncludePath) : startsAnew i.sourced = true := by
  cases i <;> rfl

theorem IncludePath.operands_sourced {option : String} (quote : option ≠ "-iquote")
    (system : option ≠ "-isystem") (i : IncludePath) : operands option i.sourced = [] := by
  cases i with
  | angle path => rfl
  | quote path => exact (operands_taking _ _).trans (if_neg quote.symm)
  | system path => exact (operands_taking _ _).trans (if_neg system.symm)

namespace Compilation

variable {c : Compilation} {e : CompileEntry} {option : String}

theorem operands_searchSourced (arch : option ≠ "-arch") (root : option ≠ "-isysroot")
    (quote : option ≠ "-iquote") (system : option ≠ "-isystem") :
    operands option c.searchSourced = if "-include" = option then
      c.library.pch.toList.map fun pch => (c.library.label.execPath pch).text else [] := by
  have includes : startsAnew (c.providers.includePath.toList.flatMap IncludePath.sourced) = true :=
    startsAnew_flatMap fun i _ => i.startsAnew_sourced
  have anew : startsAnew (c.library.pch.toList.flatMap fun pch =>
      taking "-include" (c.library.label.execPath pch).text) = true :=
    startsAnew_flatMap fun _ _ => rfl
  have none :
      operands option (c.providers.includePath.toList.flatMap IncludePath.sourced) = [] := by
    rw [operands_flatMap fun i _ => i.startsAnew_sourced]
    simp [IncludePath.operands_sourced quote system]
  have pch : operands option (c.library.pch.toList.flatMap fun pch =>
      taking "-include" (c.library.label.execPath pch).text) = if "-include" = option then
        c.library.pch.toList.map fun pch => (c.library.label.execPath pch).text else [] := by
    refine (operands_flatMap fun _ _ => startsAnew_taking _ _).trans ?_
    simp only [operands_taking]
    split
    · exact List.map_eq_flatMap.symm
    · simp
  simp only [searchSourced, operands_append, startsAnew_listed, startsAnew_taking, includes,
    anew, operands_listed, operands_taking, none, pch, if_neg arch.symm, if_neg root.symm,
    if_neg quote.symm, ne_eq, reduceCtorEq, not_false_eq_true, List.nil_append]

theorem startsAnew_searchSourced (c : Compilation) : startsAnew c.searchSourced = true := by
  simp [searchSourced, listed, startsAnew]

/-- Only the options that name files take what they name. -/
theorem operands_sourced (arch : option ≠ "-arch") (root : option ≠ "-isysroot")
    (quote : option ≠ "-iquote") (system : option ≠ "-isystem") :
    operands option (c.sourced e) =
      (if "-include" = option then
        c.library.pch.toList.map fun pch => (c.library.label.execPath pch).text else []) ++
      (if "-c" = option then [e.source.text] else []) ++
      (if "-o" = option then [e.object.text] else []) ++
      (if "-MF" = option then [e.depFile.text] else []) := by
  simp only [sourced, leading, userSourced, trailing, ← List.append_assoc, operands_append,
    startsAnew_listed, startsAnew_taking, startsAnew_searchSourced,
    operands_searchSourced arch root quote system, operands_listed, operands_taking, ne_eq,
    reduceCtorEq, not_false_eq_true, List.nil_append, List.append_nil]

theorem operands_source : operands "-c" (c.sourced e) = [e.source.text] := by
  simp [operands_sourced]

theorem operands_include : operands "-include" (c.sourced e) =
    c.library.pch.toList.map fun pch => (c.library.label.execPath pch).text := by
  simp [operands_sourced]

theorem operands_object : operands "-o" (c.sourced e) = [e.object.text] := by
  simp [operands_sourced]

theorem operands_depFile : operands "-MF" (c.sourced e) = [e.depFile.text] := by
  simp [operands_sourced]

/-! ### The module map -/

theorem not_prefix_modulesCacheArguments {text : String} (mem : text ∈ c.modulesCacheArguments) :
    ¬ moduleMapOption.toList <+: text.toList := by
  unfold modulesCacheArguments at mem
  split at mem
  · obtain rfl := List.mem_singleton.mp mem
    rw [String.append_assoc]
    exact not_prefix_append (by decide) (by decide) _
  · contradiction

/-- The module map is named exactly if it is to be used, and no other one is. -/
theorem mem_sourced_moduleMap {file : Path} :
    ⟨.fixed, moduleMapOption ++ file.text⟩ ∈ c.sourced e ↔
      c.facts.enableModuleMaps = true ∧ ∃ m, c.moduleMap = some m ∧ file = m.path := by
  constructor
  · intro mem
    have start : moduleMapOption.toList <+: (moduleMapOption ++ file.text).toList := by
      rw [String.toList_append]
      exact List.prefix_append _ _
    have other (planned : IsPlanOption (moduleMapOption ++ file.text)) : False :=
      planned.not_prefix (by decide) start
    rw [sourced, List.mem_append, List.mem_append] at mem
    rcases mem with (before | user) | behind
    · rcases cases_of_mem_leading before with ofModules | planned
      · obtain ⟨enabled, m, used, same | same | ⟨name, same⟩⟩ :=
          cases_of_mem_moduleArguments ofModules
        · exact absurd (same ▸ start) (by decide)
        · refine ⟨enabled, m, used, congrArg Path.mk ?_⟩
          exact String.append_right_inj _ |>.mp same
        · exact absurd (same ▸ start) (not_prefix_append (by decide) (by decide) name)
      · exact (other planned).elim
    · simp only [userSourced, List.mem_append, fixed_mem_listed, reduceCtorEq, false_and,
        false_or, true_and] at user
      exact absurd start (not_prefix_modulesCacheArguments user)
    · exact (other (.inl (mem_plainOptions_of_mem_trailing behind))).elim
  · rintro ⟨enabled, m, used, rfl⟩
    have ofModules : moduleMapOption ++ m.path.text ∈ c.moduleArguments := by
      rw [moduleArguments, if_pos enabled, used]
      exact List.mem_cons_of_mem _ List.mem_cons_self
    refine List.mem_append_left _ (List.mem_append_left _ ?_)
    simp only [leading, List.mem_append, fixed_mem_listed, ofModules, true_and, true_or, or_true]

end Compilation

end ObjcPlan
