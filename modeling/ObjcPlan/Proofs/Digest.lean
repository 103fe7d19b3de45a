import ObjcPlan.Proofs.Codec

/-! What is hashed determines what it stands for: the text of a fingerprint its facts and the
identity of its toolchain (`Fingerprint.message_inj`), and the text of an analysis's inputs the
declaration and the list of dependencies (`Library.inputsMessage_inj`). -/

namespace ObjcPlan

open Coded

/-- A hashed value shows where it ends. -/
theorem hashed_append_inj {α : Type} [Coded α] [Faithful α] {a b : α} {rest rest' : List Char}
    (h : (hashed a).toList ++ rest = (hashed b).toList ++ rest') : a = b ∧ rest = rest' := by
  simp only [hashed, String.toList_append, List.append_assoc] at h
  obtain ⟨same, after⟩ := Json.compact_append_inj (Faithful.plain a) (Faithful.plain b) h
  exact ⟨encode_inj same, List.append_cancel_left after⟩

theorem Fingerprint.message_inj {facts facts' : Facts} {identity identity' : String}
    (h : message facts identity = message facts' identity') :
    facts = facts' ∧ identity = identity' := by
  have h := congrArg String.toList h
  simp only [message, String.toList_append] at h
  obtain ⟨rfl, same⟩ := hashed_append_inj h
  exact ⟨rfl, String.toList_inj.mp same⟩

namespace Dependency

/-- A library is told from a foreign one by the first character: a quote, since it starts with the
label, and not a brace. -/
theorem message_library_ne (label : Label) (providers : ProviderSet) (info : ForeignLibrary)
    (rest rest' : List Char) :
    (message (.library label providers)).toList ++ rest ≠
      (message (.foreign info)).toList ++ rest' := by
  intro h
  simp only [message, hashed, String.toList_append, List.append_assoc] at h
  have start := (Faithful.plain label).opening_eq (Faithful.plain info) h
  cases start

theorem message_append_inj {d d' : Dependency} {rest rest' : List Char}
    (h : d.message.toList ++ rest = d'.message.toList ++ rest') : d = d' ∧ rest = rest' := by
  cases d with
  | library label providers =>
    cases d' with
    | library label' providers' =>
      simp only [message, String.toList_append, List.append_assoc] at h
      obtain ⟨rfl, after⟩ := hashed_append_inj h
      obtain ⟨rfl, same⟩ := hashed_append_inj after
      exact ⟨rfl, same⟩
    | foreign info => exact absurd h (message_library_ne _ _ _ _ _)
  | foreign info =>
    cases d' with
    | library label providers => exact absurd h.symm (message_library_ne _ _ _ _ _)
    | foreign info' =>
      obtain ⟨rfl, same⟩ := hashed_append_inj h
      exact ⟨rfl, same⟩

theorem message_ne_nil (d : Dependency) (rest : List Char) : d.message.toList ++ rest ≠ [] := by
  cases d <;> simp [message, hashed]

theorem join_message_inj {ds ds' : List Dependency}
    (h : ds.flatMap (·.message.toList) = ds'.flatMap (·.message.toList)) : ds = ds' := by
  induction ds generalizing ds' with
  | nil =>
    cases ds' with
    | nil => rfl
    | cons d' ds' => exact absurd h.symm (message_ne_nil d' _)
  | cons d ds ih =>
    cases ds' with
    | nil => exact absurd h (message_ne_nil d _)
    | cons d' ds' =>
      obtain ⟨rfl, later⟩ := message_append_inj h
      rw [ih later]

end Dependency

theorem Library.inputsMessage_inj {t t' : Library} {dependencies dependencies' : List Dependency}
    (h : t.inputsMessage dependencies = t'.inputsMessage dependencies') :
    t = t' ∧ dependencies = dependencies' := by
  have h := congrArg String.toList h
  simp only [inputsMessage, String.toList_append, String.toList_join, List.flatMap_map] at h
  obtain ⟨rfl, later⟩ := hashed_append_inj h
  exact ⟨rfl, Dependency.join_message_inj later⟩

end ObjcPlan
