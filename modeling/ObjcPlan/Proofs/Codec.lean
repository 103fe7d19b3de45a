import ObjcPlan.Fingerprint
import ObjcPlan.Proofs.Compact

/-! Values read back from their JSON form. -/

namespace ObjcPlan

open Coded

/-- Types whose values are read back from their JSON form, which holds no number. -/
class Coded.Faithful (α : Type) [Coded α] : Prop where
  decode_encode : ∀ a : α, decode (encode a) = some a
  plain : ∀ a : α, (encode a).Plain

/-- Types whose values are never `null`, so that a missing value can be told from them. -/
class Coded.Present (α : Type) [Coded α] : Prop extends Coded.Faithful α where
  ne_null : ∀ a : α, encode a ≠ .null

attribute [simp] Coded.Faithful.decode_encode Coded.Faithful.plain

theorem Coded.encode_inj {α : Type} [Coded α] [Coded.Faithful α] {a b : α}
    (h : encode a = encode b) : a = b := by
  have read := congrArg (decode (α := α)) h
  simpa using read

namespace Json

@[simp] theorem plain_object_iff {fields : List (String × Json)} :
    (object fields).Plain ↔ ∀ field ∈ fields, field.2.Plain :=
  ⟨fun | .object plain => plain, .object⟩

@[simp] theorem plain_string (value : String) : (string value).Plain :=
  .string value

instance : Present String where
  decode_encode _ := rfl
  plain := .string
  ne_null _ := nofun

instance : Present Bool where
  decode_encode _ := rfl
  plain := .bool
  ne_null _ := nofun

instance : Present Path where
  decode_encode _ := rfl
  plain p := .string p.text
  ne_null _ := nofun

/-- A list is read back item by item. -/
theorem mapM_map_eq_some {α β : Type} {write : α → β} {read : β → Option α} {l : List α}
    (h : ∀ a ∈ l, read (write a) = some a) : (l.map write).mapM read = some l := by
  induction l with
  | nil => rfl
  | cons a rest ih =>
    obtain ⟨first, others⟩ := List.forall_mem_cons.mp h
    simp [List.mapM_cons, first, ih others]

theorem mapM_decode_encode {α : Type} [Coded α] [Faithful α] (values : List α) :
    (values.map encode).mapM (decode (α := α)) = some values :=
  mapM_map_eq_some fun a _ => Faithful.decode_encode a

instance {α : Type} [Coded α] [Faithful α] : Present (List α) where
  decode_encode := mapM_decode_encode
  plain values := .array fun item mem => by
    obtain ⟨a, _, rfl⟩ := List.mem_map.mp mem
    exact Faithful.plain a
  ne_null _ := nofun

instance {α : Type} [Coded α] [Present α] : Faithful (Option α) where
  decode_encode
    | none => rfl
    | some a => by
      have present := Present.ne_null a
      show (match encode a with
        | null => some none
        | value => (decode value).map some) = some (some a)
      split
      · contradiction
      · simp
  plain
    | none => .null
    | some a => Faithful.plain a

instance {α : Type} [Identity α] [Coded α] [Faithful α] : Present (OrderedSet α) where
  decode_encode s := by
    show (decode (encode s.toList)).map OrderedSet.ofList = some s
    simp [OrderedSet.ofList_toList]
  plain s := Faithful.plain s.toList
  ne_null s := Present.ne_null s.toList

theorem present_enumeration {α : Type} {members : List α} {name : α → String}
    (first : ∀ a, (members.find? fun member => name member = name a) = some a) :
    letI := enumeration members name
    Present α :=
  letI := enumeration members name
  { decode_encode := first
    plain := fun a => .string (name a)
    ne_null := fun _ => nofun }

namespace Record

theorem read_next {α β : Type} {part : Option α} {a : α} {rest : α → Option β} {b : β}
    (h : part = some a) (h' : rest a = some b) : part >>= rest = some b := by
  rw [h]
  exact h'

variable {α : Type} [Coded α] {r : Record} {name : String}

theorem required_eq [Faithful α] {a : α} (h : r.parts.lookup name = some (encode a)) :
    r.required name = some a := by
  simp [required, h]

theorem withDefault_eq [Faithful α] {a value : α} (h : r.parts.lookup name = some (encode a)) :
    r.withDefault name value = some a := by
  simp [withDefault, h]

theorem optional_eq [Present α] {a : Option α} (h : r.parts.lookup name = some (encode a)) :
    r.optional name = some a := by
  simp [optional, h]

end Record

end Json

open Json.Record

instance : Present Platform :=
  Json.present_enumeration fun platform => by cases platform <;> rfl

instance : Present BitcodeMode :=
  Json.present_enumeration fun mode => by cases mode <;> rfl

instance : Present CompilationMode :=
  Json.present_enumeration fun mode => by cases mode <;> rfl

instance : Present CoverageMode :=
  Json.present_enumeration fun mode => by cases mode <;> rfl

namespace Label

theorem colon_notMem_package (l : Label) : ':' ∉ l.package.toList := by
  intro mem
  have ok := l.package_ok
  unfold packageFault? at ok
  have forbidden : l.package.toList.any isForbidden = true :=
    List.any_eq_true.mpr ⟨':', mem, by decide⟩
  simp only [forbidden, if_true] at ok
  split at ok
  · contradiction
  · split at ok <;> contradiction

theorem checked_eq (l : Label) : checked l.package l.name = .ok l := by
  unfold checked
  split
  · next fault => simp [l.package_ok] at fault
  · split
    · next fault => simp [l.name_ok] at fault
    · rfl

/-- What follows the slashes is cut at its first colon. -/
theorem read_fullText {package : String} (flat : ':' ∉ package.toList) (name : String) :
    read (fullText package name) = checked package name := by
  have rest : Text.dropStart? ['/', '/'] (fullText package name).toList =
      some (package.toList ++ ':' :: name.toList) :=
    Text.dropStart?_eq_some_iff.mpr (by simp [fullText])
  have split : Text.splitOnce? ':' (String.ofList (package.toList ++ ':' :: name.toList)) =
      some (package, name) := by
    have before : ∀ c ∈ package.toList, (!decide (c = ':')) = true := fun c mem => by
      simpa using fun same : c = ':' => flat (same ▸ mem)
    simp [Text.splitOnce?, List.dropWhile_append_of_pos before, List.takeWhile_append_of_pos before]
  rw [read, rest]
  simp only [split]

theorem parse_text (l : Label) : parse l.text = .ok l := by
  rw [parse, text, read_fullText l.colon_notMem_package, checked_eq]
  rfl

end Label

instance : Present Label where
  decode_encode l := congrArg Except.toOption l.parse_text
  plain l := .string l.text
  ne_null _ := nofun

instance : Present ResourceAttributes where
  decode_encode r := by
    refine read_next rfl ?_
    repeat refine read_next (withDefault_eq rfl) ?_
    rfl
  plain r := by
    unfold ResourceAttributes.instCoded
    simp [ResourceAttributes.attributes]
  ne_null _ := nofun

instance : Present Library where
  decode_encode t := by
    refine read_next rfl (read_next (required_eq rfl) ?_)
    repeat refine read_next (withDefault_eq rfl) ?_
    rfl
  plain t := by
    unfold Library.instCoded
    simp
  ne_null _ := nofun

instance : Present ForeignLibrary where
  decode_encode t := by
    refine read_next rfl (read_next (required_eq rfl) ?_)
    repeat refine read_next (withDefault_eq rfl) ?_
    rfl
  plain t := by
    unfold ForeignLibrary.instCoded
    simp
  ne_null _ := nofun

instance : Present IncludePath where
  decode_encode i := by
    cases i <;>
      exact read_next rfl (read_next rfl (read_next rfl (read_next (required_eq rfl) rfl)))
  plain i := by
    unfold IncludePath.instCoded
    simp
  ne_null _ := nofun

instance : Present CoptGroup where
  decode_encode _ := read_next rfl (read_next (required_eq rfl) (read_next (required_eq rfl) rfl))
  plain g := by
    unfold CoptGroup.instCoded
    simp
  ne_null _ := nofun

instance : Present ProviderSet where
  decode_encode s := by
    refine read_next rfl ?_
    repeat refine read_next (required_eq rfl) ?_
    rfl
  plain s := by
    unfold ProviderSet.instCoded
    simp [ProviderKey.all, ProviderSet.get]
  ne_null _ := nofun

instance : Present Facts where
  decode_encode f := by
    refine read_next rfl ?_
    repeat
      first
      | refine read_next (required_eq rfl) ?_
      | refine read_next (optional_eq rfl) ?_
    rfl
  plain f := by
    unfold Facts.instCoded
    simp
  ne_null _ := nofun

end ObjcPlan
