import ObjcPlan.Path.Basic

/-!
Sets that remember the order and the spelling in which their values first came. What counts as one
value is told by a key: texts are their own keys, and the key of a path is its components. A value
that is already present, in any spelling, changes nothing.

`toList_extend` says what a set holds once a list was put into it, and `extend_cons` that this is
the same as putting in one value after the other.
-/

namespace ObjcPlan

/-- What tells the values of a type apart as members of a set. -/
class Identity (α : Type) where
  Key : Type
  key : α → Key
  decideKey : DecidableEq Key

namespace Identity

attribute [reducible, instance] decideKey

/-- Values told apart by a key. -/
@[reducible] def ofKey {α κ : Type} [DecidableEq κ] (key : α → κ) : Identity α :=
  ⟨κ, key, inferInstance⟩

variable {α : Type} [Identity α]

/-- The values that are the same as one of `others`. -/
def common (values others : List α) : List α :=
  let keys := others.map key
  values.filter fun a => key a ∈ keys

/-- The values that are new where `seen` holds the keys of earlier ones, each where it first
occurs. -/
def fresh (seen : List (Key α)) : List α → List α
  | [] => []
  | a :: rest =>
    let k := key a
    if k ∈ seen then fresh seen rest else a :: fresh (k :: seen) rest

theorem fresh_cons_of_mem {seen : List (Key α)} {a : α} (old : key a ∈ seen) (rest : List α) :
    fresh seen (a :: rest) = fresh seen rest :=
  if_pos old

theorem fresh_cons_of_notMem {seen : List (Key α)} {a : α} (new : key a ∉ seen) (rest : List α) :
    fresh seen (a :: rest) = a :: fresh (key a :: seen) rest :=
  if_neg new

theorem fresh_congr {seen seen' : List (Key α)} (h : ∀ k, k ∈ seen ↔ k ∈ seen') (values : List α) :
    fresh seen values = fresh seen' values := by
  induction values generalizing seen seen' with
  | nil => rfl
  | cons a rest ih =>
    have longer : fresh (key a :: seen) rest = fresh (key a :: seen') rest :=
      ih fun k => by simp [h k]
    simp [fresh, h, ih h, longer]

theorem key_notMem_of_mem_fresh {seen : List (Key α)} {values : List α} {a : α}
    (mem : a ∈ fresh seen values) : key a ∉ seen := by
  induction values generalizing seen with
  | nil => simp [fresh] at mem
  | cons b rest ih =>
    simp only [fresh] at mem
    split at mem
    · exact ih mem
    · next new =>
      rcases List.mem_cons.mp mem with rfl | later
      · exact new
      · exact fun old => ih later (List.mem_cons_of_mem _ old)

theorem fresh_sublist (seen : List (Key α)) (values : List α) :
    (fresh seen values).Sublist values := by
  induction values generalizing seen with
  | nil => exact .slnil
  | cons a rest ih =>
    simp only [fresh]
    split
    · exact (ih seen).cons a
    · exact (ih _).cons_cons a

/-- A new value is the first of the list that is the same. -/
theorem find?_of_mem_fresh {seen : List (Key α)} {values : List α} {a : α}
    (mem : a ∈ fresh seen values) : values.find? (key · = key a) = some a := by
  induction values generalizing seen with
  | nil => cases mem
  | cons b rest ih =>
    simp only [fresh] at mem
    split at mem
    · next old =>
      have apart : key b ≠ key a := fun same => key_notMem_of_mem_fresh mem (same ▸ old)
      rw [List.find?_cons_of_neg (by simpa using apart), ih mem]
    · rcases List.mem_cons.mp mem with rfl | later
      · exact List.find?_cons_of_pos (by simp)
      · have apart : key b ≠ key a := fun same =>
          key_notMem_of_mem_fresh later (same ▸ List.mem_cons_self)
        rw [List.find?_cons_of_neg (by simpa using apart), ih later]

theorem pairwise_fresh (seen : List (Key α)) (values : List α) :
    (fresh seen values).Pairwise fun a b => key a ≠ key b := by
  induction values generalizing seen with
  | nil => exact .nil
  | cons a rest ih =>
    simp only [fresh]
    split
    · exact ih seen
    · exact List.pairwise_cons.mpr ⟨fun b mem same =>
        key_notMem_of_mem_fresh mem (same ▸ List.mem_cons_self), ih _⟩

/-- What is new of a list are its values that were not seen. -/
theorem mem_map_key_fresh {seen : List (Key α)} {values : List α} {k : Key α} :
    k ∈ (fresh seen values).map key ↔ k ∈ values.map key ∧ k ∉ seen := by
  induction values generalizing seen with
  | nil => simp [fresh]
  | cons a rest ih =>
    by_cases old : key a ∈ seen
    · rw [fresh_cons_of_mem old, ih, List.map_cons, List.mem_cons]
      grind
    · rw [fresh_cons_of_notMem old, List.map_cons, List.mem_cons, ih, List.map_cons, List.mem_cons]
      grind

theorem fresh_eq_nil {seen : List (Key α)} {values : List α}
    (old : ∀ a ∈ values, key a ∈ seen) : fresh seen values = [] := by
  induction values with
  | nil => rfl
  | cons a rest ih =>
    rw [fresh_cons_of_mem (old a List.mem_cons_self)]
    exact ih fun b mem => old b (List.mem_cons_of_mem _ mem)

theorem fresh_append (seen : List (Key α)) (front back : List α) :
    fresh seen (front ++ back) = fresh seen front ++ fresh (front.map key ++ seen) back := by
  induction front generalizing seen with
  | nil => rfl
  | cons a rest ih =>
    rw [List.cons_append]
    by_cases old : key a ∈ seen
    · rw [fresh_cons_of_mem old, fresh_cons_of_mem old, ih]
      exact congrArg _ (fresh_congr (fun k => by grind) back)
    · rw [fresh_cons_of_notMem old, fresh_cons_of_notMem old, ih, List.cons_append]
      exact congrArg (a :: _ ++ ·) (fresh_congr (fun k => by grind) back)

/-- Values that were all seen make no difference to what is new after them. -/
theorem fresh_append_of_old {seen : List (Key α)} {front : List α}
    (old : ∀ a ∈ front, key a ∈ seen) (back : List α) :
    fresh seen (front ++ back) = fresh seen back := by
  rw [fresh_append, fresh_eq_nil old, List.nil_append]
  refine fresh_congr (fun k => ⟨fun mem => ?_, List.mem_append_right _⟩) back
  rcases List.mem_append.mp mem with mem | mem
  · obtain ⟨a, mem', rfl⟩ := List.mem_map.mp mem
    exact old a mem'
  · exact mem

/-- Lists with the same new values leave the same values seen. -/
theorem mem_seen_congr {seen : List (Key α)} {front front' : List α}
    (same : fresh seen front = fresh seen front') (k : Key α) :
    k ∈ front.map key ++ seen ↔ k ∈ front'.map key ++ seen := by
  have parts (values : List α) :
      k ∈ values.map key ++ seen ↔ k ∈ (fresh seen values).map key ∨ k ∈ seen := by
    rw [List.mem_append, mem_map_key_fresh]
    grind
  rw [parts, parts, same]

theorem fresh_append_congr {seen : List (Key α)} {front front' back back' : List α}
    (same : fresh seen front = fresh seen front')
    (same' : fresh (front'.map key ++ seen) back = fresh (front'.map key ++ seen) back') :
    fresh seen (front ++ back) = fresh seen (front' ++ back') := by
  rw [fresh_append, fresh_append, same, ← same']
  exact congrArg _ (fresh_congr (mem_seen_congr same) back)

/-- All values are new if none was seen and no two are the same. -/
theorem fresh_eq_self {seen : List (Key α)} {values : List α}
    (distinct : values.Pairwise fun a b => key a ≠ key b) (new : ∀ a ∈ values, key a ∉ seen) :
    fresh seen values = values := by
  induction values generalizing seen with
  | nil => rfl
  | cons a rest ih =>
    have ⟨apart, distinct⟩ := List.pairwise_cons.mp distinct
    rw [fresh_cons_of_notMem (new a List.mem_cons_self), ih distinct fun b mem => ?_]
    simpa [(apart b mem).symm] using new b (List.mem_cons_of_mem _ mem)

theorem fresh_fresh {seen earlier : List (Key α)} (sub : ∀ k ∈ earlier, k ∈ seen)
    (values : List α) : fresh seen (fresh earlier values) = fresh seen values := by
  induction values generalizing seen earlier with
  | nil => rfl
  | cons a rest ih =>
    by_cases old : key a ∈ earlier
    · rw [fresh_cons_of_mem old, ih sub, fresh_cons_of_mem (sub _ old)]
    · rw [fresh_cons_of_notMem old]
      by_cases old' : key a ∈ seen
      · rw [fresh_cons_of_mem old', fresh_cons_of_mem old']
        exact ih fun k mem => by grind
      · rw [fresh_cons_of_notMem old', fresh_cons_of_notMem old']
        exact congrArg _ (ih fun k mem => by grind)

end Identity

open Identity

instance : Identity String := .ofKey id
instance : Identity Path := .ofKey Path.components

/-- A list in which no two values are the same. -/
structure OrderedSet (α : Type) [Identity α] where
  toList : List α
  distinct : toList.Pairwise fun a b => key a ≠ key b

namespace OrderedSet

variable {α : Type} [Identity α]

theorem ext {s t : OrderedSet α} (h : s.toList = t.toList) : s = t := by
  cases s; cases t; cases h; rfl

instance [DecidableEq α] : DecidableEq (OrderedSet α) := fun s t =>
  if h : s.toList = t.toList then isTrue (ext h) else isFalse fun e => h (e ▸ rfl)

def empty : OrderedSet α := ⟨[], .nil⟩

instance : Inhabited (OrderedSet α) := ⟨empty⟩

def isEmpty (s : OrderedSet α) : Bool :=
  s.toList.isEmpty

def keys (s : OrderedSet α) : List (Key α) :=
  s.toList.map key

/-- Whether the set holds the value, in this or another spelling. -/
def contains (s : OrderedSet α) (a : α) : Bool :=
  key a ∈ s.keys

/-- The set with each value of a list at its end, unless it is there already. -/
def extend (s : OrderedSet α) (values : List α) : OrderedSet α where
  toList := s.toList ++ fresh s.keys values
  distinct := List.pairwise_append.mpr ⟨s.distinct, pairwise_fresh _ _, fun _ mem _ mem' same =>
    key_notMem_of_mem_fresh mem' (same ▸ List.mem_map_of_mem mem)⟩

/-- The set with the value at its end, unless it holds it already. -/
def insert (s : OrderedSet α) (a : α) : OrderedSet α :=
  s.extend [a]

/-- The values of a list, each where it first occurs. -/
def ofList (values : List α) : OrderedSet α :=
  empty.extend values

/-- The members that pass a test, in order. -/
def filter (s : OrderedSet α) (test : α → Bool) : OrderedSet α :=
  ⟨s.toList.filter test, s.distinct.filter test⟩

def restrict (s : OrderedSet α) (values : List α) : OrderedSet α :=
  ⟨common s.toList values, s.distinct.filter _⟩

theorem toList_ofList (values : List α) : (ofList values).toList = fresh [] values :=
  List.nil_append _

theorem ofList_toList (s : OrderedSet α) : ofList s.toList = s :=
  ext ((toList_ofList _).trans (fresh_eq_self s.distinct (by simp)))

theorem isEmpty_ofList (values : List α) : (ofList values).isEmpty = values.isEmpty := by
  cases values with
  | nil => rfl
  | cons a rest =>
    rw [isEmpty, toList_ofList, fresh_cons_of_notMem (by simp)]
    rfl

/-- A set holds its values in a spelling in which they came. -/
theorem mem_of_mem_ofList {values : List α} {a : α} (mem : a ∈ (ofList values).toList) :
    a ∈ values :=
  (fresh_sublist [] values).subset (toList_ofList values ▸ mem)

theorem mem_keys_ofList {values : List α} {k : Key α} :
    k ∈ (ofList values).keys ↔ k ∈ values.map key := by
  rw [keys, toList_ofList, mem_map_key_fresh]
  simp

theorem contains_ofList_iff {values : List α} {a : α} :
    (ofList values).contains a = true ↔ ∃ b ∈ values, key b = key a := by
  rw [contains, decide_eq_true_iff, mem_keys_ofList, List.mem_map]

theorem contains_ofList_of_mem {values : List α} {a : α} (mem : a ∈ values) :
    (ofList values).contains a = true :=
  contains_ofList_iff.mpr ⟨a, mem, rfl⟩

theorem contains_iff {s : OrderedSet α} {a : α} :
    s.contains a = true ↔ ∃ b ∈ s.toList, key a = key b := by
  rw [contains, decide_eq_true_iff, keys, List.mem_map]
  exact exists_congr fun b => and_congr_right fun _ => eq_comm

/-- To put the first value of a set before it changes nothing. -/
theorem ofList_cons_of_head? {s : OrderedSet α} {a : α} (first : s.toList.head? = some a) :
    ofList (a :: s.toList) = s := by
  obtain ⟨rest, same⟩ : ∃ rest, s.toList = a :: rest := List.head?_eq_some_iff.mp first
  have distinct := s.distinct
  apply ext
  rw [toList_ofList, fresh_cons_of_notMem (by simp), same,
    fresh_cons_of_mem List.mem_cons_self]
  rw [same] at distinct
  have ⟨apart, distinct⟩ := List.pairwise_cons.mp distinct
  rw [fresh_eq_self distinct fun b mem => by simpa using (apart b mem).symm]

theorem toList_extend (s : OrderedSet α) (values : List α) :
    (s.extend values).toList = s.toList ++ fresh s.keys values :=
  rfl

theorem toList_insert (s : OrderedSet α) (a : α) :
    (s.insert a).toList = if s.contains a then s.toList else s.toList ++ [a] := by
  by_cases h : key a ∈ s.keys <;> simp [insert, extend, contains, fresh, h]

@[simp] theorem extend_nil (s : OrderedSet α) : s.extend [] = s :=
  ext (List.append_nil _)

@[simp] theorem extend_cons (s : OrderedSet α) (a : α) (values : List α) :
    s.extend (a :: values) = (s.insert a).extend values := by
  apply ext
  by_cases h : key a ∈ s.keys
  · have unchanged : s.insert a = s := ext (by simp [toList_insert, contains, h])
    simp [toList_extend, unchanged, fresh, h]
  · have grown : (s.insert a).toList = s.toList ++ [a] := by simp [toList_insert, contains, h]
    have seen : fresh (key a :: s.keys) values = fresh (s.insert a).keys values :=
      fresh_congr (fun k => by simp [keys, grown, or_comm]) values
    simp [toList_extend, grown, fresh, h, seen]

end OrderedSet

end ObjcPlan
