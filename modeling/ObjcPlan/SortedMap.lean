/-!
Finite maps that list their entries by key. The order of the keys is the only thing that fixes the
order of the entries, so two maps with the same entries are equal however they were built.
-/

namespace ObjcPlan

open Std

/-- Entries in strictly increasing order of their keys. -/
structure SortedMap (κ α : Type) [Ord κ] where
  entries : List (κ × α)
  sorted : entries.Pairwise fun a b => compare a.1 b.1 = .lt

namespace SortedMap

variable {κ α : Type} [Ord κ]

theorem ext {m n : SortedMap κ α} (h : m.entries = n.entries) : m = n := by
  cases m; cases n; cases h; rfl

instance [DecidableEq κ] [DecidableEq α] : DecidableEq (SortedMap κ α) := fun m n =>
  if h : m.entries = n.entries then isTrue (ext h) else isFalse fun e => h (e ▸ rfl)

def empty : SortedMap κ α := ⟨[], .nil⟩

instance : Inhabited (SortedMap κ α) := ⟨empty⟩

def size (m : SortedMap κ α) : Nat :=
  m.entries.length

def isEmpty (m : SortedMap κ α) : Bool :=
  m.entries.isEmpty

def keys (m : SortedMap κ α) : List κ :=
  m.entries.map (·.1)

def values (m : SortedMap κ α) : List α :=
  m.entries.map (·.2)

def get? (m : SortedMap κ α) (key : κ) : Option α :=
  (m.entries.find? fun entry => compare entry.1 key == .eq).map (·.2)

def contains (m : SortedMap κ α) (key : κ) : Bool :=
  (m.get? key).isSome

/-- The entries with one more in its place; an entry with the same key gives way. -/
def insertEntry (key : κ) (value : α) : List (κ × α) → List (κ × α)
  | [] => [(key, value)]
  | entry :: rest =>
    match compare key entry.1 with
    | .lt => (key, value) :: entry :: rest
    | .eq => (key, value) :: rest
    | .gt => entry :: insertEntry key value rest

theorem mem_insertEntry {key : κ} {value : α} {entry : κ × α} {entries : List (κ × α)}
    (h : entry ∈ insertEntry key value entries) : entry = (key, value) ∨ entry ∈ entries := by
  induction entries with
  | nil => simpa [insertEntry] using h
  | cons head rest ih =>
    unfold insertEntry at h
    split at h <;> grind

theorem sorted_insertEntry [TransOrd κ] (key : κ) (value : α) {entries : List (κ × α)}
    (sorted : entries.Pairwise fun a b => compare a.1 b.1 = .lt) :
    (insertEntry key value entries).Pairwise fun a b => compare a.1 b.1 = .lt := by
  induction entries with
  | nil => simp [insertEntry]
  | cons head rest ih =>
    have ⟨before, tail⟩ := List.pairwise_cons.mp sorted
    unfold insertEntry
    split
    · next lt =>
      refine List.pairwise_cons.mpr ⟨fun entry mem => ?_, sorted⟩
      rcases List.mem_cons.mp mem with rfl | mem
      · exact lt
      · exact TransCmp.lt_trans lt (before entry mem)
    · next eq =>
      exact List.pairwise_cons.mpr
        ⟨fun entry mem => TransCmp.lt_of_eq_of_lt eq (before entry mem), tail⟩
    · next gt =>
      refine List.pairwise_cons.mpr ⟨fun entry mem => ?_, ih tail⟩
      rcases mem_insertEntry mem with rfl | mem
      · exact OrientedCmp.lt_of_gt gt
      · exact before entry mem

theorem find?_insertEntry [TransOrd κ] (key other : κ) (value : α) (entries : List (κ × α)) :
    ((insertEntry key value entries).find? fun entry => compare entry.1 other == .eq).map (·.2) =
      if compare key other = .eq then some value
      else (entries.find? fun entry => compare entry.1 other == .eq).map (·.2) := by
  induction entries with
  | nil => by_cases h : compare key other = .eq <;> simp [insertEntry, h]
  | cons head rest ih =>
    unfold insertEntry
    split
    · by_cases h : compare key other = .eq <;> simp [h]
    · next eq =>
      rw [List.find?_cons, List.find?_cons, TransCmp.congr_left eq]
      by_cases h : compare head.1 other = .eq
      · simp [h]
      · simp [h, beq_eq_false_iff_ne.mpr h]
    · next gt =>
      rw [List.find?_cons, List.find?_cons]
      by_cases h : compare head.1 other = .eq
      · simp [h, ← TransCmp.congr_right h, gt]
      · simpa [beq_eq_false_iff_ne.mpr h] using ih

/-- The map with a key bound to a value, in place of any value it had. -/
def insert [TransOrd κ] (m : SortedMap κ α) (key : κ) (value : α) : SortedMap κ α :=
  ⟨insertEntry key value m.entries, sorted_insertEntry key value m.sorted⟩

@[simp] theorem get?_empty (key : κ) : (empty : SortedMap κ α).get? key = none := rfl

/-- A key is bound to the value inserted last, and other keys keep theirs. -/
theorem get?_insert [TransOrd κ] (m : SortedMap κ α) (key other : κ) (value : α) :
    (m.insert key value).get? other =
      if compare key other = .eq then some value else m.get? other :=
  find?_insertEntry key other value m.entries

section LawfulKeys

variable [LawfulEqOrd κ] {m n : SortedMap κ α} {key : κ} {value : α}

theorem key_ne_of_lt {a b : κ} (h : compare a b = .lt) : a ≠ b := by
  rintro rfl
  rw [ReflOrd.compare_self] at h
  contradiction

theorem find?_of_mem {entries : List (κ × α)}
    (sorted : entries.Pairwise fun a b => compare a.1 b.1 = .lt) (mem : (key, value) ∈ entries) :
    entries.find? (fun entry => compare entry.1 key == .eq) = some (key, value) := by
  induction entries with
  | nil => simp at mem
  | cons head rest ih =>
    have ⟨before, tail⟩ := List.pairwise_cons.mp sorted
    rcases List.mem_cons.mp mem with rfl | later
    · simp [ReflOrd.compare_self]
    · have lt := before _ later
      simp [lt, ih tail later]

theorem nodup_keys (m : SortedMap κ α) : m.keys.Nodup :=
  List.pairwise_map.mpr (m.sorted.imp key_ne_of_lt)

theorem get?_eq_some_iff : m.get? key = some value ↔ (key, value) ∈ m.entries := by
  constructor
  · intro h
    obtain ⟨entry, found, rfl⟩ := Option.map_eq_some_iff.mp h
    have same : compare entry.1 key = .eq := by simpa using List.find?_some found
    rw [← LawfulEqOrd.eq_of_compare same]
    exact List.mem_of_find?_eq_some found
  · intro mem
    simp [get?, find?_of_mem m.sorted mem]

theorem contains_iff : m.contains key = true ↔ key ∈ m.keys := by
  constructor
  · intro h
    obtain ⟨value, found⟩ := Option.isSome_iff_exists.mp h
    exact List.mem_map_of_mem (get?_eq_some_iff.mp found)
  · intro mem
    obtain ⟨entry, found, rfl⟩ := List.mem_map.mp mem
    exact Option.isSome_iff_exists.mpr ⟨entry.2, get?_eq_some_iff.mpr found⟩

variable [TransOrd κ]

/-- A map is what looking keys up tells of it. -/
theorem ext_get? (h : ∀ key, m.get? key = n.get? key) : m = n := by
  have distinct (m : SortedMap κ α) : m.entries.Nodup :=
    m.sorted.imp fun lt same => key_ne_of_lt lt (congrArg Prod.fst same)
  have same : m.entries.Perm n.entries := by
    refine (List.perm_ext_iff_of_nodup (distinct m) (distinct n)).mpr fun entry => ?_
    rw [← get?_eq_some_iff, ← get?_eq_some_iff, h]
  refine ext (same.eq_of_pairwise (fun a b _ _ ab ba => ?_) m.sorted n.sorted)
  rw [OrientedCmp.gt_of_lt ab] at ba
  contradiction

theorem get?_insert_self (m : SortedMap κ α) (key : κ) (value : α) :
    (m.insert key value).get? key = some value := by
  simp [get?_insert, ReflOrd.compare_self]

theorem get?_insert_of_ne {other : κ} (m : SortedMap κ α) (value : α) (h : other ≠ key) :
    (m.insert key value).get? other = m.get? other := by
  have ne : compare key other ≠ .eq := fun eq => h (LawfulEqOrd.eq_of_compare eq).symm
  simp [get?_insert, ne]

end LawfulKeys

/-- The map of a list of entries; of two with the same key the later one stays. -/
def ofList [TransOrd κ] (entries : List (κ × α)) : SortedMap κ α :=
  entries.foldl (fun m entry => m.insert entry.1 entry.2) empty

end SortedMap

/-- A set as the keys of a map, hence in increasing order. -/
abbrev SortedSet (κ : Type) [Ord κ] := SortedMap κ Unit

namespace SortedSet

variable {κ : Type} [Ord κ]

def ofList [TransOrd κ] (members : List κ) : SortedSet κ :=
  SortedMap.ofList (members.map (·, ()))

end SortedSet

end ObjcPlan
