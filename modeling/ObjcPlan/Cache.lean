import ObjcPlan.Analysis
import ObjcPlan.Fingerprint

/-!
The cache of analyses. It keeps one analysis for each label and configuration, the one that was
stored last, and hands it out only for the inputs it was made from. Hits and misses are counted over
the whole life of the cache.
-/

namespace ObjcPlan

namespace Cache

/-- What an analysis is kept under. -/
structure Key where
  label : Label
  fingerprint : Fingerprint
  deriving DecidableEq

namespace Key

/-- Keys are ordered by label and then by fingerprint. -/
instance : Ord Key := ⟨compareLex (compareOn label) (compareOn (·.fingerprint.digest))⟩

instance : Std.TransOrd Key :=
  inferInstanceAs (Std.TransCmp (compareLex (compareOn label) (compareOn (·.fingerprint.digest))))

instance : Std.LawfulEqOrd Key where
  compare_self := Std.ReflOrd.compare_self
  eq_of_compare {a b} h := by
    have ⟨label, digest⟩ := Ordering.then_eq_eq.mp h
    obtain ⟨_, ⟨_⟩⟩ := a
    obtain ⟨_, ⟨_⟩⟩ := b
    cases (Std.LawfulEqOrd.eq_of_compare label)
    cases (Std.LawfulEqOrd.eq_of_compare digest)
    rfl

end Key

/-- An analysis with the digest of its inputs. -/
structure Entry where
  digest : String
  library : AnalyzedLibrary
  deriving DecidableEq

structure Stats where
  entries : Nat
  hits : Nat
  misses : Nat
  deriving DecidableEq

end Cache

/-- Analyses, each under its own label. -/
structure Cache where
  entries : SortedMap Cache.Key Cache.Entry
  keyed : ∀ entry ∈ entries.entries, entry.2.library.label = entry.1.label
  hits : Nat
  misses : Nat
  deriving DecidableEq

namespace Cache

def empty : Cache := ⟨.empty, by simp [SortedMap.empty], 0, 0⟩

instance : Inhabited Cache := ⟨empty⟩

/-- The analysis kept for a label and a configuration, if its inputs had the given digest. -/
def find? (c : Cache) (label : Label) (fingerprint : Fingerprint) (digest : String) :
    Option AnalyzedLibrary :=
  match c.entries.get? ⟨label, fingerprint⟩ with
  | some entry => if entry.digest = digest then some entry.library else none
  | none => none

/-- Looks an analysis up and counts the hit or the miss. -/
def get (c : Cache) (label : Label) (fingerprint : Fingerprint) (digest : String) :
    Option AnalyzedLibrary × Cache :=
  match c.find? label fingerprint digest with
  | some library => (some library, { c with hits := c.hits + 1 })
  | none => (none, { c with misses := c.misses + 1 })

/-- The cache with an analysis stored, in place of any for the same label and configuration. -/
def insert (c : Cache) (fingerprint : Fingerprint) (digest : String) (library : AnalyzedLibrary) :
    Cache :=
  { c with
    entries := c.entries.insert ⟨library.label, fingerprint⟩ ⟨digest, library⟩
    keyed := fun entry mem => by
      rcases SortedMap.mem_insertEntry mem with rfl | mem
      · rfl
      · exact c.keyed entry mem }

/-- The cache without any analysis; the counts stay. -/
def clear (c : Cache) : Cache :=
  { c with entries := .empty, keyed := empty.keyed }

def stats (c : Cache) : Stats :=
  ⟨c.entries.size, c.hits, c.misses⟩

end Cache

end ObjcPlan
