import ObjcPlan.Proofs.Replanning
import Mathlib.Data.Finset.Card
import Mathlib.Data.List.DropRight

/-! What a cache answers after any history of requests. The history alone decides it: an analysis is
found if it was the last to be stored under its key since the cache was emptied, and was stored with
the same digest; hits and misses are counted over the whole history, and the keys since the cache
was emptied (`Cache.answers_follow_history`). -/

namespace ObjcPlan.Cache

/-- What a cache can be asked to do. -/
inductive Request
  | get (label : Label) (fingerprint : Fingerprint) (digest : String)
  | insert (fingerprint : Fingerprint) (digest : String) (library : AnalyzedLibrary)
  | clear
  | stats

inductive Answer
  | found (library : Option AnalyzedLibrary)
  | done
  | stats (stats : Stats)

namespace Answer

def isHit : Answer → Bool
  | found (some _) => true
  | _ => false

def isMiss : Answer → Bool
  | found none => true
  | _ => false

end Answer

namespace Request

def isGet : Request → Bool
  | get .. => true
  | _ => false

def isClear : Request → Bool
  | clear => true
  | _ => false

/-- What a request stores, and under which key. -/
def stored? : Request → Option (Key × Entry)
  | insert fingerprint digest library => some (⟨library.label, fingerprint⟩, ⟨digest, library⟩)
  | _ => none

/-- The answer of a cache, and the cache that it leaves behind. -/
def serve (c : Cache) : Request → Answer × Cache
  | get label fingerprint digest =>
    (.found (c.get label fingerprint digest).1, (c.get label fingerprint digest).2)
  | insert fingerprint digest library => (.done, c.insert fingerprint digest library)
  | clear => (.done, c.clear)
  | stats => (.stats c.stats, c)

end Request

/-- The answers to some requests, one after the other. -/
def answers (c : Cache) : List Request → List Answer
  | [] => []
  | request :: rest => (request.serve c).1 :: (request.serve c).2.answers rest

/-- The cache after some requests. -/
def after (c : Cache) (history : List Request) : Cache :=
  history.foldl (fun c request => (request.serve c).2) c

/-- What a history has stored since it last emptied the cache, in order. -/
def stored (history : List Request) : List (Key × Entry) :=
  (history.rtakeWhile fun request => !request.isClear).filterMap Request.stored?

/-- What was stored last under a key. -/
def lastStored? (history : List Request) (key : Key) : Option Entry :=
  ((stored history).reverse.find? fun item => item.1 = key).map (·.2)

variable {history : List Request} {request : Request} {key : Key}

/-! ### One more request -/

theorem after_concat (c : Cache) (history : List Request) (request : Request) :
    c.after (history ++ [request]) = (request.serve (c.after history)).2 := by
  simp [after]

theorem answers_concat (c : Cache) (history : List Request) (request : Request) :
    c.answers (history ++ [request]) =
      c.answers history ++ [(request.serve (c.after history)).1] := by
  induction history generalizing c with
  | nil => rfl
  | cons first rest ih => exact congrArg (List.cons _) (ih _)

theorem stored_concat (history : List Request) (request : Request) :
    stored (history ++ [request]) =
      if request.isClear then [] else stored history ++ request.stored?.toList := by
  cases request <;> simp [stored, Request.isClear, Request.stored?]

/-- A request that neither stores nor empties leaves what was stored last. -/
theorem lastStored?_concat_of_reads (keeps : request.isClear = false)
    (reads : request.stored? = none) (key : Key) :
    lastStored? (history ++ [request]) key = lastStored? history key := by
  simp [lastStored?, stored_concat, keeps, reads]

theorem lastStored?_concat_insert (history : List Request) (fingerprint : Fingerprint)
    (digest : String) (library : AnalyzedLibrary) (key : Key) :
    lastStored? (history ++ [.insert fingerprint digest library]) key =
      if key = ⟨library.label, fingerprint⟩ then some ⟨digest, library⟩
      else lastStored? history key := by
  have grown : stored (history ++ [.insert fingerprint digest library]) =
      stored history ++ [(⟨library.label, fingerprint⟩, ⟨digest, library⟩)] :=
    stored_concat history _
  rw [lastStored?, grown, List.reverse_append, List.reverse_singleton, List.singleton_append,
    List.find?_cons]
  by_cases same : key = ⟨library.label, fingerprint⟩
  · simp [same]
  · simp [same, lastStored?, Ne.symm same]

/-! ### What is kept and what is counted -/

theorem get_cases (c : Cache) (label : Label) (fingerprint : Fingerprint) (digest : String) :
    (∃ library, c.find? label fingerprint digest = some library ∧
      c.get label fingerprint digest = (some library, { c with hits := c.hits + 1 })) ∨
    c.find? label fingerprint digest = none ∧
      c.get label fingerprint digest = (none, { c with misses := c.misses + 1 }) := by
  unfold get
  cases c.find? label fingerprint digest with
  | some library => exact .inl ⟨library, rfl, rfl⟩
  | none => exact .inr ⟨rfl, rfl⟩

/-- A cache keeps what was stored last. -/
theorem get?_after (history : List Request) (key : Key) :
    (empty.after history).entries.get? key = lastStored? history key := by
  induction history using List.reverseRecOn with
  | nil => rfl
  | append_singleton history request ih =>
    rw [after_concat]
    cases request with
    | get label fingerprint digest =>
      rw [lastStored?_concat_of_reads rfl rfl, ← ih, Request.serve]
      obtain ⟨_, _, got⟩ | ⟨_, got⟩ := (empty.after history).get_cases label fingerprint digest <;>
        rw [got]
    | insert fingerprint digest library =>
      rw [lastStored?_concat_insert, ← ih]
      split
      · next same =>
        rw [same]
        exact SortedMap.get?_insert_self ..
      · next other => exact SortedMap.get?_insert_of_ne _ _ other
    | clear => simp [lastStored?, stored_concat, Request.isClear, Request.serve, Cache.clear]
    | stats => rw [lastStored?_concat_of_reads rfl rfl, ← ih, Request.serve]

theorem lastStored?_isSome_iff :
    (lastStored? history key).isSome = true ↔ key ∈ (stored history).map Prod.fst := by
  simp [lastStored?, and_comm]

/-- There are as many entries as keys under which something was stored. -/
theorem size_after (history : List Request) : (empty.after history).entries.size =
    ((stored history).map Prod.fst).toFinset.card := by
  have keys : (empty.after history).entries.keys.toFinset =
      ((stored history).map Prod.fst).toFinset := by
    ext key
    rw [List.mem_toFinset, List.mem_toFinset, ← SortedMap.contains_iff, SortedMap.contains,
      get?_after, lastStored?_isSome_iff]
  rw [← keys, List.toFinset_card_of_nodup (SortedMap.nodup_keys _), SortedMap.keys,
    List.length_map]
  rfl

/-- A request changes the counts by its answer. -/
theorem counts_serve (request : Request) (c : Cache) :
    (request.serve c).2.hits = c.hits + [(request.serve c).1].countP Answer.isHit ∧
      (request.serve c).2.misses = c.misses + [(request.serve c).1].countP Answer.isMiss := by
  cases request with
  | get label fingerprint digest =>
    rw [Request.serve]
    obtain ⟨_, _, got⟩ | ⟨_, got⟩ := c.get_cases label fingerprint digest <;> rw [got] <;>
      exact ⟨rfl, rfl⟩
  | _ => exact ⟨rfl, rfl⟩

theorem counts_after (history : List Request) :
    (empty.after history).hits = (empty.answers history).countP Answer.isHit ∧
      (empty.after history).misses = (empty.answers history).countP Answer.isMiss := by
  induction history using List.reverseRecOn with
  | nil => exact ⟨rfl, rfl⟩
  | append_singleton history request ih =>
    have ⟨hits, misses⟩ := counts_serve request (empty.after history)
    rw [after_concat, answers_concat, List.countP_append, List.countP_append, hits, misses, ih.1,
      ih.2]
    exact ⟨rfl, rfl⟩

/-- Every `get` is a hit or a miss, and nothing else is. -/
theorem countP_answers (c : Cache) (history : List Request) :
    (c.answers history).countP Answer.isHit + (c.answers history).countP Answer.isMiss =
      history.countP Request.isGet := by
  induction history generalizing c with
  | nil => rfl
  | cons request rest ih =>
    rw [answers, List.countP_cons, List.countP_cons, List.countP_cons, ← ih (request.serve c).2]
    cases request with
    | get label fingerprint digest =>
      obtain ⟨_, _, got⟩ | ⟨_, got⟩ := c.get_cases label fingerprint digest <;>
        simp only [Request.serve, got, Request.isGet, Answer.isHit, Answer.isMiss, if_true,
          Bool.false_eq_true, if_false] <;>
        omega
    | _ => simp [Request.serve, Request.isGet, Answer.isHit, Answer.isMiss]

/-- After any history a cache finds an analysis exactly if it was the last to be stored under its
label and configuration since the cache was emptied, and was stored with the digest that is asked
for. It counts as hits and misses the answers so far with and without an analysis, which are as many
as it was asked for, and as entries the labels and configurations under which something was stored
since it was emptied. -/
theorem answers_follow_history (history : List Request) :
    (∀ request, empty.answers (history ++ [request]) =
      empty.answers history ++ [(request.serve (empty.after history)).1]) ∧
    (∀ label fingerprint digest, ∃ found : Option AnalyzedLibrary,
      (Request.serve (empty.after history) (.get label fingerprint digest)).1 = .found found ∧
      ∀ library, found = some library ↔
        lastStored? history ⟨label, fingerprint⟩ = some ⟨digest, library⟩) ∧
    (Request.serve (empty.after history) .stats).1 = .stats {
      entries := ((stored history).map Prod.fst).toFinset.card
      hits := (empty.answers history).countP Answer.isHit
      misses := (empty.answers history).countP Answer.isMiss } ∧
    (empty.answers history).countP Answer.isHit + (empty.answers history).countP Answer.isMiss =
      history.countP Request.isGet := by
  refine ⟨answers_concat empty history, fun label fingerprint digest => ⟨_, rfl, fun library => ?_⟩,
    ?_, countP_answers empty history⟩
  · rw [← get?_after, ← find?_eq_some_iff]
    obtain ⟨_, found, got⟩ | ⟨found, got⟩ :=
      (empty.after history).get_cases label fingerprint digest <;> rw [got, found]
  · obtain ⟨hits, misses⟩ := counts_after history
    rw [← size_after, ← hits, ← misses]
    rfl

end ObjcPlan.Cache
