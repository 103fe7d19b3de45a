import Mathlib.Data.List.Chain
import ObjcPlan.Proofs.BuildOrder

/-! The search for a cycle. A search that is exhausted has found that every way down ends
(`Explores.ends`), and what it finds otherwise is a cycle (`Explores.circles`), so a graph that
cannot be ordered is refused with one of its cycles (`TargetGraph.refused_by_cycle`). The search is
also run with marks on the labels instead of lists of libraries, and with a bound on the calls
inside each other: these are never more than there are libraries (`markedCycle?_eq`). -/

namespace ObjcPlan.TargetGraph

variable {g : TargetGraph} {path todo labels : List Label} {fresh rest : List Library}
  {next : Label} {result : Except (List Label) (List Library)}

/-- The cycle that a search found, or else the libraries that it has not entered. -/
def Search.ending : Search fresh → Except (List Label) (List Library)
  | .cycle labels => .error labels
  | .exhausted rest _ => .ok rest

/-- The steps of a search, and how it ends. -/
inductive Explores :
    List Label → List Label → List Library → Except (List Label) (List Library) → Prop
  | done (path : List Label) (fresh : List Library) : Explores path [] fresh (.ok fresh)
  | closes {path : List Label} {next : Label} (back : next ∈ path) (todo : List Label)
      (fresh : List Library) :
      Explores path (next :: todo) fresh (.error (path.dropWhile (· ≠ next) ++ [next]))
  | skips {path todo : List Label} {fresh : List Library} {next : Label}
      {result : Except (List Label) (List Library)} (ahead : next ∉ path)
      (known : fresh.find? (·.label = next) = none) (later : Explores path todo fresh result) :
      Explores path (next :: todo) fresh result
  | finds {path labels : List Label} {fresh : List Library} {next : Label} {t : Library}
      (ahead : next ∉ path) (entered : fresh.find? (·.label = next) = some t)
      (below : Explores (path ++ [next]) t.deps (without next fresh) (.error labels))
      (todo : List Label) : Explores path (next :: todo) fresh (.error labels)
  | leaves {path todo : List Label} {fresh rest : List Library} {next : Label} {t : Library}
      {result : Except (List Label) (List Library)} (ahead : next ∉ path)
      (entered : fresh.find? (·.label = next) = some t)
      (below : Explores (path ++ [next]) t.deps (without next fresh) (.ok rest))
      (later : Explores path todo rest result) : Explores path (next :: todo) fresh result

theorem explores_search (path todo : List Label) (fresh : List Library) :
    Explores path todo fresh (search path todo fresh).ending := by
  fun_induction search path todo fresh with
  | case1 path fresh => exact .done path fresh
  | case2 path fresh next todo back => exact .closes back todo fresh
  | case3 path fresh next todo ahead known ih => exact .skips ahead known ih
  | case4 path fresh next todo ahead t entered shorter labels found ih =>
    rw [found] at ih
    exact .finds ahead entered ih todo
  | case5 path fresh next todo ahead t entered shorter rest le below labels later ih ih' =>
    rw [below] at ih
    rw [later] at ih'
    exact .leaves ahead entered ih ih'
  | case6 path fresh next todo ahead t entered shorter rest le below last le' later ih ih' =>
    rw [below] at ih
    rw [later] at ih'
    exact .leaves ahead entered ih ih'

theorem mem_of_entered {t : Library} (entered : fresh.find? (·.label = next) = some t) :
    t ∈ fresh ∧ t.label = next :=
  ⟨List.mem_of_find?_eq_some entered, by simpa using List.find?_some entered⟩

theorem mem_without {t : Library} : t ∈ without next fresh ↔ t ∈ fresh ∧ t.label ≠ next := by
  simp [without]

theorem Explores.rest_sublist (explored : Explores path todo fresh result) :
    ∀ rest, result = .ok rest → rest.Sublist fresh := by
  induction explored with
  | done path fresh =>
    rintro _ ⟨⟩
    exact .refl _
  | closes => exact fun _ same => by contradiction
  | skips _ _ _ ih => exact ih
  | finds => exact fun _ same => by contradiction
  | leaves ahead entered below later ih ih' =>
    exact fun last same => ((ih' last same).trans (ih _ rfl)).trans List.filter_sublist

/-! ### What is found is a cycle -/

theorem dropWhile_of_new {before others : List Label} (new : next ∉ before) :
    (before ++ next :: others).dropWhile (· ≠ next) = next :: others := by
  rw [List.dropWhile_append_of_pos fun label mem => ?_, List.dropWhile_cons_of_neg (by simp)]
  simpa using fun same : label = next => new (same ▸ mem)

/-- Whether libraries lie on a cycle in this order: they are different libraries of the graph, each
of which names the next one as a dependency, and the last one the first. -/
structure Circles (g : TargetGraph) (start : Label) (others : List Label) : Prop where
  distinct : (start :: others).Nodup
  declared : ∀ label ∈ start :: others, ∃ t ∈ g.libraries, t.label = label
  named : List.IsChain g.Names (start :: others ++ [start])

/-- Whether a path goes down through different libraries, the last of which names all of `todo`. -/
structure LeadsTo (g : TargetGraph) (path todo : List Label) : Prop where
  distinct : path.Nodup
  declared : ∀ label ∈ path, ∃ t ∈ g.libraries, t.label = label
  named : ∀ next ∈ todo, List.IsChain g.Names (path ++ [next])

namespace LeadsTo

theorem tail (leads : g.LeadsTo path (next :: todo)) : g.LeadsTo path todo :=
  ⟨leads.distinct, leads.declared, fun next mem => leads.named next (List.mem_cons_of_mem _ mem)⟩

theorem enter {t : Library} (leads : g.LeadsTo path (t.label :: todo)) (ahead : t.label ∉ path)
    (member : t ∈ g.libraries) : g.LeadsTo (path ++ [t.label]) t.deps where
  distinct := List.nodup_append.mpr ⟨leads.distinct, List.nodup_singleton _, by
    rintro label mem _ mem' rfl
    exact ahead (List.mem_singleton.mp mem' ▸ mem)⟩
  declared label mem := by
    rcases List.mem_append.mp mem with mem | mem
    · exact leads.declared label mem
    · exact ⟨t, member, (List.mem_singleton.mp mem).symm⟩
  named dep mem := by
    rw [List.append_assoc]
    exact List.isChain_append_cons_cons.mpr ⟨leads.named t.label List.mem_cons_self,
      ⟨t, member, rfl, mem⟩, .singleton dep⟩

/-- A path that comes back to a label has gone around a cycle since it was there. -/
theorem circles (leads : g.LeadsTo path (next :: todo)) (back : next ∈ path) :
    ∃ others, g.Circles next others ∧ path.dropWhile (· ≠ next) = next :: others := by
  obtain ⟨before, others, rfl, new⟩ := List.eq_append_cons_of_mem back
  have around : next :: others <:+ before ++ next :: others := List.suffix_append _ _
  refine ⟨others, ⟨?_, fun label mem => ?_, ?_⟩, dropWhile_of_new new⟩
  · exact leads.distinct.sublist around.sublist
  · exact leads.declared label (around.subset mem)
  · have chain := leads.named next List.mem_cons_self
    rw [List.append_assoc] at chain
    exact chain.right_of_append

end LeadsTo

theorem Explores.circles (explored : Explores path todo fresh result)
    (declared : fresh ⊆ g.libraries) (leads : g.LeadsTo path todo) :
    ∀ labels, result = .error labels →
      ∃ start others, g.Circles start others ∧ labels = start :: others ++ [start] := by
  induction explored with
  | done => exact fun _ same => by contradiction
  | closes back todo fresh =>
    rintro _ ⟨⟩
    obtain ⟨others, circles, cut⟩ := leads.circles back
    exact ⟨_, others, circles, by rw [cut]⟩
  | skips _ _ _ ih => exact ih declared leads.tail
  | finds ahead entered below todo ih =>
    obtain ⟨member, rfl⟩ := mem_of_entered entered
    refine ih (fun u mem => declared (mem_without.mp mem).1) ?_
    exact leads.enter ahead (declared member)
  | leaves ahead entered below later ih ih' =>
    refine ih' (fun u mem => declared ?_) leads.tail
    exact (mem_without.mp ((below.rest_sublist _ rfl).subset mem)).1

/-! ### What is exhausted has no cycle -/

/-- Whether all ways down from a label end. -/
def Ends (g : TargetGraph) : Label → Prop :=
  Acc fun dependency label => g.Names label dependency

theorem Ends.not_around {label : Label} (ends : g.Ends label) :
    ¬ Relation.TransGen g.Names label label := by
  intro cycle
  have founded := acc_transGen_iff.mpr ends
  rw [← Relation.transGen_swap] at cycle
  clear ends
  induction founded with
  | intro label _ ih => exact ih label cycle cycle

theorem acyclic_of_ends (ends : ∀ t ∈ g.libraries, g.Ends t.label) : g.Acyclic := by
  intro label cycle
  obtain ⟨_, ⟨t, member, rfl, _⟩, _⟩ := Relation.TransGen.head'_iff.mp cycle
  exact (ends t member).not_around cycle

/-- All ways down from what was searched end, and so they do from all libraries that were entered
and left again. -/
theorem Explores.ends (explored : Explores path todo fresh result) (declared : fresh ⊆ g.libraries)
    (left : ∀ t ∈ g.libraries, t ∉ fresh → t.label ∉ path → g.Ends t.label) :
    ∀ rest, result = .ok rest → (∀ label ∈ todo, g.Ends label) ∧
      ∀ t ∈ g.libraries, t ∉ rest → t.label ∉ path → g.Ends t.label := by
  induction explored with
  | done path fresh =>
    rintro _ ⟨⟩
    exact ⟨fun _ mem => (List.not_mem_nil mem).elim, left⟩
  | closes => exact fun _ same => by contradiction
  | @skips path todo fresh next result ahead known later ih =>
    intro rest same
    obtain ⟨ends, left'⟩ := ih declared left rest same
    refine ⟨List.forall_mem_cons.mpr ⟨?_, ends⟩, left'⟩
    by_cases isLibrary : ∃ t ∈ g.libraries, t.label = next
    · obtain ⟨t, member, rfl⟩ := isLibrary
      refine left t member (fun new => ?_) ahead
      simpa using List.find?_eq_none.mp known t new
    · exact .intro next fun dep ⟨t, member, same, _⟩ => (isLibrary ⟨t, member, same⟩).elim
  | finds => exact fun _ same => by contradiction
  | @leaves path todo fresh rest next t result ahead entered below later ih ih' =>
    obtain ⟨new, rfl⟩ := mem_of_entered entered
    have member := declared new
    have shrinks := (below.rest_sublist _ rfl).subset
    obtain ⟨ends, inside⟩ := ih (fun u mem => declared (mem_without.mp mem).1)
      (fun u member' old apart => by
        rw [List.mem_append, List.mem_singleton, not_or] at apart
        exact left u member' (fun new' => old (mem_without.mpr ⟨new', apart.2⟩)) apart.1) rest rfl
    have now : g.Ends t.label := .intro _ fun dep ⟨u, member', same, mem⟩ => by
      obtain rfl := eq_of_label_eq member' member same
      exact ends dep mem
    intro last same
    obtain ⟨ends', left'⟩ := ih' (fun u mem => declared (mem_without.mp (shrinks mem)).1)
      (fun u member' old apart => by
        by_cases isNext : u.label = t.label
        · exact isNext ▸ now
        · exact inside u member' old (by simp [apart, isNext])) last same
    exact ⟨List.forall_mem_cons.mpr ⟨now, ends'⟩, left'⟩

/-! ### Marks -/

/-- The labels that a search has visited, those among them that it is still below, and the path to
where it is. -/
structure Marks where
  visited : Finset Label
  active : Finset Label
  path : List Label

namespace Marks

def blank : Marks := ⟨∅, ∅, []⟩

def enter (m : Marks) (label : Label) : Marks :=
  ⟨insert label m.visited, insert label m.active, m.path ++ [label]⟩

def leave (m : Marks) (label : Label) : Marks :=
  ⟨m.visited, m.active.erase label, m.path.dropLast⟩

/-- The marks where a search stands. -/
structure Track (m : Marks) (g : TargetGraph) (trail : List Label) (fresh : List Library) :
    Prop where
  path : m.path = trail
  active : ∀ label, label ∈ m.active ↔ label ∈ trail
  visited : ∀ t ∈ g.libraries, t.label ∈ m.visited ↔ t ∉ fresh
  declared : fresh ⊆ g.libraries
  known : ∀ label ∈ trail, (g.library? label).isSome

theorem Track.start (g : TargetGraph) : blank.Track g [] g.libraries where
  path := rfl
  active label := by simp [blank]
  visited t _ := by simpa [blank]
  declared := List.Subset.refl _
  known _ mem := (List.not_mem_nil mem).elim

theorem Track.enter {m : Marks} {t : Library} (track : m.Track g path fresh) (new : t ∈ fresh) :
    (m.enter t.label).Track g (path ++ [t.label]) (without t.label fresh) where
  path := by rw [Marks.enter, track.path]
  active label := by simp [Marks.enter, track.active, or_comm]
  visited u member := by
    rw [Marks.enter, Finset.mem_insert, track.visited u member, mem_without]
    tauto
  declared u mem := track.declared (mem_without.mp mem).1
  known label mem := by
    rcases List.mem_append.mp mem with mem | mem
    · exact track.known label mem
    · rw [List.mem_singleton.mp mem, library?_eq_some_iff.mpr ⟨track.declared new, rfl⟩]
      rfl

theorem Track.leave {m : Marks} (track : m.Track g (path ++ [next]) fresh) (ahead : next ∉ path) :
    (m.leave next).Track g path fresh where
  path := by rw [Marks.leave, track.path, List.dropLast_concat]
  active label := by
    rw [Marks.leave, Finset.mem_erase, track.active, List.mem_append, List.mem_singleton]
    constructor
    · rintro ⟨apart, mem | same⟩
      · exact mem
      · exact absurd same apart
    · exact fun mem => ⟨fun same => ahead (same ▸ mem), .inl mem⟩
  visited := track.visited
  declared := track.declared
  known label mem := track.known label (List.mem_append_left _ mem)

end Marks

/-- The visit of a label: an error with the cycle that it closes, or else the marks after all labels
below it were visited. There is no result if `depth` visits inside each other are not enough. -/
def visit? (g : TargetGraph) : Nat → Marks → Label → ExceptT (List Label) Option Marks
  | 0, _, _ => ExceptT.mk none
  | depth + 1, marks, label =>
    if label ∈ marks.active then
      throw ((marks.path ++ [label]).drop ((marks.path ++ [label]).idxOf label))
    else if label ∈ marks.visited then pure marks
    else do
      let below := ((g.library? label).map g.libraryDeps).getD []
      let marks ← below.foldlM (g.visit? depth) (marks.enter label)
      return marks.leave label

/-- The visits of those labels that are the labels of libraries. -/
def visitAll? (g : TargetGraph) (depth : Nat) (todo : List Label) (marks : Marks) :
    ExceptT (List Label) Option Marks :=
  (todo.filter fun label => (g.library? label).isSome).foldlM (g.visit? depth) marks

/-- The cycle that the visits of all libraries close, empty if they close none. -/
def markedCycle? (g : TargetGraph) (depth : Nat) : Option (List Label) :=
  (g.visitAll? depth (g.libraries.map (·.label)) Marks.blank).run.map fun
    | .error labels => labels
    | .ok _ => []

/-- Whether visits ended as a search did. -/
def Agrees (g : TargetGraph) (path : List Label) (visits : ExceptT (List Label) Option Marks) :
    Except (List Label) (List Library) → Prop
  | .error labels => visits = throw labels
  | .ok rest => ∃ m : Marks, visits = pure m ∧ m.Track g path rest

section

variable {m : Marks} {depth : Nat}

theorem drop_idxOf_append (back : next ∈ path) :
    (path ++ [next]).drop ((path ++ [next]).idxOf next) = path.dropWhile (· ≠ next) ++ [next] := by
  obtain ⟨before, others, rfl, new⟩ := List.eq_append_cons_of_mem back
  rw [dropWhile_of_new new, List.append_assoc, List.idxOf_append_of_notMem new, List.cons_append,
    List.idxOf_cons_self, Nat.add_zero, List.drop_left]

theorem visitAll?_library (declared : (g.library? next).isSome) :
    g.visitAll? depth (next :: todo) m = g.visit? depth m next >>= g.visitAll? depth todo := by
  rw [visitAll?, List.filter_cons_of_pos (p := fun label => (g.library? label).isSome) declared,
    List.foldlM_cons]
  rfl

theorem visitAll?_other (other : ¬ (g.library? next).isSome) :
    g.visitAll? depth (next :: todo) m = g.visitAll? depth todo m := by
  rw [visitAll?, List.filter_cons_of_neg (p := fun label => (g.library? label).isSome) other]
  rfl

theorem visit?_active (track : m.Track g path fresh) (back : next ∈ path) :
    g.visit? (depth + 1) m next = throw (path.dropWhile (· ≠ next) ++ [next]) := by
  rw [visit?, if_pos ((track.active next).mpr back), track.path, drop_idxOf_append back]

theorem visit?_visited (track : m.Track g path fresh) (ahead : next ∉ path)
    (visited : next ∈ m.visited) : g.visit? (depth + 1) m next = pure m := by
  rw [visit?, if_neg (mt (track.active next).mp ahead), if_pos visited]

theorem visit?_fresh {t : Library} (track : m.Track g path fresh) (ahead : t.label ∉ path)
    (new : t ∈ fresh) :
    g.visit? (depth + 1) m t.label =
      g.visitAll? depth t.deps (m.enter t.label) >>= fun marks => pure (marks.leave t.label) := by
  have member := track.declared new
  have unseen : t.label ∉ m.visited := fun visited => (track.visited t member).mp visited new
  rw [visit?, if_neg (mt (track.active _).mp ahead), if_neg unseen,
    library?_eq_some_iff.mpr ⟨member, rfl⟩]
  rfl

/-- Visits inside each other are of different libraries, so there are never more of them than there
are libraries. -/
theorem Explores.agrees (explored : Explores path todo fresh result) (track : m.Track g path fresh)
    (deep : fresh.length < depth) : g.Agrees path (g.visitAll? depth todo m) result := by
  induction explored generalizing m depth with
  | done path fresh => exact ⟨m, rfl, track⟩
  | @closes path next back todo fresh =>
    obtain ⟨depth, rfl⟩ := Nat.exists_eq_add_one_of_ne_zero (Nat.ne_zero_of_lt deep)
    rw [visitAll?_library (track.known next back), visit?_active track back]
    rfl
  | @skips path todo fresh next result ahead absent later ih =>
    have kept := ih track deep
    by_cases isLibrary : (g.library? next).isSome
    · obtain ⟨depth, rfl⟩ := Nat.exists_eq_add_one_of_ne_zero (Nat.ne_zero_of_lt deep)
      obtain ⟨t, found⟩ := Option.isSome_iff_exists.mp isLibrary
      obtain ⟨member, rfl⟩ := library?_eq_some_iff.mp found
      have visited : t.label ∈ m.visited := (track.visited t member).mpr fun new => by
        simpa using List.find?_eq_none.mp absent t new
      rwa [visitAll?_library isLibrary, visit?_visited track ahead visited, pure_bind]
    · rwa [visitAll?_other isLibrary]
  | @finds path labels fresh next t ahead entered below todo ih =>
    obtain ⟨depth, rfl⟩ := Nat.exists_eq_add_one_of_ne_zero (Nat.ne_zero_of_lt deep)
    have shorter := Nat.lt_of_lt_of_le (length_without_lt entered) (Nat.le_of_lt_succ deep)
    obtain ⟨new, rfl⟩ := mem_of_entered entered
    have thrown : g.visitAll? depth t.deps (m.enter t.label) = throw labels :=
      ih (track.enter new) shorter
    rw [visitAll?_library ((track.enter new).known t.label (by simp)),
      visit?_fresh track ahead new, thrown]
    rfl
  | @leaves path todo fresh rest next t result ahead entered below later ih ih' =>
    obtain ⟨depth, rfl⟩ := Nat.exists_eq_add_one_of_ne_zero (Nat.ne_zero_of_lt deep)
    have shorter := Nat.lt_of_lt_of_le (length_without_lt entered) (Nat.le_of_lt_succ deep)
    obtain ⟨new, rfl⟩ := mem_of_entered entered
    obtain ⟨m', visits, track'⟩ := ih (track.enter new) shorter
    have remaining := (below.rest_sublist rest rfl).length_le
    have kept := ih' (track'.leave ahead) (show rest.length < depth + 1 by omega)
    rwa [visitAll?_library ((track.enter new).known t.label (by simp)),
      visit?_fresh track ahead new, visits, pure_bind, pure_bind]

theorem markedCycle?_eq (deep : g.size < depth) : g.markedCycle? depth = some g.cycle := by
  have agrees := (explores_search [] (g.libraries.map (·.label)) g.libraries).agrees
    (Marks.Track.start g) deep
  unfold markedCycle? cycle
  cases found : search [] (g.libraries.map (·.label)) g.libraries with
  | cycle labels =>
    rw [found] at agrees
    have thrown : _ = throw labels := agrees
    rw [thrown]
    rfl
  | exhausted rest le =>
    rw [found] at agrees
    obtain ⟨m, visits, _⟩ := agrees
    rw [visits]
    rfl

end

/-! ### Refused graphs -/

/-- A graph with a cycle: the search finds one. -/
theorem exists_circles (cyclic : ¬ g.Acyclic) :
    ∃ start others, g.Circles start others ∧ g.cycle = start :: others ++ [start] := by
  have explored := explores_search [] (g.libraries.map (·.label)) g.libraries
  unfold cycle
  cases found : search [] (g.libraries.map (·.label)) g.libraries with
  | cycle labels =>
    rw [found] at explored
    refine explored.circles (List.Subset.refl _) ⟨List.nodup_nil, ?_, ?_⟩ labels rfl
    · exact fun _ mem => (List.not_mem_nil mem).elim
    · exact fun next _ => .singleton next
  | exhausted rest le =>
    rw [found] at explored
    obtain ⟨ends, _⟩ := explored.ends (List.Subset.refl _)
      (fun t member old => absurd member old) rest rfl
    exact absurd (acyclic_of_ends fun t member => ends _ (List.mem_map_of_mem member)) cyclic

theorem cycleText_eq (start : Label) (others : List Label) :
    PlanError.cycleText (start :: others ++ [start]) =
      " -> ".intercalate ((start :: others ++ [start]).map Label.text) :=
  rfl

/-- The text of a cycle has an arrow in it. -/
theorem cycleText_ne_unknown (start : Label) (others : List Label) :
    PlanError.cycleText (start :: others ++ [start]) ≠ PlanError.cycleText [] := by
  obtain ⟨next, rest, split⟩ : ∃ next rest, others ++ [start] = next :: rest :=
    List.exists_cons_of_ne_nil (List.append_ne_nil_of_right_ne_nil _ (List.cons_ne_nil _ _))
  have arrow : '>' ∈ (PlanError.cycleText (start :: others ++ [start])).toList := by
    rw [cycleText_eq, List.cons_append, split, List.map_cons, List.map_cons,
      String.intercalate_cons_cons]
    simp
  intro unknown
  rw [unknown] at arrow
  exact absurd arrow (by decide)

/-- A graph is ordered in both ways, or it is refused in both with the same cycle: different
libraries of the graph, each of which names the next one, and the last one the first. The text of
the refusal lists them with the first one again at the end, and is never the one that stands for no
cycle. The search for the cycle ends on every graph, with no more visits inside each other than the
graph has libraries and one. -/
theorem refused_by_cycle (g : TargetGraph) :
    ((∃ groups order, g.buildGroups = .ok groups ∧ g.buildOrder = .ok order) ∨
      ∃ start others, g.Circles start others ∧
        g.buildGroups = .error (.circularDependency (start :: others ++ [start])) ∧
        g.buildOrder = .error (.circularDependency (start :: others ++ [start])) ∧
        PlanError.cycleText (start :: others ++ [start]) =
          " -> ".intercalate ((start :: others ++ [start]).map Label.text) ∧
        PlanError.cycleText (start :: others ++ [start]) ≠ "unknown cycle") ∧
    ∀ spare, g.markedCycle? (g.size + 1 + spare) = some g.cycle := by
  refine ⟨?_, fun spare => markedCycle?_eq (by omega)⟩
  rcases g.schedule_cases true with ⟨groups, grouped, schedule⟩ | ⟨refused, stuck, isStuck⟩
  · rcases orderOf?_cases (Queue.start g) with ⟨order, found, _⟩ | ⟨_, _, isStuck⟩
    · exact .inl ⟨groups, order, grouped, by simp only [buildOrder, found]⟩
    · exact absurd isStuck schedule.not_stuck
  · obtain ⟨start, others, circles, isCycle⟩ := exists_circles isStuck.not_acyclic
    refine .inr ⟨start, others, circles, ?_, ?_, cycleText_eq start others,
      cycleText_ne_unknown start others⟩
    · rw [← isCycle]
      exact refused
    · rw [← isCycle]
      exact buildOrder_eq_error_of_stuck isStuck

end ObjcPlan.TargetGraph
