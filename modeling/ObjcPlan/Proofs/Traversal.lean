import ObjcPlan.Proofs.Failures

/-! Depth-first traversals of a graph: along the dependencies in the order of their declaration,
with each declaration before or after what is first found below it. A traversal lists exactly what
it reaches (`mem_traversal_iff`), each declaration once (`nodup_traversal`). If every target merges
what its dependencies merged, then to merge all that is listed comes to the same
(`fresh_traversal`): a target that is met again was merged completely by then, since in a graph
without cycles none is met while the search is still below it. -/

namespace ObjcPlan

open Identity

def Declaration.deps : Declaration → List Label
  | library declared => declared.deps
  | foreign _ => []

namespace MergeOrder

variable {α β : Type} {order : MergeOrder} {own inherited : List α}

/-- Inherited values with a target's own ones where the order has them. -/
def arrange (order : MergeOrder) (own inherited : List α) : List α :=
  match order with
  | link => own ++ inherited
  | build => inherited ++ own

theorem flatMap_arrange (f : α → List β) : (order.arrange own inherited).flatMap f =
    order.arrange (own.flatMap f) (inherited.flatMap f) := by
  cases order <;> exact List.flatMap_append

theorem mem_arrange {a : α} : a ∈ order.arrange own inherited ↔ a ∈ own ∨ a ∈ inherited := by
  cases order
  · exact List.mem_append
  · exact List.mem_append.trans or_comm

theorem nodup_arrange {a : α} (new : a ∉ inherited) (distinct : inherited.Nodup) :
    (order.arrange [a] inherited).Nodup := by
  cases order
  · exact List.nodup_cons.mpr ⟨new, distinct⟩
  · exact List.nodup_append_comm.mp (List.nodup_cons.mpr ⟨new, distinct⟩)

end MergeOrder

namespace TargetGraph

def others (label : Label) (unseen : List Declaration) : List Declaration :=
  unseen.filter (·.label ≠ label)

def unlisted (listed unseen : List Declaration) : List Declaration :=
  unseen.filter (· ∉ listed)

theorem find?_label {unseen : List Declaration} {label : Label} {d : Declaration}
    (found : unseen.find? (·.label = label) = some d) : d ∈ unseen ∧ d.label = label :=
  ⟨List.mem_of_find?_eq_some found, by simpa using List.find?_some found⟩

theorem length_others_lt {unseen : List Declaration} {label : Label} {d : Declaration}
    (found : unseen.find? (·.label = label) = some d) :
    (others label unseen).length < unseen.length :=
  List.length_filter_lt_length_iff_exists.mpr
    ⟨d, (find?_label found).1, by simpa using (find?_label found).2⟩

theorem length_unlisted_lt {listed unseen : List Declaration} {d : Declaration} (mem : d ∈ unseen)
    (mem' : d ∈ listed) : (unlisted listed unseen).length < unseen.length :=
  List.length_filter_lt_length_iff_exists.mpr ⟨d, mem, by simpa using mem'⟩

/-- The traversal of the labels of `todo` and everything below them. `unseen` holds the declarations
that may still be entered; other labels are passed over. -/
def walk (order : MergeOrder) (todo : List Label) (unseen : List Declaration) : List Declaration :=
  match todo with
  | [] => []
  | next :: todo =>
    match _found : unseen.find? (·.label = next) with
    | none => walk order todo unseen
    | some d =>
      let listed := order.arrange [d] (walk order d.deps (others next unseen))
      listed ++ walk order todo (unlisted listed unseen)
termination_by (unseen.length, todo.length)
decreasing_by
  · exact Prod.Lex.right _ (Nat.lt_succ_self _)
  · exact Prod.Lex.left _ _ (length_others_lt _found)
  · exact Prod.Lex.left _ _ (length_unlisted_lt (find?_label _found).1
      (MergeOrder.mem_arrange.mpr (.inl List.mem_cons_self)))

/-- The declarations that are reached from a label, in the order of a depth-first search. -/
def traversal (g : TargetGraph) (order : MergeOrder) (label : Label) : List Declaration :=
  walk order [label] g.declarations.values

variable {g : TargetGraph} {order : MergeOrder} {todo : List Label} {unseen : List Declaration}
  {d : Declaration} {label : Label}

theorem mem_others : d ∈ others label unseen ↔ d ∈ unseen ∧ d.label ≠ label := by
  simp [others]

theorem mem_unlisted {listed : List Declaration} :
    d ∈ unlisted listed unseen ↔ d ∈ unseen ∧ d ∉ listed := by
  simp [unlisted]

theorem others_subset (label : Label) (unseen : List Declaration) :
    others label unseen ⊆ unseen :=
  List.filter_subset_self _

theorem unlisted_subset (listed unseen : List Declaration) : unlisted listed unseen ⊆ unseen :=
  List.filter_subset_self _

theorem ne_of_find? (h : unseen.find? (·.label = label) = none) :
    ∀ d ∈ unseen, d.label ≠ label := fun d mem => by
  simpa using List.find?_eq_none.mp h d mem

theorem walk_subset : walk order todo unseen ⊆ unseen := by
  fun_induction walk order todo unseen with
  | case1 unseen => exact List.nil_subset _
  | case2 unseen next todo found ih => exact ih
  | case3 unseen next todo d found listed ih =>
    rename_i ih'
    intro e mem
    rw [List.mem_append, MergeOrder.mem_arrange, List.mem_singleton] at mem
    rcases mem with (rfl | mem) | mem
    · exact (find?_label found).1
    · exact others_subset _ _ (ih mem)
    · exact unlisted_subset _ _ (ih' mem)

theorem nodup_walk : (walk order todo unseen).Nodup := by
  fun_induction walk order todo unseen with
  | case1 unseen => exact .nil
  | case2 unseen next todo found ih => exact ih
  | case3 unseen next todo d found listed ih ih' =>
    have new : d ∉ walk order d.deps (others next unseen) := fun mem =>
      (mem_others.mp (walk_subset mem)).2 (find?_label found).2
    refine List.nodup_append.mpr ⟨MergeOrder.nodup_arrange new ih, ih', fun e mem e' mem' => ?_⟩
    rintro rfl
    exact (mem_unlisted.mp (walk_subset mem')).2 mem

theorem declaration_eq_of_label_eq {e : Declaration} (hd : d ∈ g.declarations.values)
    (he : e ∈ g.declarations.values) (same : d.label = e.label) : d = e := by
  have hd := get?_declarations_iff.mpr ⟨hd, same⟩
  have he := get?_declarations_iff.mpr ⟨he, rfl⟩
  exact Option.some.inj (hd.symm.trans he)

/-- A traversal lists what it may enter of the labels to do and of the dependencies of what it
lists. -/
theorem walk_closed (order : MergeOrder) (todo : List Label)
    (declared : unseen ⊆ g.declarations.values) :
    (∀ e ∈ unseen, e.label ∈ todo → e ∈ walk order todo unseen) ∧
      ∀ d ∈ walk order todo unseen, ∀ e ∈ unseen, e.label ∈ d.deps →
        e ∈ walk order todo unseen := by
  fun_induction walk order todo unseen with
  | case1 unseen => simp
  | case2 unseen next todo found ih =>
    refine ⟨fun e mem label => ?_, (ih declared).2⟩
    exact (ih declared).1 e mem ((List.mem_cons.mp label).resolve_left (ne_of_find? found e mem))
  | case3 unseen next todo d found listed ih ih' =>
    obtain ⟨entered, rfl⟩ := find?_label found
    have declared₁ := List.Subset.trans (others_subset d.label unseen) declared
    have declared₂ := List.Subset.trans (unlisted_subset listed unseen) declared
    have self : d ∈ listed := MergeOrder.mem_arrange.mpr (.inl List.mem_cons_self)
    obtain ⟨now, deps⟩ := ih declared₁
    obtain ⟨later, deps'⟩ := ih' declared₂
    -- What is named below `d` is `d` itself or listed there.
    have here {e : Declaration} (mem : e ∈ unseen)
        (named : e.label ≠ d.label → e ∈ walk order d.deps (others d.label unseen)) :
        e ∈ listed := by
      by_cases same : e.label = d.label
      · exact declaration_eq_of_label_eq (declared mem) (declared entered) same ▸ self
      · exact MergeOrder.mem_arrange.mpr (.inr (named same))
    have there {e : Declaration} (mem : e ∈ unseen)
        (named : e ∉ listed → e ∈ walk order todo (unlisted listed unseen)) :
        e ∈ listed ++ walk order todo (unlisted listed unseen) := by
      by_cases old : e ∈ listed
      · exact List.mem_append_left _ old
      · exact List.mem_append_right _ (named old)
    refine ⟨fun e mem label => ?_, fun c mem e mem' dep => ?_⟩
    · rcases List.mem_cons.mp label with same | label
      · exact List.mem_append_left _ (here mem fun ne => absurd same ne)
      · exact there mem fun new => later e (mem_unlisted.mpr ⟨mem, new⟩) label
    · rcases List.mem_append.mp mem with mem | mem
      · refine List.mem_append_left _ (here mem' fun ne => ?_)
        have waits := mem_others.mpr ⟨mem', ne⟩
        rcases MergeOrder.mem_arrange.mp mem with mem | mem
        · obtain rfl := List.mem_singleton.mp mem
          exact now e waits dep
        · exact deps c mem e waits dep
      · exact there mem' fun new => deps' c mem e (mem_unlisted.mpr ⟨mem', new⟩) dep

/-! ### Reachability -/

theorem names_iff (declared : d ∈ g.declarations.values) :
    g.Names d.label label ↔ label ∈ d.deps := by
  have found := get?_declarations_iff.mpr ⟨declared, rfl⟩
  constructor
  · rintro ⟨t, member, same, mem⟩
    rw [get?_declarations_library.mpr ⟨member, same⟩] at found
    obtain rfl := Option.some.inj found
    exact mem
  · intro mem
    cases d with
    | library t => exact ⟨t, (get?_declarations_library.mp found).1, rfl, mem⟩
    | foreign info => cases mem

theorem Names.exists_declaration {dependency : Label} (names : g.Names label dependency) :
    ∃ d ∈ g.declarations.values, d.label = label ∧ dependency ∈ d.deps := by
  obtain ⟨t, member, rfl, mem⟩ := names
  have found := get?_declarations_library.mpr ⟨member, rfl⟩
  exact ⟨_, (get?_declarations_iff.mp found).1, rfl, mem⟩

/-- Whether a label is reached from one of `todo`. -/
def Below (g : TargetGraph) (todo : List Label) (label : Label) : Prop :=
  ∃ first ∈ todo, g.Reaches first label

theorem Below.cons {first : Label} (below : g.Below todo label) : g.Below (first :: todo) label :=
  let ⟨start, mem, reaches⟩ := below
  ⟨start, List.mem_cons_of_mem _ mem, reaches⟩

theorem Below.reaches (below : g.Below d.deps label) (declared : d ∈ g.declarations.values) :
    Relation.TransGen g.Names d.label label := by
  obtain ⟨first, mem, reaches⟩ := below
  exact .head' ((names_iff declared).mpr mem) reaches

theorem Below.of_deps (below : g.Below d.deps label) (declared : d ∈ g.declarations.values) :
    g.Below (d.label :: todo) label :=
  ⟨_, List.mem_cons_self, (below.reaches declared).to_reflTransGen⟩

theorem below_of_mem_walk (declared : unseen ⊆ g.declarations.values)
    (mem : d ∈ walk order todo unseen) : g.Below todo d.label := by
  fun_induction walk order todo unseen with
  | case1 unseen => cases mem
  | case2 unseen next todo found ih => exact (ih declared mem).cons
  | case3 unseen next todo e found listed ih ih' =>
    obtain ⟨entered, rfl⟩ := find?_label found
    rw [List.mem_append, MergeOrder.mem_arrange, List.mem_singleton] at mem
    rcases mem with (rfl | mem) | mem
    · exact ⟨_, List.mem_cons_self, .refl⟩
    · exact (ih (List.Subset.trans (others_subset _ _) declared) mem).of_deps
        (declared entered)
    · exact (ih' (List.Subset.trans (unlisted_subset _ _) declared) mem).cons

theorem mem_traversal_iff : d ∈ g.traversal order label ↔
    d ∈ g.declarations.values ∧ g.Reaches label d.label := by
  constructor
  · intro mem
    obtain ⟨first, start, reaches⟩ := below_of_mem_walk (List.Subset.refl _) mem
    obtain rfl := List.mem_singleton.mp start
    exact ⟨walk_subset mem, reaches⟩
  · rintro ⟨declared, reaches⟩
    obtain ⟨start, deps⟩ := walk_closed order [label] (List.Subset.refl g.declarations.values)
    generalize same : d.label = reached at reaches
    induction reaches generalizing d with
    | refl => exact start d declared (List.mem_singleton.mpr same)
    | tail _ names ih =>
      obtain ⟨e, declared', rfl, dep⟩ := names.exists_declaration
      exact deps e (ih declared' rfl) d declared (same ▸ dep)

theorem nodup_traversal (g : TargetGraph) (order : MergeOrder) (label : Label) :
    ((g.traversal order label).map Declaration.label).Nodup :=
  nodup_walk.map_on fun _ mem _ mem' same =>
    declaration_eq_of_label_eq (walk_subset mem) (walk_subset mem') same

/-- Libraries that each are below themselves would be stuck. -/
theorem Schedule.acyclic {groups : List (List Library)} (schedule : g.Schedule groups)
    (label : Label) : ¬ Relation.TransGen g.Names label label := by
  classical
  intro cycle
  -- On the way around a cycle, each library names another one on it.
  let waiting := g.libraries.filter fun t => Relation.TransGen g.Names t.label t.label
  have mem_waiting {dep : Label} (around : Relation.TransGen g.Names dep dep) :
      ∃ u ∈ waiting, u.label = dep := by
    obtain ⟨_, ⟨u, member, rfl, _⟩, _⟩ := Relation.TransGen.head'_iff.mp around
    exact ⟨u, List.mem_filter.mpr ⟨member, decide_eq_true around⟩, rfl⟩
  have stuck : g.Stuck waiting := by
    refine ⟨?_, List.filter_subset_self _, fun t mem => ?_⟩
    · obtain ⟨t, mem, _⟩ := mem_waiting cycle
      exact List.ne_nil_of_mem mem
    · obtain ⟨member, around⟩ := List.mem_filter.mp mem
      obtain ⟨dep, names, back⟩ := Relation.TransGen.head'_iff.mp (of_decide_eq_true around)
      obtain ⟨u, mem, rfl⟩ := mem_waiting (.tail' back names)
      obtain ⟨t', member', same, needs⟩ := names
      exact ⟨u, mem, eq_of_label_eq member' member same ▸ needs⟩
  exact schedule.not_stuck stuck

/-! ### Merging -/

section Merging

variable {α : Type} [Identity α] {own : Declaration → List α} {total : Label → List α}
  {seen : List (Key α)}

/-- The totals of what is below `todo` are merged from the own values of each declaration and the
totals of its dependencies. -/
def Merged (g : TargetGraph) (order : MergeOrder) (own : Declaration → List α)
    (total : Label → List α) (todo : List Label) : Prop :=
  ∀ d ∈ g.declarations.values, g.Below todo d.label → ∀ seen,
    fresh seen (total d.label) = fresh seen (order.arrange (own d) (d.deps.flatMap total))

theorem Merged.weaken {todo' : List Label} (merged : g.Merged order own total todo)
    (sub : ∀ label, g.Below todo' label → g.Below todo label) : g.Merged order own total todo' :=
  fun d declared below => merged d declared (sub _ below)

theorem fresh_arrange_congr {values inherited inherited' : List α}
    (same : ∀ seen', seen ⊆ seen' → fresh seen' inherited = fresh seen' inherited') :
    fresh seen (order.arrange values inherited) = fresh seen (order.arrange values inherited') := by
  cases order with
  | link => exact fresh_append_congr rfl (same _ (List.subset_append_right _ _))
  | build => exact fresh_append_congr (same seen (List.Subset.refl _)) rfl

theorem Merged.total_subset (merged : g.Merged order own total todo) {label' : Label}
    (below : g.Below todo label) (reaches : g.Reaches label label') :
    (total label').map key ⊆ (total label).map key := by
  induction reaches with
  | refl => exact List.Subset.refl _
  | tail reaches names ih =>
    obtain ⟨d, declared, rfl, dep⟩ := names.exists_declaration
    refine List.Subset.trans (fun k mem => ?_) ih
    obtain ⟨first, start, path⟩ := below
    have parts := merged d declared ⟨first, start, path.trans reaches⟩ []
    have mem : k ∈ (order.arrange (own d) (d.deps.flatMap total)).map key := by
      obtain ⟨a, mem', rfl⟩ := List.mem_map.mp mem
      have inherited := List.mem_flatMap.mpr ⟨_, dep, mem'⟩
      exact List.mem_map_of_mem (MergeOrder.mem_arrange.mpr (.inr inherited))
    simpa using (mem_seen_congr parts k).mpr (by simpa using mem)

/-- To merge what a traversal lists comes to the same as to merge the totals of its labels, if what
it does not enter again was merged completely. -/
theorem fresh_walk (acyclic : ∀ label, ¬ Relation.TransGen g.Names label label)
    (declared : unseen ⊆ g.declarations.values) (merged : g.Merged order own total todo)
    (old : ∀ label, g.Below todo label → (∀ e ∈ unseen, e.label ≠ label) →
      (total label).map key ⊆ seen) :
    fresh seen ((walk order todo unseen).flatMap own) = fresh seen (todo.flatMap total) := by
  fun_induction walk order todo unseen generalizing seen with
  | case1 unseen => rfl
  | case2 unseen next todo found ih =>
    rw [List.flatMap_cons]
    have past := old next ⟨_, List.mem_cons_self, .refl⟩ (ne_of_find? found)
    rw [fresh_append_of_old fun a mem => past (List.mem_map_of_mem mem)]
    exact ih declared (merged.weaken fun _ => Below.cons) fun label below =>
      old label below.cons
  | case3 unseen next todo d found listed ih =>
    rename_i ih'
    obtain ⟨entered, rfl⟩ := find?_label found
    have declared₁ := List.Subset.trans (others_subset d.label unseen) declared
    have declared₂ := List.Subset.trans (unlisted_subset listed unseen) declared
    have top : g.Below (d.label :: todo) d.label := ⟨_, List.mem_cons_self, .refl⟩
    -- What is below `d` does not lead back to `d`, so what was seen of it was merged before.
    have inherited : ∀ seen', seen ⊆ seen' →
        fresh seen' ((walk order d.deps (others d.label unseen)).flatMap own) =
          fresh seen' (d.deps.flatMap total) := by
      intro seen' sub
      refine ih declared₁ (merged.weaken fun _ below => below.of_deps (declared entered))
        fun label below absent => List.Subset.trans (old label ?_ ?_) sub
      · exact below.of_deps (declared entered)
      · rintro e mem rfl
        have ne : e.label ≠ d.label := fun same =>
          acyclic d.label (same ▸ below.reaches (declared entered))
        exact absent e (mem_others.mpr ⟨mem, ne⟩) rfl
    rw [List.flatMap_append, MergeOrder.flatMap_arrange, List.flatMap_singleton, List.flatMap_cons]
    refine fresh_append_congr ?_ ?_
    · rw [merged d (declared entered) top]
      exact fresh_arrange_congr inherited
    · refine ih' declared₂ (merged.weaken fun _ => Below.cons) fun label above absent => ?_
      -- What is not left to enter was seen before, or it was listed with `d`.
      by_cases before : ∀ e ∈ unseen, e.label ≠ label
      · exact List.Subset.trans (old label above.cons before) (List.subset_append_right _ _)
      · push Not at before
        obtain ⟨e, mem, rfl⟩ := before
        have now : e ∈ listed := by
          by_contra new
          exact absent e (mem_unlisted.mpr ⟨mem, new⟩) rfl
        refine List.Subset.trans (merged.total_subset top ?_) (List.subset_append_left _ _)
        rcases MergeOrder.mem_arrange.mp now with self | deeper
        · exact List.mem_singleton.mp self ▸ .refl
        · have below := below_of_mem_walk declared₁ deeper
          exact (below.reaches (declared entered)).to_reflTransGen

theorem fresh_traversal (acyclic : ∀ label, ¬ Relation.TransGen g.Names label label)
    (declared : ∀ reached, g.Reaches label reached → g.contains reached = true)
    (merged : g.Merged order own total [label]) :
    fresh seen ((g.traversal order label).flatMap own) = fresh seen (total label) := by
  refine (fresh_walk acyclic (List.Subset.refl _) merged ?_).trans
    (by rw [List.flatMap_singleton])
  rintro reached ⟨_, start, reaches⟩ absent
  obtain rfl := List.mem_singleton.mp start
  obtain ⟨d, found⟩ := Option.isSome_iff_exists.mp (declared reached reaches)
  obtain ⟨mem, rfl⟩ := get?_declarations_iff.mp found
  exact absurd rfl (absent d mem)

end Merging

end TargetGraph

end ObjcPlan
