import ObjcPlan.Graph.Basic

/-!
The search for a cycle among the libraries of a graph: depth first, from the libraries in the order
of their labels and along the dependencies in the order of their declaration. Every library is
entered once, so the search ends on every graph.
-/

namespace ObjcPlan.TargetGraph

/-- The libraries with another label. -/
def without (label : Label) (libraries : List Library) : List Library :=
  libraries.filter (·.label ≠ label)

theorem length_without_lt {label : Label} {libraries : List Library} {t : Library}
    (found : libraries.find? (·.label = label) = some t) :
    (without label libraries).length < libraries.length :=
  List.length_filter_lt_length_iff_exists.mpr
    ⟨t, List.mem_of_find?_eq_some found, by simpa using List.find?_some found⟩

/-- How a search ends: with a cycle, or with the libraries that it has not entered, of which there
are no more than before. -/
inductive Search (fresh : List Library)
  | cycle (labels : List Label)
  | exhausted (rest : List Library) (le : rest.length ≤ fresh.length)

/-- The search through the labels of `todo` and everything below them. `path` leads to the library
that names those labels, and `fresh` holds the libraries that were not entered yet. A label on the
path closes a cycle, which starts where the path first meets the label. -/
def search (path todo : List Label) (fresh : List Library) : Search fresh :=
  match todo with
  | [] => .exhausted fresh (Nat.le_refl _)
  | next :: todo =>
    if next ∈ path then .cycle (path.dropWhile (· ≠ next) ++ [next])
    else
      match found : fresh.find? (·.label = next) with
      | none => search path todo fresh
      | some t =>
        have shorter := length_without_lt found
        match search (path ++ [next]) t.deps (without next fresh) with
        | .cycle labels => .cycle labels
        | .exhausted rest le =>
          match search path todo rest with
          | .cycle labels => .cycle labels
          | .exhausted last le' =>
            .exhausted last (Nat.le_trans le' (Nat.le_of_lt (Nat.lt_of_le_of_lt le shorter)))
termination_by (fresh.length, todo.length)

/-- The first cycle found, its first label again at the end; empty if there is none. -/
def cycle (g : TargetGraph) : List Label :=
  match search [] (g.libraries.map (·.label)) g.libraries with
  | .cycle labels => labels
  | .exhausted _ _ => []

end ObjcPlan.TargetGraph
