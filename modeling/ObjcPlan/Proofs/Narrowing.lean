import ObjcPlan.Proofs.CompileInputs
import ObjcPlan.Proofs.DiscoveredInputs
import ObjcPlan.Proofs.LogicalLines

/-! Narrowing the inputs of planned compilations. The source stays in front, nothing is added, to
narrow again changes nothing, and a report that goes on with further rules keeps more, since it is
read as the rules of both parts (`DepFile.parse_append`). What a compilation comes to in all cases
is `CompileEntry.refine_narrows`. -/

namespace ObjcPlan

namespace OrderedSet

variable {α : Type} [Identity α]

theorem restrict_restrict (s : OrderedSet α) (values : List α) :
    (s.restrict values).restrict values = s.restrict values := by
  apply ext
  simp [restrict, Identity.common]

theorem sublist_restrict_of_subset (s : OrderedSet α) {values values' : List α}
    (sub : values ⊆ values') :
    (s.restrict values).toList.Sublist (s.restrict values').toList := by
  refine List.monotone_filter_right _ fun a held => ?_
  obtain ⟨b, mem, same⟩ := List.mem_map.mp (of_decide_eq_true held)
  exact decide_eq_true (List.mem_map.mpr ⟨b, sub mem, same⟩)

/-- A first member that is one of the values stays first. -/
theorem head?_restrict {s : OrderedSet α} {a : α} {values : List α}
    (first : s.toList.head? = some a) (mem : a ∈ values) :
    (s.restrict values).toList.head? = some a := by
  obtain ⟨rest, whole⟩ := List.head?_eq_some_iff.mp first
  have held : Identity.key a ∈ values.map Identity.key := List.mem_map_of_mem mem
  simp [restrict, Identity.common, whole, held, -List.mem_map]

end OrderedSet

/-- A text that ends with a line feed has its lines apart from those of the text behind it. -/
theorem Text.lines_append {s : String} (ended : s.toList.getLast? = some '\n') (t : String) :
    lines (s ++ t) = lines s ++ lines t := by
  obtain ⟨front, whole⟩ := List.getLast?_eq_some_iff.mp ended
  have cut (rest : List Char) :
      (front ++ '\n' :: rest).splitOn '\n' = front.splitOn '\n' ++ rest.splitOn '\n' := by
    simp only [List.splitOn_eq_splitOnP]
    exact List.splitOnP_append_cons _ _ rfl
  obtain ⟨piece, pieces, same⟩ := List.exists_cons_of_ne_nil (List.splitOn_ne_nil '\n' t.toList)
  have whole' : (s ++ t).toList = front ++ '\n' :: t.toList := by
    rw [String.toList_append, whole, List.append_assoc, List.singleton_append]
  simp only [lines, whole', whole, cut, same, List.splitOn_nil, List.dropLast_concat,
    List.dropLast_append_of_ne_nil (List.cons_ne_nil piece pieces), List.map_append,
    List.getLast?_append, List.getLast?_cons, Option.some_or, List.append_assoc]
  simp

namespace DepFile

variable {contents more : String} {rules rules' : List Rule}

/-- A file that ends with a line feed and then goes on is read as the rules of both parts. -/
theorem parse_append (ended : contents.toList.getLast? = some '\n')
    (parsed : parse contents = .ok rules) (parsed' : parse more = .ok rules') :
    parse (contents ++ more) = .ok (rules ++ rules') := by
  obtain ⟨l⟩ := exists_layout (Text.lines contents)
  obtain ⟨l'⟩ := exists_layout (Text.lines more)
  obtain ⟨none, nonempty, makes⟩ := l.parse_eq_iff.mp parsed
  obtain ⟨none', _, makes'⟩ := l'.parse_eq_iff.mp parsed'
  have whole : (l.groups ++ l'.groups).flatMap LineGroup.lines ++ [] =
      Text.lines (contents ++ more) := by
    have parts := congrArg₂ (· ++ ·) l.whole l'.whole
    rw [none, none'] at parts
    simpa [Text.lines_append ended] using parts
  let both : Layout (Text.lines (contents ++ more)) := ⟨l.groups ++ l'.groups, [], nofun, whole⟩
  refine both.parse_eq_iff.mpr ⟨rfl, by simp [nonempty], ?_⟩
  rw [List.filter_append]
  exact List.rel_append makes makes'

end DepFile

namespace Discovery

theorem refine_disabled (action : Action) (source : Path) (contents : String) :
    refine ⟨false⟩ action source contents = .ok action :=
  rfl

/-- Narrowing fails exactly if the report cannot be read, with the fault that reading finds. -/
theorem refine_eq_error_iff {action : Action} {source : Path} {contents : String}
    {error : PlanError} : refine ⟨true⟩ action source contents = .error error ↔
      ∃ fault, DepFile.parse contents = .error fault ∧
        error = .actionExecution action.mnemonic fault := by
  cases parsed : DepFile.parse contents with
  | error fault => simp [refine, inputs, parsed, bind, Except.bind, eq_comm]
  | ok rules => simp [refine_of_parse parsed]

end Discovery

namespace CompileEntry

variable {c : Compilation} {e : CompileEntry} {contents : String} {rules : List Rule}

theorem head?_inputs_of_planned (planned : e ∈ c.plan) :
    e.action.inputs.toList.head? = some e.source := by
  obtain ⟨source, _, language, object, _, rfl⟩ := Compilation.mem_plan planned
  exact c.head?_inputs _

theorem discovery_of_planned (planned : e ∈ c.plan) :
    e.discovery = ⟨c.facts.useDotdPruning⟩ := by
  obtain ⟨source, _, language, object, _, rfl⟩ := Compilation.mem_plan planned
  rfl

theorem mnemonic_of_planned (planned : e ∈ c.plan) :
    e.action.mnemonic = Compilation.mnemonic := by
  obtain ⟨source, _, language, object, _, rfl⟩ := Compilation.mem_plan planned
  rfl

/-- The compilation with other inputs. -/
def withInputs (e : CompileEntry) (inputs : OrderedSet Path) : CompileEntry :=
  { e with action := { e.action with inputs } }

/-- The files that were read, if the compiler reports the rules. -/
def reported (e : CompileEntry) (rules : List Rule) : List Path :=
  e.source :: rules.flatMap Rule.dependencies

theorem reported_subset_append (e : CompileEntry) (rules rules' : List Rule) :
    e.reported rules ⊆ e.reported (rules ++ rules') := by
  rw [reported, reported, List.flatMap_append]
  exact List.cons_subset_cons _ (List.subset_append_left _ _)

theorem mem_restrict_reported {inputs : OrderedSet Path} {input : Path}
    (declared : input ∈ inputs.toList) :
    input ∈ (inputs.restrict (e.reported rules)).toList ↔
      input.components = e.source.components ∨
        ∃ rule ∈ rules, ∃ path ∈ rule.dependencies, path.components = input.components := by
  rw [OrderedSet.mem_restrict, and_iff_right declared]
  constructor
  · rintro ⟨path, mem, same⟩
    rcases List.mem_cons.mp mem with rfl | mem
    · exact .inl same.symm
    · obtain ⟨rule, isRule, listed⟩ := List.mem_flatMap.mp mem
      exact .inr ⟨rule, isRule, path, listed, same⟩
  · rintro (same | ⟨rule, isRule, path, listed, same⟩)
    · exact ⟨_, List.mem_cons_self, same.symm⟩
    · exact ⟨path, List.mem_cons_of_mem _ (List.mem_flatMap.mpr ⟨rule, isRule, listed⟩), same⟩

/-- Narrowing with a report that can be read, if pruning is switched on. -/
theorem refine_of_parse (enabled : e.discovery = ⟨true⟩)
    (parsed : DepFile.parse contents = .ok rules) (inputs : OrderedSet Path) :
    (e.withInputs inputs).refine contents =
      .ok (e.withInputs (inputs.restrict (e.reported rules))).action := by
  rw [refine, show (e.withInputs inputs).discovery = ⟨true⟩ from enabled]
  exact Discovery.refine_of_parse parsed _ _

/-- What narrowing makes of a planned compilation. With pruning switched off it changes nothing,
whatever the report. With pruning, it fails exactly if the report cannot be read. Otherwise it
keeps, in their order and spelling, the inputs with the components of the source or of a listed
dependency; the source is in front, to narrow again changes nothing, and further rules behind a
complete last line only keep more. -/
theorem refine_narrows (planned : e ∈ c.plan) (contents : String) :
    (c.facts.useDotdPruning = false → e.refine contents = .ok e.action) ∧
    (c.facts.useDotdPruning = true →
      (∀ error, e.refine contents = .error error ↔
        ∃ fault, DepFile.parse contents = .error fault ∧
          error = .actionExecution Compilation.mnemonic fault) ∧
      ∀ rules, DepFile.parse contents = .ok rules → ∃ kept : OrderedSet Path,
        e.refine contents = .ok { e.action with inputs := kept } ∧
        kept.toList.Sublist e.action.inputs.toList ∧
        (∀ input ∈ e.action.inputs.toList, input ∈ kept.toList ↔
          input.components = e.source.components ∨
            ∃ rule ∈ rules, ∃ path ∈ rule.dependencies, path.components = input.components) ∧
        kept.toList.head? = some e.source ∧
        (e.withInputs kept).refine contents = .ok { e.action with inputs := kept } ∧
        (contents.toList.getLast? = some '\n' → ∀ more rules', DepFile.parse more = .ok rules' →
          ∃ kept' : OrderedSet Path,
            e.refine (contents ++ more) = .ok { e.action with inputs := kept' } ∧
            kept.toList.Sublist kept'.toList)) := by
  have isDiscovery := discovery_of_planned planned
  refine ⟨fun disabled => ?_, fun enabled => ⟨fun error => ?_, fun rules parsed => ?_⟩⟩
  · rw [refine, isDiscovery, disabled]
    exact Discovery.refine_disabled ..
  · rw [refine, isDiscovery, enabled, Discovery.refine_eq_error_iff, mnemonic_of_planned planned]
  · rw [enabled] at isDiscovery
    have narrowed := refine_of_parse isDiscovery parsed
    refine ⟨e.action.inputs.restrict (e.reported rules), narrowed _,
      OrderedSet.sublist_restrict _ _, fun input => mem_restrict_reported,
      OrderedSet.head?_restrict (head?_inputs_of_planned planned) List.mem_cons_self, ?_, ?_⟩
    · rw [narrowed, OrderedSet.restrict_restrict]
      rfl
    · intro ended more rules' parsed'
      have parsed := DepFile.parse_append ended parsed parsed'
      exact ⟨_, refine_of_parse isDiscovery parsed _,
        OrderedSet.sublist_restrict_of_subset _ (e.reported_subset_append _ _)⟩

end CompileEntry

theorem Facts.useDotdPruning_of_resolve {o : Options} {toolchain : Toolchain} {facts : Facts}
    (resolved : Facts.resolve o toolchain = .ok facts) :
    facts.useDotdPruning = o.useDotdPruning := by
  have switched : resolve o toolchain = _ :=
    resolve_switched o toolchain o.useDotdPruning o.enableModuleMaps
  rw [resolved] at switched
  exact congrArg Facts.useDotdPruning (Except.ok.inj switched)

namespace Pruned

def library : Library where
  label := ⟨"narrow", "narrow", by decide, by decide⟩
  srcs := ["a.m", "a.h", "b.h"]

def compilation (facts : Facts) : Compilation :=
  ⟨library, .empty, facts, none⟩

theorem toList_inputs (facts : Facts) : ((compilation facts).inputs "narrow/a.m").toList =
    ["narrow/a.m", "narrow/a.h", "narrow/b.h"].map Path.mk := by
  unfold Compilation.inputs compilation
  dsimp only
  generalize facts.enableModuleMaps = maps
  cases maps <;> decide

theorem exists_entry (facts : Facts) : ∃ e ∈ (compilation facts).plan,
    e.source = "narrow/a.m" ∧
      e.action.inputs.toList = ["narrow/a.m", "narrow/a.h", "narrow/b.h"].map Path.mk := by
  have compiled : (compilation facts).library.compiledSources = [⟨"a.m", true⟩] := by
    show library.compiledSources = _
    decide
  have objects := congrArg List.length (compilation facts).objects_plan
  rw [length_objectPaths, List.length_map, compiled, List.length_singleton] at objects
  obtain ⟨e, planned⟩ := List.exists_mem_of_length_pos (objects ▸ Nat.one_pos)
  obtain ⟨source, mem, language, object, _, rfl⟩ := Compilation.mem_plan planned
  rw [compiled, List.mem_singleton] at mem
  subst mem
  have source : library.label.execPath "a.m" = "narrow/a.m" := by decide
  have inputs := congrArg (fun source => ((compilation facts).inputs source).toList) source
  exact ⟨_, planned, source, inputs.trans (toList_inputs facts)⟩

end Pruned

/-- A report that lists one of two headers, under another spelling. -/
theorem CompileEntry.refine_narrows_header :
    ∃ facts e kept, Facts.resolve { useDotdPruning := true } (.xcode Toolchain.defaultRoot) =
        .ok facts ∧
      e ∈ (Pruned.compilation facts).plan ∧
      e.refine "a.o: narrow/a.m \\\n narrow//b.h\n" = .ok { e.action with inputs := kept } ∧
      kept.toList.head? = some "narrow/a.m" ∧ ⟨"narrow/b.h"⟩ ∈ kept.toList ∧
      ⟨"narrow/a.h"⟩ ∉ kept.toList := by
  obtain ⟨facts, resolved⟩ :
      ∃ facts, Facts.resolve { useDotdPruning := true } (.xcode Toolchain.defaultRoot) =
        .ok facts := exists_of_isOk (by decide)
  obtain ⟨e, planned, source, inputs⟩ := Pruned.exists_entry facts
  have parsed : DepFile.parse "a.o: narrow/a.m \\\n narrow//b.h\n" =
      .ok [⟨"a.o", ["narrow/a.m", "narrow//b.h"]⟩] := by decide
  obtain ⟨_, narrows⟩ := refine_narrows planned "a.o: narrow/a.m \\\n narrow//b.h\n"
  obtain ⟨kept, narrowed, _, exact, first, _⟩ :=
    (narrows (Facts.useDotdPruning_of_resolve resolved)).2 _ parsed
  rw [source] at exact first
  refine ⟨facts, e, kept, resolved, planned, narrowed, first, ?_, ?_⟩
  · exact (exact _ (by simp [inputs])).mpr (by decide)
  · rw [exact _ (by simp [inputs])]
    decide

end ObjcPlan
