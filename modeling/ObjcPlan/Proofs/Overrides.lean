import ObjcPlan.Options.Loader
import ObjcPlan.Proofs.Resolution
import ObjcPlan.Proofs.RoundTrip

/-! Overriding options one after another. An override that is refused changes nothing, except that a
refused cpu stays in place until the next one (`Options.set_keeps`). Overrides that are accepted
lead from valid options to valid ones, except that an empty output base is accepted and is not valid
(`Options.overrides_validate`). -/

namespace ObjcPlan

/-- One call that overrides an option by a text. -/
structure Override where
  key : String
  value : String
  deriving DecidableEq

namespace Override

/-- The value that the last of some calls gives to an option, or else the one that it has. -/
def last (key initial : String) (calls : List Override) : String :=
  calls.foldl (fun value call => if call.key = key then call.value else value) initial

end Override

namespace OptionKey

theorem ofName?_eq_some_iff {text : String} {key : OptionKey} :
    ofName? text = some key ↔ text = key.name := by
  constructor
  · intro found
    simpa [eq_comm] using List.find?_some found
  · rintro rfl
    exact ofName?_name key

theorem name_ne_objccopt (key : OptionKey) : key.name ≠ "objccopt" := by
  cases key with
  | minimumOs family | sdkVersion family => cases family <;> decide
  | _ => decide

theorem ofOverride?_eq_some_iff {text : String} {key : OptionKey} :
    ofOverride? text = some key ↔ text = key.name ∨ text = "objccopt" ∧ key = objccopts := by
  unfold ofOverride?
  split
  · next singular => simp [singular, eq_comm, (name_ne_objccopt key).symm]
  · next other => simp [other, ofName?_eq_some_iff]

/-- Only one text names a key that is not repeatable. -/
theorem ofOverride?_eq_iff_of_ne {text : String} {key : OptionKey} (ne : key ≠ objccopts) :
    ofOverride? text = some key ↔ text = key.name := by
  simp [ofOverride?_eq_some_iff, ne]

end OptionKey

theorem exists_of_map {ε α β : Type} {result : Except ε α} {f : α → β} {b : β}
    (h : result.map f = .ok b) : ∃ a, result = .ok a ∧ f a = b := by
  cases result with
  | error error => contradiction
  | ok a => exact ⟨a, rfl, Except.ok.inj h⟩

namespace Options

open OptionKey (ofOverride?)

variable {o o' : Options} {key value : String} {known : OptionKey}

/-- The options after some calls, whatever each returns. -/
def overrideAll (o : Options) (calls : List Override) : Options :=
  calls.foldl (fun o call => (o.set call.key call.value).1) o

/-- Those of some calls that succeed as they are made. -/
def accepted (o : Options) : List Override → List Override
  | [] => []
  | call :: calls =>
    match (o.set call.key call.value).2 with
    | .ok _ => call :: (o.set call.key call.value).1.accepted calls
    | .error _ => (o.set call.key call.value).1.accepted calls

/-! ### What one override does -/

/-- Whether a text is acceptable for an option does not depend on the options, and to take it
commutes with a change of the cpu if the option is another. -/
theorem assign_cases (ne : known ≠ .cpu) (value : String) :
    (∃ error, ∀ o : Options, o.assign known value = .error error) ∨
      ∃ change : Options → Options, (∀ o : Options, o.assign known value = .ok (change o)) ∧
        ∀ (o : Options) (cpu : String), change { o with cpu } = { change o with cpu } := by
  have parsed {α : Type} (result : Except OptionsError α) (change : α → Options → Options)
      (commutes : ∀ a o cpu, change a { o with cpu } = { change a o with cpu }) :
      (∃ error, ∀ o, result.map (change · o) = .error error) ∨
        ∃ change' : Options → Options, (∀ o, result.map (change · o) = .ok (change' o)) ∧
          ∀ (o : Options) (cpu : String), change' { o with cpu } = { change' o with cpu } := by
    cases result with
    | error error => exact .inl ⟨error, fun _ => rfl⟩
    | ok a => exact .inr ⟨change a, fun _ => rfl, commutes a⟩
  cases known with
  | cpu => contradiction
  | objccopts => exact .inr ⟨_, fun _ => rfl, fun _ _ => rfl⟩
  | outputBase => exact .inr ⟨_, fun _ => rfl, fun _ _ => rfl⟩
  | _ => exact parsed _ _ fun _ _ _ => rfl

/-- What an override can do. A cpu is put in place in any case, and then judged; any other option is
either refused or changed, whatever the options are. -/
theorem set_cases (key value : String) :
    (key = "cpu" ∧ ∀ o : Options, o.set key value = ({ o with cpu := value },
      if splitCpu? value = none then .error (.unsupportedCpu value) else .ok ())) ∨
    (key ≠ "cpu" ∧ ∃ error, ∀ o : Options, o.set key value = (o, .error error)) ∨
    (key ≠ "cpu" ∧ ∃ (known : OptionKey) (change : Options → Options),
      ofOverride? key = some known ∧
      (∀ o : Options, o.assign known value = .ok (change o)) ∧
      (∀ o : Options, o.set key value = (change o, .ok ())) ∧
      ∀ (o : Options) (cpu : String), change { o with cpu } = { change o with cpu }) := by
  cases named : ofOverride? key with
  | none =>
    refine .inr (.inl ⟨?_, .unknownOption key, fun o => by simp only [set, named]⟩)
    rintro rfl
    cases named
  | some known =>
    by_cases isCpu : known = .cpu
    · subst isCpu
      have isText : key = "cpu" := (OptionKey.ofOverride?_eq_iff_of_ne (by decide)).mp named
      refine .inl ⟨isText, fun o => ?_⟩
      simp only [set, named, assign, if_pos, target]
      cases splitCpu? value <;> rfl
    · have otherText : key ≠ "cpu" := by
        rintro rfl
        exact isCpu (Option.some.inj named).symm
      obtain ⟨error, refused⟩ | ⟨change, changed, commutes⟩ := assign_cases isCpu value
      · exact .inr (.inl ⟨otherText, error, fun o => by simp only [set, named, refused]⟩)
      · refine .inr (.inr ⟨otherText, known, change, rfl, changed, fun o => ?_, commutes⟩)
        simp only [set, named, changed, if_neg isCpu]

/-- A refused override leaves the options as they were, or else with a cpu that is not supported. -/
theorem fst_set_of_error {error : OptionsError} (refused : (o.set key value).2 = .error error) :
    (key ≠ "cpu" ∧ (o.set key value).1 = o) ∨
      key = "cpu" ∧ splitCpu? value = none ∧ (o.set key value).1 = { o with cpu := value } := by
  obtain ⟨isCpu, eq⟩ | ⟨other, e, eq⟩ | ⟨_, known, change, _, _, eq, _⟩ := set_cases key value
  · rw [eq] at refused ⊢
    by_cases unsupported : splitCpu? value = none
    · exact .inr ⟨isCpu, unsupported, rfl⟩
    · simp [unsupported] at refused
  · exact .inl ⟨other, by rw [eq]⟩
  · rw [eq] at refused
    cases refused

/-- To take a text for an option changes no other. -/
theorem field?_assign_of_ne {next : Options} (assigned : o.assign known value = .ok next)
    {other : OptionKey} (ne : other ≠ known) : next.field? other = o.field? other := by
  cases known
  case cpu | objccopts | outputBase =>
    obtain rfl := Except.ok.inj assigned
    cases other <;> first | exact absurd rfl ne | rfl
  case minimumOs family | sdkVersion family =>
    obtain ⟨_, _, rfl⟩ := exists_of_map assigned
    cases other
    case minimumOs other | sdkVersion other =>
      first
      | rfl
      | have ne : other ≠ family := fun same => ne (congrArg _ same)
        exact congrArg (Option.map Json.string) (PerFamily.get_set_of_ne _ _ ne)
    all_goals rfl
  all_goals
    obtain ⟨_, _, rfl⟩ := exists_of_map assigned
    cases other <;> first | exact absurd rfl ne | rfl

theorem exists_assign_of_set (done : (o.set key value).2 = .ok ()) :
    ∃ known, ofOverride? key = some known ∧ o.assign known value = .ok (o.set key value).1 := by
  obtain ⟨rfl, eq⟩ | ⟨_, error, eq⟩ | ⟨_, known, change, named, changed, eq, _⟩ :=
    set_cases key value
  · exact ⟨.cpu, rfl, by rw [eq]; rfl⟩
  · rw [eq] at done
    cases done
  · exact ⟨known, named, by rw [eq, changed]⟩

theorem cpu_fst_set (o : Options) (key value : String) :
    (o.set key value).1.cpu = if key = "cpu" then value else o.cpu := by
  obtain ⟨isCpu, eq⟩ | ⟨other, _, eq⟩ | ⟨other, _, change, _, _, eq, commutes⟩ :=
    set_cases key value
  · rw [eq, if_pos isCpu]
  · rw [eq, if_neg other]
  · rw [eq, if_neg other]
    exact (congrArg Options.cpu (commutes o o.cpu) :)

theorem set_snd_congr (o o' : Options) (key value : String) :
    (o.set key value).2 = (o'.set key value).2 := by
  obtain ⟨_, eq⟩ | ⟨_, _, eq⟩ | ⟨_, _, _, _, _, eq, _⟩ := set_cases key value <;> rw [eq, eq]

theorem splitCpu?_of_set (done : (o.set key value).2 = .ok ()) (isCpu : key = "cpu") :
    splitCpu? value ≠ none := by
  obtain ⟨_, eq⟩ | ⟨other, _⟩ | ⟨other, _⟩ := set_cases key value
  · rw [eq] at done
    intro unsupported
    simp [unsupported] at done
  · contradiction
  · contradiction

/-! ### Runs of overrides, with and without the refused ones -/

/-- Options that are the same but for a cpu in the first that is not supported. -/
structure Follows (o o' : Options) : Prop where
  eq : o = { o' with cpu := o.cpu }
  cpu : o.cpu = o'.cpu ∨ splitCpu? o.cpu = none

namespace Follows

theorem refl (o : Options) : Follows o o := ⟨rfl, .inl rfl⟩

theorem set (follows : Follows o o') (key value : String) :
    Follows (o.set key value).1 (o'.set key value).1 := by
  constructor
  · obtain ⟨_, eq⟩ | ⟨_, _, eq⟩ | ⟨other, _, change, _, _, eq, commutes⟩ := set_cases key value
    · rw [eq, eq, follows.eq]
    · rw [eq, eq]
      exact follows.eq
    · rw [cpu_fst_set, if_neg other, eq, eq, ← commutes, ← follows.eq]
  · rw [cpu_fst_set, cpu_fst_set]
    split
    · exact .inl rfl
    · exact follows.cpu

theorem set_of_error (follows : Follows o o') {error : OptionsError}
    (refused : (o.set key value).2 = .error error) : Follows (o.set key value).1 o' := by
  obtain ⟨_, eq⟩ | ⟨_, unsupported, eq⟩ := fst_set_of_error refused
  · rw [eq]
    exact follows
  · rw [eq, follows.eq]
    exact ⟨rfl, .inr unsupported⟩

/-- Calls that are all made are followed by the successful ones among them. -/
theorem overrideAll (calls : List Override) (follows : Follows o o') :
    Follows (o.overrideAll calls) (o'.overrideAll (o.accepted calls)) := by
  -- a successful call is made on both, a refused one on the first only
  induction calls generalizing o o' with
  | nil => exact follows
  | cons call calls ih =>
    cases result : (o.set call.key call.value).2 with
    | ok _ =>
      rw [accepted, result]
      exact ih (follows.set call.key call.value)
    | error error =>
      rw [accepted, result]
      exact ih (follows.set_of_error result)

end Follows

theorem cpu_overrideAll (o : Options) (calls : List Override) :
    (o.overrideAll calls).cpu = Override.last "cpu" o.cpu calls := by
  induction calls generalizing o with
  | nil => rfl
  | cons call calls ih => exact (ih _).trans (by rw [cpu_fst_set]; rfl)

/-- What successful calls keep holds after all of those that are accepted. -/
theorem overrideAll_accepted {P : Options → Prop}
    (step : ∀ {o key value}, (o.set key value).2 = .ok () → P o → P (o.set key value).1)
    (start : P o') (o : Options) (calls : List Override) :
    P (o'.overrideAll (o.accepted calls)) := by
  induction calls generalizing o o' with
  | nil => exact start
  | cons call calls ih =>
    cases result : (o.set call.key call.value).2 with
    | ok _ =>
      rw [accepted, result]
      exact ih (step ((set_snd_congr ..).trans result) start) _
    | error error =>
      rw [accepted, result]
      exact ih start _

theorem splitCpu?_fst_set (done : (o.set key value).2 = .ok ())
    (supported : splitCpu? o.cpu ≠ none) : splitCpu? (o.set key value).1.cpu ≠ none := by
  rw [cpu_fst_set]
  split
  · next isCpu => exact splitCpu?_of_set done isCpu
  · exact supported

/-- A refused override changes no option but the cpu, an accepted one none but the one that it
names. So after any calls the options are those that the successful calls alone lead to, except for
the cpu, which is the one that was asked for last; from a supported cpu, they are the same exactly
if the last one is supported. -/
theorem set_keeps (o : Options) :
    (∀ key value error, (o.set key value).2 = .error error →
      (o.set key value).1 = if key = "cpu" then { o with cpu := value } else o) ∧
    (∀ key value, (o.set key value).2 = .ok () → ∃ known, ofOverride? key = some known ∧
      ∀ other ≠ known, (o.set key value).1.field? other = o.field? other) ∧
    ∀ calls,
      o.overrideAll calls =
        { o.overrideAll (o.accepted calls) with cpu := Override.last "cpu" o.cpu calls } ∧
      (splitCpu? o.cpu ≠ none → (o.overrideAll calls = o.overrideAll (o.accepted calls) ↔
        splitCpu? (Override.last "cpu" o.cpu calls) ≠ none)) := by
  refine ⟨fun key value error refused => ?_, fun key value done => ?_, fun calls => ?_⟩
  · obtain ⟨other, eq⟩ | ⟨isCpu, _, eq⟩ := fst_set_of_error refused
    · rw [eq, if_neg other]
    · rw [eq, if_pos isCpu]
  · obtain ⟨known, named, assigned⟩ := exists_assign_of_set done
    exact ⟨known, named, fun other => field?_assign_of_ne assigned⟩
  · have follows := (Follows.refl o).overrideAll calls
    rw [← cpu_overrideAll]
    refine ⟨follows.eq, fun supported => ⟨fun same => ?_, fun isLast => ?_⟩⟩
    · rw [same]
      exact overrideAll_accepted splitCpu?_fst_set supported o calls
    · rw [follows.eq, follows.cpu.resolve_right isLast]

/-- Only a call that changes the cpu can be refused and still have an effect, and a later one undoes
it. -/
theorem set_keeps_sample :
    let o : Options := { cpu := "ios_arm64" }
    let calls : List Override :=
      [⟨"cpu", "k8"⟩, ⟨"xcode_version", ""⟩, ⟨"objccopt", "-g"⟩, ⟨"cpu", "darwin"⟩]
    (o.set "xcode_version" "").1 = o ∧
    (∃ known, ofOverride? "objccopt" = some known ∧
      ∀ other ≠ known, (o.set "objccopt" "-g").1.field? other = o.field? other) ∧
    o.accepted calls = [⟨"objccopt", "-g"⟩, ⟨"cpu", "darwin"⟩] ∧
    o.overrideAll calls = o.overrideAll (o.accepted calls) := by
  intro o calls
  obtain ⟨refused, done, runs⟩ := set_keeps o
  refine ⟨?_, done _ _ (by decide +kernel), by decide +kernel, ?_⟩
  · exact refused _ _ (.invalidValue "xcode_version" .emptyVersion) (by decide +kernel)
  · exact ((runs calls).2 (by decide +kernel)).mpr (by decide +kernel)

/-- The cpu `k8` is refused, and is then the cpu of the options. -/
theorem set_stores_refused_cpu :
    let o : Options := {}
    (o.set "cpu" "k8").2 = .error (.unsupportedCpu "k8") ∧ (o.set "cpu" "k8").1 ≠ o ∧
      o.accepted [⟨"cpu", "k8"⟩] = [] ∧ o.overrideAll [⟨"cpu", "k8"⟩] = { o with cpu := "k8" } := by
  decide +kernel

/-! ### Validity under overrides -/

/-- What validation ensures but for the output base. -/
structure IsWellFormed (o : Options) : Prop where
  cpu : splitCpu? o.cpu ≠ none
  versions : ∀ field ∈ o.versions, ∀ version ∈ field.2, Version.IsValid version

theorem exists_target_iff : (∃ target, o.target = .ok target) ↔ splitCpu? o.cpu ≠ none := by
  unfold target
  cases splitCpu? o.cpu <;> simp

theorem isWellFormed_of_isValid (valid : o.IsValid) : o.IsWellFormed :=
  ⟨exists_target_iff.mp valid.target, valid.versions⟩

/-- All that validation can still find wrong is an empty output base. -/
theorem validate_eq (wellFormed : o.IsWellFormed) :
    o.validate =
      if o.outputBase = "" then .error (.invalidValue "output_base" .emptyOutputBase)
      else .ok () := by
  obtain ⟨target, isTarget⟩ := exists_target_iff.mpr wellFormed.cpu
  have versions : o.versions.forM (fun field => field.2.forM (Version.check field.1)) =
      .ok () := by
    refine forM_eq_ok_iff.mpr fun field mem => ?_
    have valid := wellFormed.versions field mem
    cases configured : field.2 with
    | none => rfl
    | some version => exact Version.check_eq_ok_iff.mpr (valid version configured)
  unfold validate
  rw [isTarget]
  show (o.versions.forM (fun field => field.2.forM (Version.check field.1)) >>= fun _ => _) = _
  rw [versions]
  rfl

theorem forall_versions_iff {P : Option String → Prop} :
    (∀ field ∈ o.versions, P field.2) ↔
      (∀ family, P (o.minimumOs.get family)) ∧ (∀ family, P (o.sdkVersion.get family)) ∧
        P o.xcodeVersion := by
  have all (family : Family) : family ∈ Family.all := by cases family <;> decide
  simp only [versions, List.forall_mem_append, List.forall_mem_map, List.forall_mem_singleton, all,
    forall_const, and_assoc]

theorem versions_of_assign {next : Options} (assigned : o.assign known value = .ok next)
    (valid : ∀ field ∈ o.versions, ∀ version ∈ field.2, Version.IsValid version) :
    ∀ field ∈ next.versions, ∀ version ∈ field.2, Version.IsValid version := by
  have one {p : PerFamily (Option String)} {family : Family} {field : String}
      (valid : ∀ family, ∀ version ∈ p.get family, Version.IsValid version)
      (checked : Version.check field value = .ok ()) (other : Family) :
      ∀ version ∈ (p.set family (some value)).get other, Version.IsValid version := by
    by_cases same : other = family
    · subst same
      rw [PerFamily.get_set_self]
      rintro _ ⟨⟩
      exact Version.check_eq_ok_iff.mp checked
    · rw [PerFamily.get_set_of_ne _ _ same]
      exact valid other
  rw [forall_versions_iff (P := fun value => ∀ version ∈ value, Version.IsValid version)] at valid ⊢
  obtain ⟨minimumOs, sdkVersion, xcodeVersion⟩ := valid
  cases known
  case minimumOs family =>
    obtain ⟨_, checked, rfl⟩ := exists_of_map assigned
    exact ⟨one minimumOs checked, sdkVersion, xcodeVersion⟩
  case sdkVersion family =>
    obtain ⟨_, checked, rfl⟩ := exists_of_map assigned
    exact ⟨minimumOs, one sdkVersion checked, xcodeVersion⟩
  case xcodeVersion =>
    obtain ⟨_, checked, rfl⟩ := exists_of_map assigned
    refine ⟨minimumOs, sdkVersion, ?_⟩
    rintro _ ⟨⟩
    exact Version.check_eq_ok_iff.mp checked
  case cpu | objccopts | outputBase =>
    obtain rfl := Except.ok.inj assigned
    exact ⟨minimumOs, sdkVersion, xcodeVersion⟩
  all_goals
    obtain ⟨_, _, rfl⟩ := exists_of_map assigned
    exact ⟨minimumOs, sdkVersion, xcodeVersion⟩

theorem isWellFormed_fst_set (done : (o.set key value).2 = .ok ()) (wellFormed : o.IsWellFormed) :
    (o.set key value).1.IsWellFormed := by
  obtain ⟨known, _, assigned⟩ := exists_assign_of_set done
  exact ⟨splitCpu?_fst_set done wellFormed.cpu, versions_of_assign assigned wellFormed.versions⟩

theorem outputBase_fst_set (o : Options) (key value : String) :
    (o.set key value).1.outputBase = if key = "output_base" then value else o.outputBase := by
  by_cases isBase : key = "output_base"
  · rw [if_pos isBase]
    subst isBase
    rfl
  · rw [if_neg isBase]
    cases result : (o.set key value).2 with
    | ok _ =>
      obtain ⟨known, named, assigned⟩ := exists_assign_of_set result
      have other : OptionKey.outputBase ≠ known := by
        rintro rfl
        exact isBase ((OptionKey.ofOverride?_eq_iff_of_ne (by decide)).mp named)
      exact Json.string.inj (Option.some.inj (field?_assign_of_ne assigned other))
    | error error =>
      obtain ⟨_, eq⟩ | ⟨_, _, eq⟩ := fst_set_of_error result <;> rw [eq]

theorem outputBase_overrideAll (o : Options) (calls : List Override) :
    (o.overrideAll calls).outputBase = Override.last "output_base" o.outputBase calls := by
  induction calls generalizing o with
  | nil => rfl
  | cons call calls ih => exact (ih _).trans (by rw [outputBase_fst_set]; rfl)

theorem validate_of_ofFile {tree : FileTree} {file : Path} {decode : String → Option Options}
    (loaded : ofFile tree file decode = .ok o) : o.validate = .ok () := by
  unfold ofFile at loaded
  split at loaded
  · cases loaded
  · cases loaded
  · split at loaded
    · cases loaded
    · obtain ⟨_, valid, rest⟩ := exists_of_bind loaded
      obtain rfl := Except.ok.inj rest
      exact valid

namespace Loader

variable {loader : Loader} {decode : String → Option Options}

theorem validate_of_finish (finished : loader.finish o = .ok o') : o'.validate = .ok () := by
  obtain ⟨_, _, rest⟩ := exists_of_bind finished
  obtain ⟨_, valid, rest⟩ := exists_of_bind rest
  obtain rfl := Except.ok.inj rest
  exact valid

theorem validate_of_fromFile {file : Path} (loaded : loader.fromFile file decode = .ok o) :
    o.validate = .ok () := by
  obtain ⟨_, _, finished⟩ := exists_of_bind loaded
  exact validate_of_finish finished

theorem validate_of_fromDirectory {start : Path}
    (loaded : loader.fromDirectory start decode = .ok o) : o.validate = .ok () := by
  unfold fromDirectory at loaded
  split at loaded
  · exact validate_of_fromFile loaded
  · exact validate_of_finish loaded

end Loader

/-- Options that are loaded are valid, and an override that succeeds leaves valid options valid,
except that it may empty the output base. After a run of successful overrides this is still all that
validation can find wrong, and it does so exactly if the last output base is empty. -/
theorem overrides_validate (loader : Loader) :
    (∀ file o, ofFile loader.tree file = .ok o → o.validate = .ok ()) ∧
    (∀ file o, loader.fromFile file = .ok o → o.validate = .ok ()) ∧
    (∀ start o, loader.fromDirectory start = .ok o → o.validate = .ok ()) ∧
    ∀ o : Options, o.validate = .ok () →
      (∀ key value, (o.set key value).2 = .ok () →
        ((o.set key value).1.validate = .ok () ↔ ¬(key = "output_base" ∧ value = ""))) ∧
      ∀ calls, o.accepted calls = calls → (o.overrideAll calls).validate =
        if Override.last "output_base" o.outputBase calls = "" then
          .error (.invalidValue "output_base" .emptyOutputBase)
        else .ok () := by
  refine ⟨fun _ _ => validate_of_ofFile, fun _ _ => Loader.validate_of_fromFile,
    fun _ _ => Loader.validate_of_fromDirectory, fun o validated => ?_⟩
  have valid := isValid_of_validate validated
  have wellFormed := isWellFormed_of_isValid valid
  refine ⟨fun key value done => ?_, fun calls succeed => ?_⟩
  · rw [validate_eq (isWellFormed_fst_set done wellFormed), outputBase_fst_set]
    by_cases isBase : key = "output_base"
    · by_cases empty : value = "" <;> simp [isBase, empty]
    · simp [isBase, valid.outputBase]
  · have wellFormed := overrideAll_accepted isWellFormed_fst_set wellFormed o calls
    rw [succeed] at wellFormed
    rw [validate_eq wellFormed, outputBase_overrideAll]

/-- The options of a file, with a version from the environment and two more from overrides. -/
theorem overrides_validate_sample :
    let tree : FileTree := ⟨[(["mortar.toml"], .file "cpu = \"darwin\"\n")]⟩
    let loader : Loader := ⟨tree, some { xcodeVersion := some "7.3" }⟩
    let o : Options := { cpu := "darwin", xcodeVersion := some "7.3" }
    let calls : List Override := [⟨"output_base", "out"⟩, ⟨"macos_minimum_os", "10.9"⟩]
    (ofFile tree "mortar.toml" = .ok { cpu := "darwin" } ∧
      ({ cpu := "darwin" } : Options).validate = .ok ()) ∧
    (loader.fromFile "mortar.toml" = .ok o ∧ o.validate = .ok ()) ∧
    (loader.fromDirectory "app" = .ok o ∧ o.validate = .ok ()) ∧
    (o.set "macos_minimum_os" "10.9").1.validate = .ok () ∧
    (o.overrideAll calls).validate = .ok () := by
  intro tree loader o calls
  obtain ⟨ofFile, fromFile, fromDirectory, overrides⟩ := overrides_validate loader
  have read : Options.ofFile tree "mortar.toml" = .ok { cpu := "darwin" } := by decide +kernel
  have loaded : loader.fromFile "mortar.toml" = .ok o := by decide +kernel
  have found : loader.fromDirectory "app" = .ok o := by decide +kernel
  obtain ⟨one, run⟩ := overrides o (fromFile _ _ loaded)
  refine ⟨⟨read, ofFile _ _ read⟩, ⟨loaded, fromFile _ _ loaded⟩,
    ⟨found, fromDirectory _ _ found⟩, ?_, ?_⟩
  · exact (one _ _ (by decide +kernel)).mpr (by decide)
  · rw [run calls (by decide +kernel)]
    decide

/-- The output base may be emptied, and then the options are not valid. -/
theorem overrides_empty_output_base :
    let o : Options := {}
    o.validate = .ok () ∧ (o.set "output_base" "").2 = .ok () ∧
      (o.set "output_base" "").1.validate =
        .error (.invalidValue "output_base" .emptyOutputBase) := by
  decide +kernel

end Options

end ObjcPlan
