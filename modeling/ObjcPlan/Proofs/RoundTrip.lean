import ObjcPlan.Options.Fields
import ObjcPlan.Proofs.Codec
import ObjcPlan.Workspace

/-! The plan of a workspace read back from its JSON form, as another process does that runs the
actions. Every value that is written can be read, and comes out as it went in, with the spelling of
its paths and the order of its sets (`WorkspacePlan.reads_back`). -/

namespace ObjcPlan

open Coded Json.Record

namespace SortedMap

variable {κ α : Type} [Ord κ]

theorem eq_empty {m : SortedMap κ α} (h : m.isEmpty = true) : m = .empty :=
  ext (List.isEmpty_iff.mp h)

variable [Std.TransOrd κ]

/-- An entry whose key comes after all others goes to the end. -/
theorem insertEntry_of_last {key : κ} {value : α} {entries : List (κ × α)}
    (last : ∀ entry ∈ entries, compare entry.1 key = .lt) :
    insertEntry key value entries = entries ++ [(key, value)] := by
  induction entries with
  | nil => rfl
  | cons head rest ih =>
    obtain ⟨first, others⟩ := List.forall_mem_cons.mp last
    simp [insertEntry, Std.OrientedCmp.gt_of_lt first, ih others]

theorem entries_foldl_insert (rest : List (κ × α)) (m : SortedMap κ α)
    (sorted : (m.entries ++ rest).Pairwise fun a b => compare a.1 b.1 = .lt) :
    (rest.foldl (fun m entry => m.insert entry.1 entry.2) m).entries = m.entries ++ rest := by
  induction rest generalizing m with
  | nil => simp
  | cons entry rest ih =>
    have last : ∀ before ∈ m.entries, compare before.1 entry.1 = .lt := fun before mem =>
      (List.pairwise_append.mp sorted).2.2 before mem entry List.mem_cons_self
    have entries : (m.insert entry.1 entry.2).entries = m.entries ++ [entry] :=
      insertEntry_of_last last
    rw [List.foldl_cons, ih _ (by simpa [entries] using sorted), entries, List.append_assoc]
    rfl

theorem ofList_entries (m : SortedMap κ α) : ofList m.entries = m :=
  ext (entries_foldl_insert m.entries .empty (by simpa [empty] using m.sorted))

end SortedMap

instance : Present (SortedSet String) where
  decode_encode s := by
    have members : s.keys.map (·, ()) = s.entries := (List.map_map ..).trans (List.map_id _)
    show (decode (encode s.keys)).map SortedSet.ofList = some s
    rw [Faithful.decode_encode, Option.map_some, SortedSet.ofList, members,
      SortedMap.ofList_entries]
  plain s := Faithful.plain s.keys
  ne_null _ := nofun

instance {α : Type} [Coded α] [Faithful α] : Present (SortedMap String α) where
  decode_encode m := by
    show ((m.entries.map fun entry => (entry.1, encode entry.2)).mapM fun field =>
      (decode field.2).map (field.1, ·)).map SortedMap.ofList = some m
    rw [Json.mapM_map_eq_some fun _ _ => by simp, Option.map_some, SortedMap.ofList_entries]
  plain m := by
    refine .object fun field mem => ?_
    obtain ⟨entry, _, rfl⟩ := List.mem_map.mp mem
    exact Faithful.plain entry.2
  ne_null _ := nofun

theorem PerFamily.ext_get {α : Type} {p p' : PerFamily α}
    (same : ∀ family, p.get family = p'.get family) : p = p' := by
  cases p
  cases p'
  simp only [mk.injEq]
  exact ⟨same .ios, same .macos, same .tvos, same .watchos⟩

theorem PerFamily.get_set_self {α : Type} (p : PerFamily α) (family : Family) (value : α) :
    (p.set family value).get family = value := by
  cases family <;> rfl

theorem PerFamily.get_set_of_ne {α : Type} (p : PerFamily α) {family other : Family} (value : α)
    (ne : other ≠ family) : (p.set family value).get other = p.get other := by
  cases family <;> cases other <;> first | rfl | contradiction

theorem OptionKey.ofName?_name (key : OptionKey) : ofName? key.name = some key := by
  cases key with
  | minimumOs family | sdkVersion family => cases family <;> rfl
  | _ => rfl

theorem OptionKey.mem_all (key : OptionKey) : key ∈ all := by
  cases key with
  | minimumOs family | sdkVersion family => cases family <;> decide
  | _ => decide

/-! Options are written without the versions that are not configured, and read into the defaults.
Each option is a place of its own there. -/

namespace Options

variable {o o' : Options} {key : OptionKey} {value : Json}

theorem ext_field? (same : ∀ key, o.field? key = o'.field? key) : o = o' := by
  have version {a b : Option String} (h : a.map Json.string = b.map Json.string) : a = b :=
    Option.map_injective (fun _ _ => Json.string.inj) h
  have coded {α : Type} [Coded α] [Faithful α] {a b : α} (h : some (encode a) = some (encode b)) :
      a = b := encode_inj (Option.some.inj h)
  cases o
  cases o'
  simp only [mk.injEq]
  exact ⟨coded (same .cpu), coded (same .compilationMode),
    PerFamily.ext_get fun family => version (same (.minimumOs family)),
    PerFamily.ext_get fun family => version (same (.sdkVersion family)),
    version (same .xcodeVersion), coded (same .appleBitcode), coded (same .collectCodeCoverage),
    coded (same .useLlvmCovmap), coded (same .objccopts), coded (same .enableModuleMaps),
    coded (same .useDotdPruning), coded (same .disableResources), coded (same .generateDsym),
    coded (same .outputBase)⟩

theorem exists_put (base : Options) (field : o.field? key = some value) :
    ∃ next, base.put key value = some next ∧ next.field? key = some value := by
  cases key with
  | minimumOs family | sdkVersion family =>
    obtain ⟨version, _, rfl⟩ := Option.map_eq_some_iff.mp field
    exact ⟨_, rfl, congrArg (Option.map Json.string) (PerFamily.get_set_self _ family _)⟩
  | xcodeVersion =>
    obtain ⟨version, _, rfl⟩ := Option.map_eq_some_iff.mp field
    exact ⟨_, rfl, rfl⟩
  | compilationMode =>
    obtain rfl := Option.some.inj field
    exact ⟨_, congrArg (Option.map _) (Faithful.decode_encode o.compilationMode), rfl⟩
  | appleBitcode =>
    obtain rfl := Option.some.inj field
    exact ⟨_, congrArg (Option.map _) (Faithful.decode_encode o.appleBitcode), rfl⟩
  | objccopts =>
    obtain rfl := Option.some.inj field
    exact ⟨_, congrArg (Option.map _) (Faithful.decode_encode o.objccopts), rfl⟩
  | _ =>
    obtain rfl := Option.some.inj field
    exact ⟨_, rfl, rfl⟩

/-- To put an option in changes no other. -/
theorem field?_put_of_ne {next : Options} (put : o.put key value = some next) {other : OptionKey}
    (ne : other ≠ key) : next.field? other = o.field? other := by
  cases key <;> obtain ⟨_, _, rfl⟩ := Option.map_eq_some_iff.mp put
  case minimumOs family _ _ | sdkVersion family _ _ =>
    cases other
    case minimumOs other | sdkVersion other =>
      first
      | rfl
      | have ne : other ≠ family := fun same => ne (congrArg _ same)
        exact congrArg (Option.map Json.string) (PerFamily.get_set_of_ne _ _ ne)
    all_goals rfl
  all_goals cases other <;> first | rfl | contradiction

theorem field?_default (missing : o.field? key = none) : ({} : Options).field? key = none := by
  cases key with
  | minimumOs family | sdkVersion family => cases family <;> rfl
  | xcodeVersion => rfl
  | _ => contradiction

theorem plain_of_field (field : o.field? key = some value) : value.Plain := by
  cases key with
  | minimumOs | sdkVersion | xcodeVersion =>
    obtain ⟨version, _, rfl⟩ := Option.map_eq_some_iff.mp field
    exact .string version
  | objccopts =>
    obtain rfl := Option.some.inj field
    exact Faithful.plain o.objccopts
  | cpu | compilationMode | appleBitcode | outputBase =>
    obtain rfl := Option.some.inj field
    exact .string _
  | _ =>
    obtain rfl := Option.some.inj field
    exact .bool _

/-- Reading goes through the fields that are there, and leaves the other options as they are. -/
theorem exists_foldlM_put (o : Options) {keys : List OptionKey} (distinct : keys.Nodup)
    (base : Options) (missing : ∀ key ∈ keys, o.field? key = none → base.field? key = none) :
    ∃ result, (keys.filterMap fun key => (o.field? key).map (key.name, ·)).foldlM
        (fun o field => (OptionKey.ofName? field.1).bind (o.put · field.2)) base = some result ∧
      ∀ key, result.field? key = if key ∈ keys then o.field? key else base.field? key := by
  induction keys generalizing base with
  | nil => exact ⟨base, rfl, fun key => by simp⟩
  | cons key keys ih =>
    obtain ⟨fresh, distinct⟩ := List.nodup_cons.mp distinct
    obtain ⟨first, missing⟩ := List.forall_mem_cons.mp missing
    cases field : o.field? key with
    | none =>
      obtain ⟨result, read, fields⟩ := ih distinct base missing
      refine ⟨result, by simpa [field] using read, fun other => ?_⟩
      rw [fields other]
      by_cases same : other = key
      · subst same
        simp [fresh, field, first field]
      · simp [same]
    | some value =>
      obtain ⟨next, put, this⟩ := exists_put base field
      obtain ⟨result, read, fields⟩ := ih distinct next fun other mem absent => by
        rw [field?_put_of_ne put fun same => fresh (same ▸ mem)]
        exact missing other mem absent
      refine ⟨result, ?_, fun other => ?_⟩
      · simpa [field, OptionKey.ofName?_name, put] using read
      · rw [fields other]
        by_cases same : other = key
        · subst same
          simp [fresh, field, this]
        · simp [same, field?_put_of_ne put same]

end Options

instance : Present Options where
  decode_encode o := by
    obtain ⟨result, read, fields⟩ := o.exists_foldlM_put (by decide : OptionKey.all.Nodup) {}
      fun key _ => Options.field?_default
    have same : result = o := Options.ext_field? fun key => by simp [fields, key.mem_all]
    exact read.trans (congrArg some same)
  plain o := by
    refine .object fun field mem => ?_
    obtain ⟨key, _, isField⟩ := List.mem_filterMap.mp mem
    obtain ⟨value, isValue, rfl⟩ := Option.map_eq_some_iff.mp isField
    exact Options.plain_of_field isValue
  ne_null _ := nofun

instance : Present Discovery where
  decode_encode _ := read_next rfl (read_next (required_eq rfl) rfl)
  plain d := by
    unfold Discovery.instCoded
    simp
  ne_null _ := nofun

instance : Present FileWrite where
  decode_encode _ := read_next rfl (read_next (required_eq rfl) (read_next (required_eq rfl) rfl))
  plain w := by
    unfold instCodedFileWrite
    simp
  ne_null _ := nofun

instance : Present Severity :=
  Json.present_enumeration fun severity => by cases severity <;> rfl

instance : Present Language :=
  Json.present_enumeration fun language => by cases language <;> rfl

instance : Present Diagnostic where
  decode_encode _ := by
    refine read_next rfl ?_
    repeat refine read_next (required_eq rfl) ?_
    rfl
  plain d := by
    unfold Diagnostic.instCoded
    simp
  ne_null _ := nofun

instance : Present ModuleMap where
  decode_encode _ := by
    refine read_next rfl (read_next (optional_eq rfl) ?_)
    repeat refine read_next (required_eq rfl) ?_
    rfl
  plain m := by
    unfold ModuleMap.instCoded
    simp
  ne_null _ := nofun

/-- A part that is left out when it is the one that a missing part stands for. -/
theorem Json.Record.withDefault_omitted {α : Type} [Coded α] [Faithful α] {r : Json.Record}
    {name : String} {a value : α} {isDefault : Bool} (same : isDefault = true → a = value)
    (h : r.parts.lookup name = if isDefault then none else some (encode a)) :
    r.withDefault name value = some a := by
  cases isDefault with
  | false => exact withDefault_eq h
  | true =>
    rw [withDefault, h, same rfl]
    rfl

instance : Present Action where
  decode_encode a := by
    refine read_next rfl ?_
    iterate 5 refine read_next (required_eq rfl) ?_
    refine read_next (withDefault_omitted (a := a.env) SortedMap.eq_empty ?_)
      (read_next (withDefault_omitted (a := a.executionRequirements) SortedMap.eq_empty ?_) rfl)
    · cases a.env.isEmpty <;> cases a.executionRequirements.isEmpty <;> rfl
    · cases a.env.isEmpty <;> cases a.executionRequirements.isEmpty <;> rfl
  plain a := by
    show (Json.object (_ ++ _ ++ _)).Plain
    cases a.env.isEmpty <;> cases a.executionRequirements.isEmpty <;> simp
  ne_null _ := nofun

instance : Present CompileEntry where
  decode_encode _ := by
    refine read_next rfl ?_
    repeat refine read_next (required_eq rfl) ?_
    rfl
  plain e := by
    unfold CompileEntry.instCoded
    simp
  ne_null _ := nofun

instance : Present ArchivePlan where
  decode_encode _ := by
    refine read_next rfl ?_
    repeat refine read_next (required_eq rfl) ?_
    rfl
  plain p := by
    unfold instCodedArchivePlan
    simp
  ne_null _ := nofun

instance : Present FullyLinkedPlan where
  decode_encode _ := by
    refine read_next rfl ?_
    repeat refine read_next (required_eq rfl) ?_
    rfl
  plain p := by
    unfold instCodedFullyLinkedPlan
    simp
  ne_null _ := nofun

instance : Present AnalyzedLibrary where
  decode_encode _ := by
    refine read_next rfl ?_
    repeat
      first
      | refine read_next (required_eq rfl) ?_
      | refine read_next (optional_eq rfl) ?_
    rfl
  plain l := by
    unfold AnalyzedLibrary.instCoded
    simp
  ne_null _ := nofun

/-! The libraries of a plan are written with one field for each, named by its label. -/

namespace SortedMap

variable {α : Type} [Coded α]

/-- The entry that a field stands for which is named by a label. -/
def labeled? (field : String × Json) : Option (Label × α) := do
  return (← decode (.string field.1), ← decode field.2)

/-- The map that an object stands for whose fields are named by labels. -/
def ofByLabel? : Json → Option (SortedMap Label α)
  | .object fields => (fields.mapM labeled?).map ofList
  | _ => none

theorem labeled?_text [Faithful α] (entry : Label × α) :
    labeled? (entry.1.text, encode entry.2) = some entry :=
  read_next (Faithful.decode_encode entry.1) (read_next (Faithful.decode_encode entry.2) rfl)

theorem ofByLabel?_byLabel [Faithful α] (m : SortedMap Label α) :
    ofByLabel? (WorkspacePlan.byLabel m encode) = some m := by
  show ((m.entries.map fun entry => (entry.1.text, encode entry.2)).mapM labeled?).map ofList = _
  rw [Json.mapM_map_eq_some fun entry _ => labeled?_text entry, Option.map_some, ofList_entries]

end SortedMap

/-- Every value that is written is read back as it was: labels and declarations, options, facts,
module maps, actions and the files to write, providers, findings, compilations and whole analyses.
So are the libraries of every plan. Values are the same if they are spelled the same, and sets also
list their members in the same order. -/
theorem WorkspacePlan.reads_back :
    (∀ l : Label, decode (encode l) = some l) ∧
    (∀ t : Library, decode (encode t) = some t) ∧
    (∀ t : ForeignLibrary, decode (encode t) = some t) ∧
    (∀ o : Options, decode (encode o) = some o) ∧
    (∀ f : Facts, decode (encode f) = some f) ∧
    (∀ m : ModuleMap, decode (encode m) = some m) ∧
    (∀ a : Action, decode (encode a) = some a) ∧
    (∀ w : FileWrite, decode (encode w) = some w) ∧
    (∀ s : ProviderSet, decode (encode s) = some s) ∧
    (∀ i : IncludePath, decode (encode i) = some i) ∧
    (∀ d : Diagnostic, decode (encode d) = some d) ∧
    (∀ e : CompileEntry, decode (encode e) = some e) ∧
    (∀ l : AnalyzedLibrary, decode (encode l) = some l) ∧
    ∀ p : WorkspacePlan,
      (p.toJson.field? "libraries").bind SortedMap.ofByLabel? = some p.libraries := by
  refine ⟨?_, ?_, ?_, ?_, ?_, ?_, ?_, ?_, ?_, ?_, ?_, ?_, ?_, fun p => ?_⟩
  iterate 13 exact Faithful.decode_encode
  exact SortedMap.ofByLabel?_byLabel p.libraries

end ObjcPlan
