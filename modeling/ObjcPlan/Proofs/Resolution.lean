import ObjcPlan.Proofs.Analyses

/-! When options come to facts. Validation and resolution read the same versions, but resolution
also wants the number in front of an iOS SDK version to fit in 32 bits
(`Facts.resolve_eq_error_iff`). -/

namespace ObjcPlan

/-! ### Valid versions -/

namespace Version

/-- The number in front of a version. -/
def major (version : String) : Nat :=
  Nat.ofDigitChars 10 ((Text.split '.' version).headD "").toList 0

/-- Whether a text is numbers with dots between them. -/
def IsValid (version : String) : Prop :=
  version ≠ "" ∧ ∀ part ∈ Text.split '.' version, isNumber part = true

theorem fault?_eq_none_iff {version : String} : fault? version = none ↔ IsValid version := by
  unfold fault? IsValid
  split
  · next empty => simp [empty]
  · next named =>
    split
    · next numbers => simpa [named] using numbers
    · next numbers => simpa [named] using numbers

theorem check_eq_ok_iff {field version : String} :
    check field version = .ok () ↔ IsValid version := by
  rw [← fault?_eq_none_iff, check]
  split
  · next fault found => simp [found]
  · next none => simp [none]

theorem isNumber_front {version : String} (valid : IsValid version) :
    isNumber ((Text.split '.' version).headD "") = true := by
  apply valid.2
  cases parts : Text.split '.' version with
  | nil => simp [Text.split, List.splitOn_ne_nil] at parts
  | cons front rest => exact List.mem_cons_self

theorem isValid_defaultSdkVersion (family : Family) : IsValid family.defaultSdkVersion := by
  rw [← fault?_eq_none_iff]
  cases family <;> decide

end Version

/-! ### Valid options -/

theorem forM_eq_ok_iff {ε α : Type} {f : α → Except ε Unit} {l : List α} :
    l.forM f = .ok () ↔ ∀ a ∈ l, f a = .ok () := by
  induction l with
  | nil => simp [List.forM, pure, Except.pure]
  | cons a rest ih =>
    rw [List.forall_mem_cons, ← ih]
    show (f a >>= fun _ => rest.forM f) = .ok () ↔ _
    constructor
    · intro h
      obtain ⟨_, first, later⟩ := exists_of_bind h
      exact ⟨first, later⟩
    · rintro ⟨first, later⟩
      rw [first]
      exact later

namespace Options

variable {o : Options}

/-- What validation ensures. -/
structure IsValid (o : Options) : Prop where
  target : ∃ target, o.target = .ok target
  versions : ∀ field ∈ o.versions, ∀ version, field.2 = some version → Version.IsValid version
  outputBase : o.outputBase ≠ ""

theorem isValid_of_validate (valid : o.validate = .ok ()) : o.IsValid := by
  unfold validate at valid
  obtain ⟨target, isTarget, valid⟩ := exists_of_bind valid
  obtain ⟨_, versions, valid⟩ := exists_of_bind valid
  refine ⟨⟨target, isTarget⟩, ?_, ?_⟩
  · rintro ⟨field, value⟩ mem version rfl
    exact Version.check_eq_ok_iff.mp (forM_eq_ok_iff.mp versions _ mem)
  · intro empty
    rw [if_pos empty] at valid
    cases valid

theorem isValid_sdkVersionFor (valid : o.IsValid) (family : Family) :
    Version.IsValid (o.sdkVersionFor family) := by
  unfold sdkVersionFor
  cases configured : o.sdkVersion.get family with
  | none => exact Version.isValid_defaultSdkVersion family
  | some version =>
    apply valid.versions (sdkVersionField family, o.sdkVersion.get family) _ version configured
    cases family <;> simp [versions, Family.all]

theorem isValid_xcodeVersion (valid : o.IsValid) {version : String}
    (configured : o.xcodeVersion = some version) : Version.IsValid version :=
  valid.versions ("xcode_version", o.xcodeVersion) (by simp [versions]) version configured

/-- Whether the options are for iOS and the number in front of their SDK version takes more than
32 bits. -/
def SdkOverflows (o : Options) : Prop :=
  (∃ arch, o.target = .ok (.ios, arch)) ∧ UInt32.size ≤ Version.major (o.sdkVersionFor .ios)

end Options

/-! ### Resolution -/

namespace Facts

open Options (SdkOverflows)

theorem family_ofArch (family : Family) (arch : String) :
    (Platform.ofArch family arch).family = family := by
  unfold Platform.ofArch
  cases family <;> cases Family.isSimulated _ arch <;> rfl

theorem exists_normalizeXcodeVersion {raw : String} (valid : Version.IsValid raw) :
    ∃ version, normalizeXcodeVersion raw = .ok version := by
  have minor : Version.isNumber ((Text.split '.' raw).tail.headD "0") = true := by
    cases rest : (Text.split '.' raw).tail with
    | nil => decide
    | cons minor more =>
      apply valid.2
      apply List.mem_of_mem_tail
      rw [rest]
      exact List.mem_cons_self
  unfold normalizeXcodeVersion
  rw [if_neg valid.1]
  exact ⟨_, if_pos (Bool.and_eq_true_iff.mpr ⟨Version.isNumber_front valid, minor⟩)⟩

theorem exists_mapM_normalizeXcodeVersion {o : Options} (valid : o.IsValid) :
    ∃ version, o.xcodeVersion.mapM normalizeXcodeVersion = .ok version := by
  cases configured : o.xcodeVersion with
  | none => exact ⟨none, rfl⟩
  | some raw =>
    obtain ⟨version, normalized⟩ :=
      exists_normalizeXcodeVersion (Options.isValid_xcodeVersion valid configured)
    refine ⟨some version, ?_⟩
    show (some <$> normalizeXcodeVersion raw) = _
    rw [normalized]
    rfl

theorem versionMajor?_eq_none_iff {version : String} (valid : Version.IsValid version) :
    versionMajor? version = none ↔ UInt32.size ≤ Version.major version := by
  unfold versionMajor?
  dsimp only
  rw [if_pos (Version.isNumber_front valid)]
  show (if Version.major version < UInt32.size then some (Version.major version) else none) = none ↔
    _
  split
  · next small => simpa using small
  · next large => simpa using large

theorem systemFrameworks_eq_error_iff {o : Options} (valid : o.IsValid) {family : Family}
    {arch : String} (target : o.target = .ok (family, arch)) (sdkRoot : String)
    (e : OptionsError) :
    systemFrameworks (Platform.ofArch family arch) (o.sdkVersionFor family) sdkRoot = .error e ↔
      o.SdkOverflows ∧
        e = .invalidValue "sdk_version" (.malformedVersion (o.sdkVersionFor .ios)) := by
  have overflows : o.SdkOverflows ↔
      family = .ios ∧ UInt32.size ≤ Version.major (o.sdkVersionFor .ios) := by
    rw [SdkOverflows, target]
    simp
  rw [overflows, systemFrameworks, family_ofArch]
  by_cases ios : family = .ios
  · subst ios
    rw [← versionMajor?_eq_none_iff (Options.isValid_sdkVersionFor valid .ios), if_pos rfl]
    cases versionMajor? (o.sdkVersionFor .ios) with
    | none => simp [eq_comm]
    | some major => simp
  · simp [ios]

/-- Resolution of valid options fails where its search for the system's frameworks does. -/
theorem resolve_eq_error_of_valid {o : Options} (valid : o.validate = .ok ()) {family : Family}
    {arch : String} (target : o.target = .ok (family, arch)) (toolchain : Toolchain)
    (e : OptionsError) : resolve o toolchain = .error e ↔
      systemFrameworks (Platform.ofArch family arch) (o.sdkVersionFor family)
        (toolchain.sdkRoot (Platform.ofArch family arch)) = .error e := by
  obtain ⟨version, normalized⟩ :=
    exists_mapM_normalizeXcodeVersion (Options.isValid_of_validate valid)
  unfold resolve
  rw [valid, target, normalized]
  simp only [bind, Except.bind]
  cases systemFrameworks (Platform.ofArch family arch) (o.sdkVersionFor family)
      (toolchain.sdkRoot (Platform.ofArch family arch)) with
  | error e' => simp
  | ok system => simp [pure, Except.pure]

/-- Options are refused for what validation finds, or else for an SDK version that is too large. -/
theorem resolve_eq_error_iff (o : Options) (toolchain : Toolchain) :
    (∀ e, resolve o toolchain = .error e ↔ o.validate = .error e ∨
      o.validate = .ok () ∧ o.SdkOverflows ∧
        e = .invalidValue "sdk_version" (.malformedVersion (o.sdkVersionFor .ios))) ∧
    ((∃ facts, resolve o toolchain = .ok facts) ↔ o.validate = .ok () ∧ ¬o.SdkOverflows) := by
  have refused (e : OptionsError) : resolve o toolchain = .error e ↔ o.validate = .error e ∨
      o.validate = .ok () ∧ o.SdkOverflows ∧
        e = .invalidValue "sdk_version" (.malformedVersion (o.sdkVersionFor .ios)) := by
    cases validated : o.validate with
    | error e' =>
      have failed : resolve o toolchain = .error e' := by
        unfold resolve
        rw [validated]
        rfl
      simp [failed]
    | ok _ =>
      have valid := Options.isValid_of_validate validated
      obtain ⟨⟨family, arch⟩, target⟩ := valid.target
      rw [resolve_eq_error_of_valid validated target, systemFrameworks_eq_error_iff valid target]
      simp
  refine ⟨refused, ?_⟩
  constructor
  · rintro ⟨facts, resolved⟩
    have valid : o.validate = .ok () := by
      obtain ⟨_, valid, _⟩ := exists_of_bind resolved
      exact valid
    refine ⟨valid, fun overflows => ?_⟩
    have failed := (refused _).mpr (.inr ⟨valid, overflows, rfl⟩)
    rw [resolved] at failed
    cases failed
  · rintro ⟨valid, fits⟩
    cases resolved : resolve o toolchain with
    | ok facts => exact ⟨facts, rfl⟩
    | error e =>
      rcases (refused e).mp resolved with refusal | ⟨_, overflows, _⟩
      · rw [valid] at refusal
        cases refusal
      · exact absurd overflows fits

/-- Valid options are refused, since `4294967296` takes 33 bits. -/
theorem resolve_refuses_valid :
    let o : Options := { sdkVersion := ⟨some "4294967296", none, none, none⟩ }
    o.validate = .ok () ∧ resolve o (.xcode Toolchain.defaultRoot) =
      .error (.invalidValue "sdk_version" (.malformedVersion "4294967296")) := by
  refine ⟨by decide, ?_⟩
  decide

end Facts

end ObjcPlan
