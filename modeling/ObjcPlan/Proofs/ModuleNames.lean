import ObjcPlan.Label
import Mathlib.Data.List.Basic

/-! Module names identify targets. The readable part of a name alone does not, since all odd
characters become `_`, but it shows by its underscores whether a digest follows: a plain label has
at most one, a label with a digest at least two before it (`Label.moduleNames_identify`). -/

namespace ObjcPlan

/-! ### Digests in hexadecimal -/

namespace Text

theorem length_hex (width n : Nat) : (hex width n).length = width := by
  induction width generalizing n with
  | zero => rfl
  | succ width ih => simp [hex, ih]

theorem hexDigit_inj : ∀ m < 16, ∀ n < 16, hexDigit m = hexDigit n → m = n := by decide

theorem isAlphanum_hexDigit : ∀ n < 16, (hexDigit n).isAlphanum = true := by decide

theorem isAlphanum_of_mem_hex {width n : Nat} : ∀ c ∈ hex width n, c.isAlphanum = true := by
  induction width generalizing n with
  | zero => simp [hex]
  | succ width ih =>
    intro c mem
    rw [hex, List.mem_append] at mem
    rcases mem with front | last
    · exact ih c front
    · obtain rfl := List.mem_singleton.mp last
      exact isAlphanum_hexDigit _ (by omega)

/-- Bytes in base sixteen, two digits each. -/
def hexBytes (bytes : List UInt8) : List Char :=
  bytes.flatMap fun byte => hex 2 byte.toNat

theorem length_hexBytes (bytes : List UInt8) : (hexBytes bytes).length = 2 * bytes.length := by
  induction bytes with
  | nil => rfl
  | cons byte rest ih =>
    rw [hexBytes, List.flatMap_cons, List.length_append, length_hex]
    change 2 + (hexBytes rest).length = _
    rw [ih, List.length_cons]
    omega

theorem hex_two_inj {b b' : UInt8} (h : hex 2 b.toNat = hex 2 b'.toNat) : b = b' := by
  have high := b.toNat_lt
  have high' := b'.toNat_lt
  simp only [hex, List.nil_append, List.cons_append, List.cons.injEq, and_true] at h
  have first := hexDigit_inj _ (by omega) _ (by omega) h.1
  have second := hexDigit_inj _ (by omega) _ (by omega) h.2
  apply UInt8.toNat_inj.mp
  omega

theorem hexBytes_inj {bytes bytes' : List UInt8} (h : hexBytes bytes = hexBytes bytes') :
    bytes = bytes' := by
  induction bytes generalizing bytes' with
  | nil =>
    have size := congrArg List.length h
    rw [length_hexBytes, length_hexBytes] at size
    rw [List.length_nil] at size
    exact (List.eq_nil_of_length_eq_zero (by omega)).symm
  | cons byte rest ih =>
    cases bytes' with
    | nil =>
      have size := congrArg List.length h
      rw [length_hexBytes, length_hexBytes] at size
      simp at size
    | cons byte' rest' =>
      have size : (hex 2 byte.toNat).length = (hex 2 byte'.toNat).length := by
        rw [length_hex, length_hex]
      obtain ⟨first, later⟩ := List.append_inj h size
      rw [hex_two_inj first, ih later]

/-- Two digits of a number are its lowest byte. -/
theorem hex_two_mul (width n : Nat) : hex (2 * width) n = hexBytes (Sha256.bytesOf width n) := by
  induction width generalizing n with
  | zero => rfl
  | succ width ih =>
    have byte : (UInt8.ofNat n).toNat = n % 256 := by simp
    have front : n / 16 / 16 = n / 256 := by omega
    have high : n % 256 / 16 % 16 = n / 16 % 16 := by omega
    have low : n % 256 % 16 = n % 16 := by omega
    calc hex (2 * (width + 1)) n
        = hex (2 * width) (n / 16 / 16) ++ [hexDigit (n / 16 % 16)] ++ [hexDigit (n % 16)] := rfl
      _ = hexBytes (Sha256.bytesOf width (n / 256)) ++ hex 2 (UInt8.ofNat n).toNat := by
        rw [ih, front, byte]
        simp only [hex, high, low, List.nil_append, List.append_assoc]
      _ = hexBytes (Sha256.bytesOf (width + 1) n) := by
        simp [hexBytes, Sha256.bytesOf]

theorem take_hexBytes (count : Nat) (bytes : List UInt8) :
    (hexBytes bytes).take (2 * count) = hexBytes (bytes.take count) := by
  induction bytes generalizing count with
  | nil => simp [hexBytes]
  | cons byte rest ih =>
    cases count with
    | zero => rfl
    | succ count =>
      have size : (hex 2 byte.toNat).length = 2 := length_hex 2 _
      have whole : hexBytes (byte :: rest) = hex 2 byte.toNat ++ hexBytes rest := rfl
      rw [whole, List.take_append, size, List.take_of_length_le (by omega)]
      rw [show 2 * (count + 1) - 2 = 2 * count by omega, ih]
      rfl

end Text

namespace Sha256

/-- The digest of a text's UTF-8 bytes, as bytes. -/
def digestBytes (text : String) : List UInt8 :=
  (digest text.toUTF8.toList).flatMap fun word => bytesOf 4 word.toNat

theorem toList_hexDigest (text : String) :
    (hexDigest text).toList = Text.hexBytes (digestBytes text) := by
  rw [hexDigest, String.toList_ofList, digestBytes, Text.hexBytes, List.flatMap_assoc]
  exact List.flatMap_congr fun word _ => Text.hex_two_mul 4 word.toNat

end Sha256

/-! ### Names -/

namespace Label

variable {a b l : Label} {c : Char}

/-- The first eight bytes of the digest of the label's text. -/
def digestFront (l : Label) : List UInt8 :=
  (Sha256.digestBytes l.text).take 8

/-- Whether the module name carries a digest: something in the label is no letter or digit. -/
def HasDigest (l : Label) : Prop :=
  ∃ c ∈ l.package.toList ++ l.name.toList, isPlain c = false

/-- Package and name, joined as in a module name. -/
def joined (l : Label) : List Char :=
  if l.package = "" then l.name.toList else l.package.toList ++ '_' :: l.name.toList

/-- The part of the module name that comes from the characters of the label. -/
def readable (l : Label) : List Char :=
  l.joined.map fun c => if isPlain c then c else '_'

theorem isPlain_underscore : isPlain '_' = false := by decide

theorem joined_cases (l : Label) : l.package = "" ∧ l.joined = l.name.toList ∨
    l.package ≠ "" ∧ l.joined = l.package.toList ++ '_' :: l.name.toList := by
  unfold joined
  split
  · next root => exact .inl ⟨root, rfl⟩
  · next named => exact .inr ⟨named, rfl⟩

theorem moduleName_eq (l : Label) : l.moduleName.toList =
    if l.package.toList.all isPlain && l.name.toList.all isPlain then l.readable
    else l.readable ++ '_' :: Text.hexBytes l.digestFront := by
  have chars : (if l.package = "" then l.name else l.package ++ "_" ++ l.name).toList =
      l.joined := by
    unfold joined
    split <;> simp
  have front : ((Sha256.hexDigest l.text).toList.take digestLength) =
      Text.hexBytes l.digestFront := by
    rw [Sha256.toList_hexDigest]
    exact Text.take_hexBytes 8 _
  unfold moduleName
  dsimp only
  rw [chars, front]
  split
  · rw [String.toList_ofList]
    rfl
  · simp [readable]

theorem moduleName_of_plain (plain : ¬l.HasDigest) : l.moduleName.toList = l.joined := by
  have all : ∀ c ∈ l.package.toList ++ l.name.toList, isPlain c = true := by
    intro c mem
    by_contra odd
    exact plain ⟨c, mem, by simpa using odd⟩
  have package := fun c mem => all c (List.mem_append_left _ mem)
  have name := fun c mem => all c (List.mem_append_right _ mem)
  rw [moduleName_eq, if_pos (by simpa using ⟨package, name⟩)]
  -- nothing is replaced but the underscore, by itself
  have same : ∀ c ∈ l.joined, (if isPlain c then c else '_') = c := by
    intro c mem
    split
    · rfl
    · next odd =>
      rcases l.joined_cases with ⟨_, chars⟩ | ⟨_, chars⟩
      · rw [chars] at mem
        exact absurd (name c mem) odd
      · rw [chars, List.mem_append, List.mem_cons] at mem
        rcases mem with inPackage | underscore | inName
        · exact absurd (package c inPackage) odd
        · exact underscore.symm
        · exact absurd (name c inName) odd
  calc l.readable = l.joined.map id := List.map_congr_left same
    _ = l.joined := List.map_id _

theorem moduleName_of_hasDigest (odd : l.HasDigest) :
    l.moduleName.toList = l.readable ++ '_' :: Text.hexBytes l.digestFront := by
  obtain ⟨c, mem, odd⟩ := odd
  rw [moduleName_eq, if_neg]
  intro plain
  simp only [Bool.and_eq_true, List.all_eq_true] at plain
  rcases List.mem_append.mp mem with inPackage | inName
  · simp [plain.1 c inPackage] at odd
  · simp [plain.2 c inName] at odd

theorem underscore_notMem_of_plain (plain : ¬l.HasDigest) :
    '_' ∉ l.package.toList ∧ '_' ∉ l.name.toList := by
  rw [← not_or, ← List.mem_append]
  exact fun mem => plain ⟨'_', mem, isPlain_underscore⟩

/-- A plain label has an underscore only between package and name. -/
theorem count_underscore_of_plain (plain : ¬l.HasDigest) :
    l.moduleName.toList.count '_' ≤ 1 := by
  have ⟨package, name⟩ := underscore_notMem_of_plain plain
  rw [moduleName_of_plain plain]
  rcases l.joined_cases with ⟨_, chars⟩ | ⟨_, chars⟩
  · rw [chars, List.count_eq_zero_of_not_mem name]
    omega
  · have one : (l.package.toList ++ '_' :: l.name.toList).count '_' = 1 := by
      rw [List.count_append, List.count_cons_self, List.count_eq_zero_of_not_mem package,
        List.count_eq_zero_of_not_mem name]
    rw [chars]
    omega

/-- An odd character of the label is an underscore of its own. -/
theorem underscore_mem_readable (odd : l.HasDigest) : '_' ∈ l.readable := by
  obtain ⟨c, mem, odd⟩ := odd
  have among : c ∈ l.joined := by
    rcases l.joined_cases with ⟨root, chars⟩ | ⟨_, chars⟩
    · simpa [chars, root] using mem
    · rw [chars]
      rcases List.mem_append.mp mem with inPackage | inName
      · exact List.mem_append_left _ inPackage
      · exact List.mem_append_right _ (List.mem_cons_of_mem _ inName)
  exact List.mem_map.mpr ⟨c, among, by simp [odd]⟩

theorem count_underscore_of_hasDigest (odd : l.HasDigest) :
    2 ≤ l.moduleName.toList.count '_' := by
  have first := List.count_pos_iff.mpr (underscore_mem_readable odd)
  rw [moduleName_of_hasDigest odd, List.count_append, List.count_cons_self]
  omega

theorem moduleName_ne_of_hasDigest (odd : a.HasDigest) (plain : ¬b.HasDigest) :
    a.moduleName ≠ b.moduleName := by
  intro same
  have few := count_underscore_of_plain plain
  have many := count_underscore_of_hasDigest odd
  rw [same] at many
  omega

/-- Package and name of a plain label are read off around its only underscore. -/
theorem joined_inj_of_plain (plain : ¬a.HasDigest) (plain' : ¬b.HasDigest)
    (same : a.joined = b.joined) : a = b := by
  have ⟨_, name⟩ := underscore_notMem_of_plain plain
  have ⟨package', name'⟩ := underscore_notMem_of_plain plain'
  rcases a.joined_cases with ⟨root, chars⟩ | ⟨_, chars⟩ <;>
    rcases b.joined_cases with ⟨root', chars'⟩ | ⟨_, chars'⟩ <;> rw [chars, chars'] at same
  · exact Label.ext (root.trans root'.symm) (String.toList_inj.mp same)
  · exact absurd (same ▸ List.mem_append_right _ List.mem_cons_self) name
  · exact absurd (same ▸ List.mem_append_right _ List.mem_cons_self) name'
  · obtain ⟨packages, -, names⟩ := (List.append_cons_inj_of_notMem package' name').mp same.symm
    exact Label.ext (String.toList_inj.mp packages.symm) (String.toList_inj.mp names.symm)

theorem length_digestFront (l : Label) : l.digestFront.length = 8 := by
  have size : (Sha256.digestBytes l.text).length = 32 := rfl
  rw [digestFront, List.length_take, size]
  rfl

theorem digestFront_eq_of_moduleName (odd : a.HasDigest) (odd' : b.HasDigest)
    (same : a.moduleName = b.moduleName) : a.digestFront = b.digestFront := by
  have chars := congrArg String.toList same
  rw [moduleName_of_hasDigest odd, moduleName_of_hasDigest odd'] at chars
  have size : ('_' :: Text.hexBytes a.digestFront).length =
      ('_' :: Text.hexBytes b.digestFront).length := by
    simp only [List.length_cons, Text.length_hexBytes, length_digestFront]
  obtain ⟨-, behind⟩ := List.append_inj' chars size
  exact Text.hexBytes_inj (List.cons.inj behind).2

theorem isIdentifier_moduleName (l : Label) :
    ∀ c ∈ l.moduleName.toList, c.isAlphanum = true ∨ c = '_' := by
  have readable : ∀ c ∈ l.readable, c.isAlphanum = true ∨ c = '_' := by
    intro c mem
    obtain ⟨d, _, rfl⟩ := List.mem_map.mp mem
    split
    · next plain => exact .inl plain
    · exact .inr rfl
  intro c mem
  rw [moduleName_eq] at mem
  split at mem
  · exact readable c mem
  · rcases List.mem_append.mp mem with front | behind
    · exact readable c front
    · rcases List.mem_cons.mp behind with underscore | digit
      · exact .inr underscore
      · obtain ⟨byte, _, isDigit⟩ := List.mem_flatMap.mp digit
        exact .inl (Text.isAlphanum_of_mem_hex c isDigit)

theorem moduleName_ne_empty (l : Label) : l.moduleName ≠ "" := by
  intro empty
  have chars := l.moduleName_eq
  have named : l.readable ≠ [] := by
    rcases l.joined_cases with ⟨_, joined⟩ | ⟨_, joined⟩ <;>
      simp [Label.readable, joined, l.name_ne_empty]
  rw [empty] at chars
  split at chars
  · exact named chars.symm
  · simp at chars

/-- Module names tell labels apart, if the digests that stand in them do; and they are
identifiers. -/
theorem moduleNames_identify :
    (∀ a b : Label, a ≠ b → (a.HasDigest → b.HasDigest → a.digestFront ≠ b.digestFront) →
      a.moduleName ≠ b.moduleName) ∧
    (∀ a b : Label, a.HasDigest → ¬b.HasDigest → a.moduleName ≠ b.moduleName) ∧
    (∀ l : Label, l.HasDigest →
      l.moduleName.toList = l.readable ++ '_' :: Text.hexBytes l.digestFront) ∧
    ∀ l : Label, l.moduleName ≠ "" ∧
      ∀ c ∈ l.moduleName.toList, c.isAlphanum = true ∨ c = '_' := by
  refine ⟨fun a b different apart same => ?_, fun a b => moduleName_ne_of_hasDigest,
    fun l => moduleName_of_hasDigest, fun l => ⟨l.moduleName_ne_empty, l.isIdentifier_moduleName⟩⟩
  by_cases odd : a.HasDigest <;> by_cases odd' : b.HasDigest
  · exact apart odd odd' (digestFront_eq_of_moduleName odd odd' same)
  · exact moduleName_ne_of_hasDigest odd odd' same
  · exact moduleName_ne_of_hasDigest odd' odd same.symm
  · apply different
    apply joined_inj_of_plain odd odd'
    rw [← moduleName_of_plain odd, ← moduleName_of_plain odd', same]

namespace Lookalikes

def nested : Label := ⟨"lib/io", "pipe", by decide, by decide⟩

def flat : Label := ⟨"lib", "io_pipe", by decide, by decide⟩

def plain : Label := ⟨"lib", "iopipe", by decide, by decide⟩

theorem nested_hasDigest : nested.HasDigest := ⟨'/', by decide, by decide⟩

theorem plain_not_hasDigest : ¬plain.HasDigest := by
  rintro ⟨c, mem, odd⟩
  have all : (plain.package.toList ++ plain.name.toList).all isPlain = true := by decide
  simp [List.all_eq_true.mp all c mem] at odd

end Lookalikes

/-- `//lib/io:pipe` and `//lib:io_pipe` read alike and are told apart by their digests;
`//lib:iopipe` has none. -/
theorem moduleNames_identify_lookalikes :
    Lookalikes.nested.readable = Lookalikes.flat.readable ∧
    Lookalikes.nested.digestFront ≠ Lookalikes.flat.digestFront ∧
    Lookalikes.nested.moduleName ≠ Lookalikes.flat.moduleName ∧
    Lookalikes.nested.moduleName ≠ Lookalikes.plain.moduleName ∧
    Lookalikes.plain.moduleName ≠ Lookalikes.flat.moduleName := by
  have apart : Lookalikes.nested.digestFront ≠ Lookalikes.flat.digestFront := by decide +kernel
  obtain ⟨different, marked, -, -⟩ := moduleNames_identify
  refine ⟨by decide, apart, ?_, ?_, ?_⟩
  · exact different _ _ (by decide) fun _ _ => apart
  · exact marked _ _ Lookalikes.nested_hasDigest Lookalikes.plain_not_hasDigest
  · exact different _ _ (by decide) fun odd => absurd odd Lookalikes.plain_not_hasDigest

end Label

end ObjcPlan
