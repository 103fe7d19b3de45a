import ObjcPlan.DepFile.Basic

/-! Dependency files as they are written. Reading such a file gives the rules that it was written
for, however they are spaced and continued over lines, if their paths have no white space but spaces
and end with no backslash (`DepFile.parse_render`). -/

namespace ObjcPlan

/-- Whether the path can be read back from a rule: it is not empty, has no white space but spaces,
and does not end with a backslash, which would escape what stands behind it. -/
structure Path.IsWritable (p : Path) : Prop where
  named : p.text ≠ ""
  spaces : ∀ c ∈ p.text.toList, Text.isBlank c = true → c = ' '
  unescaped : p.text.toList.getLast? ≠ some '\\'

instance (p : Path) : Decidable p.IsWritable :=
  decidable_of_iff (p.text ≠ "" ∧ (p.text.toList.all fun c => Text.isBlank c → c = ' ') = true ∧
      p.text.toList.getLast? ≠ some '\\')
    ⟨fun ⟨named, spaces, unescaped⟩ => ⟨named,
        fun c mem => of_decide_eq_true (List.all_eq_true.mp spaces c mem), unescaped⟩,
      fun ⟨named, spaces, unescaped⟩ => ⟨named,
        List.all_eq_true.mpr fun c mem => decide_eq_true (spaces c mem), unescaped⟩⟩

/-- Whether the rule can be read back: its paths can, and the target does not end with a colon,
which would count as part of the separator. -/
structure Rule.IsWritable (r : Rule) : Prop where
  target : r.target.IsWritable
  separable : r.target.text.toList.getLast? ≠ some ':'
  dependencies : ∀ path ∈ r.dependencies, path.IsWritable

instance (r : Rule) : Decidable r.IsWritable :=
  decidable_of_iff (r.target.IsWritable ∧ r.target.text.toList.getLast? ≠ some ':' ∧
      ∀ path ∈ r.dependencies, path.IsWritable)
    ⟨fun ⟨target, separable, dependencies⟩ => ⟨target, separable, dependencies⟩,
      fun ⟨target, separable, dependencies⟩ => ⟨target, separable, dependencies⟩⟩

namespace DepFile

/-! ### How rules are written -/

inductive LineEnd
  | feed
  | returnFeed
  deriving DecidableEq

def LineEnd.chars : LineEnd → List Char
  | feed => ['\n']
  | returnFeed => ['\r', '\n']

inductive Blank
  | space
  | tab
  deriving DecidableEq

def Blank.char : Blank → Char
  | space => ' '
  | tab => '\t'

/-- What a logical line is written with. -/
inductive Item
  | char (c : Char)
  /-- A backslash at the end of a physical line. -/
  | continuation (lineEnd : LineEnd)
  deriving DecidableEq

namespace Item

/-- The item as it stands in a file. -/
def chars : Item → List Char
  | char c => [c]
  | continuation lineEnd => '\\' :: lineEnd.chars

/-- The item as it stands in the logical line. -/
def joined : Item → Char
  | char c => c
  | continuation _ => ' '

end Item

/-- What may stand before a dependency. -/
inductive Gap
  | blank (b : Blank)
  | continuation (lineEnd : LineEnd)
  deriving DecidableEq

def Gap.item : Gap → Item
  | blank b => .char b.char
  | continuation lineEnd => .continuation lineEnd

/-- A path as it stands in a rule, with a backslash before each space. -/
def escape : List Char → List Char
  | [] => []
  | c :: rest => if c = ' ' then '\\' :: ' ' :: escape rest else c :: escape rest

/-- A dependency and what stands before it. -/
structure WrittenDependency where
  gaps : List Gap
  spaced : gaps ≠ []
  path : Path
  deriving DecidableEq

def WrittenDependency.items (d : WrittenDependency) : List Item :=
  d.gaps.map Gap.item ++ (escape d.path.text.toList).map .char

/-- A rule and how it is laid out. -/
structure WrittenRule where
  target : Path
  dependencies : List WrittenDependency
  trailing : List Blank := []
  lineEnd : LineEnd := .feed
  deriving DecidableEq

namespace WrittenRule

def rule (r : WrittenRule) : Rule :=
  ⟨r.target, r.dependencies.map WrittenDependency.path⟩

/-- The logical line of the rule. -/
def items (r : WrittenRule) : List Item :=
  (escape r.target.text.toList).map .char ++ [.char ':'] ++
    r.dependencies.flatMap WrittenDependency.items ++ r.trailing.map fun b => .char b.char

end WrittenRule

/-- A logical line of a file: a rule, or nothing but blanks. -/
inductive WrittenLine
  | rule (written : WrittenRule)
  | blank (blanks : List Blank) (lineEnd : LineEnd)
  deriving DecidableEq

namespace WrittenLine

def items : WrittenLine → List Item
  | rule written => written.items
  | blank blanks _ => blanks.map fun b => .char b.char

def lineEnd : WrittenLine → LineEnd
  | rule written => written.lineEnd
  | blank _ lineEnd => lineEnd

def rule? : WrittenLine → Option Rule
  | rule written => some written.rule
  | blank .. => none

/-- The line as it stands in a file. -/
def chars (line : WrittenLine) : List Char :=
  line.items.flatMap Item.chars ++ line.lineEnd.chars

end WrittenLine

/-- The text of a file with the given lines. -/
def render (written : List WrittenLine) : String :=
  String.ofList (written.flatMap WrittenLine.chars)

/-- The rules that are written on the lines. -/
def rules (written : List WrittenLine) : List Rule :=
  written.filterMap WrittenLine.rule?

/-! ### Logical lines -/

/-- Whether a logical line can be cut out of a file: it has no character of a line end in it and
does not end as a continued line does. -/
structure IsWhole (line : List Char) : Prop where
  flat : ∀ c ∈ line, c ≠ '\n' ∧ c ≠ '\r'
  ended : line.getLast? ≠ some '\\'

theorem lines_append_lineEnd {line : List Char} (flat : ∀ c ∈ line, c ≠ '\n' ∧ c ≠ '\r')
    (lineEnd : LineEnd) (rest : List Char) :
    Text.lines (String.ofList (line ++ (lineEnd.chars ++ rest))) =
      line :: Text.lines (String.ofList rest) := by
  have noFeed : '\n' ∉ line := fun mem => (flat _ mem).1 rfl
  cases lineEnd with
  | feed =>
    have unclosed : line.getLast? ≠ some '\r' := fun last =>
      (flat _ (List.mem_of_getLast? last)).2 rfl
    exact (Text.lines_append_feed noFeed rest).trans
      (congrArg (· :: _) (Text.dropReturn_eq_self unclosed))
  | returnFeed =>
    have noFeed' : '\n' ∉ line ++ ['\r'] := by simpa using noFeed
    have cut := Text.lines_append_feed noFeed' rest
    rw [Text.dropReturn_append, List.append_assoc] at cut
    exact cut

theorem logicalLines_cons_of_ended {line : List Char} (ended : line.getLast? ≠ some '\\')
    (n : Nat) (rest : List (List Char)) : logicalLines n (line :: rest) =
      (⟨n, line⟩ :: (logicalLines (n + 1) rest).1, (logicalLines (n + 1) rest).2) := by
  simp only [logicalLines, if_neg ended]

theorem logicalLines_cons_of_continued {line : List Char} {n : Nat} {rest : List (List Char)}
    {next : LogicalLine} {more : List LogicalLine} {unterminated : Bool}
    (continued : logicalLines (n + 1) rest = (next :: more, unterminated)) :
    logicalLines n ((line ++ ['\\']) :: rest) =
      (⟨n, line ++ ' ' :: next.text⟩ :: more, unterminated) := by
  simp only [logicalLines, continued, List.getLast?_concat, if_true, List.dropLast_concat]

/-- The items of a line, of which the first physical line has begun with `begun`, come to one
logical line. -/
theorem logicalLines_items {items : List Item} {begun : List Char}
    (whole : IsWhole (begun ++ items.map Item.joined)) (lineEnd : LineEnd) (rest : List Char)
    (n : Nat) : ∃ n',
      logicalLines n (Text.lines (String.ofList
          (begun ++ (items.flatMap Item.chars ++ (lineEnd.chars ++ rest))))) =
        (⟨n, begun ++ items.map Item.joined⟩ ::
            (logicalLines n' (Text.lines (String.ofList rest))).1,
          (logicalLines n' (Text.lines (String.ofList rest))).2) := by
  induction items generalizing begun n with
  | nil =>
    rw [List.map_nil, List.append_nil] at whole ⊢
    exact ⟨n + 1, by rw [List.flatMap_nil, List.nil_append, lines_append_lineEnd whole.flat,
      logicalLines_cons_of_ended whole.ended]⟩
  | cons item items ih =>
    cases item with
    | char c =>
      have moved : begun ++ c :: items.map Item.joined = begun ++ [c] ++ items.map Item.joined := by
        simp
      rw [List.map_cons, Item.joined, moved] at whole ⊢
      obtain ⟨n', joined⟩ := ih whole n
      exact ⟨n', by simpa [Item.chars] using joined⟩
    | continuation lineEnd' =>
      -- the physical line ends here, and the next one begins with nothing
      rw [List.map_cons, Item.joined] at whole ⊢
      have ⟨before, behind⟩ := List.forall_mem_append.mp whole.flat
      have flat' : ∀ c ∈ begun ++ ['\\'], c ≠ '\n' ∧ c ≠ '\r' :=
        List.forall_mem_append.mpr ⟨before, by simp⟩
      have whole' : IsWhole ([] ++ items.map Item.joined) := by
        refine ⟨(List.forall_mem_cons.mp behind).2, fun last => whole.ended ?_⟩
        rw [List.nil_append] at last
        rw [List.getLast?_append, List.getLast?_cons, last]
        rfl
      obtain ⟨n', joined⟩ := ih whole' (n + 1)
      refine ⟨n', ?_⟩
      have cut := lines_append_lineEnd flat' lineEnd'
        (items.flatMap Item.chars ++ (lineEnd.chars ++ rest))
      rw [List.append_assoc] at cut
      rw [List.flatMap_cons, Item.chars, List.cons_append, List.cons_append, List.append_assoc]
      exact (congrArg (logicalLines n) cut).trans (logicalLines_cons_of_continued joined)

/-! ### Words -/

theorem words_cons_of_not_isBlank {c : Char} {begun rest : List Char}
    (plain : Text.isBlank c = false) (unescaping : c = '\\' → rest.head? ≠ some ' ') :
    words begun (c :: rest) = words (c :: begun) rest := by
  rw [words, if_neg (by simp [plain])]
  rintro rest' rfl rfl
  exact unescaping rfl rfl

theorem words_cons_of_isBlank {c : Char} {begun rest : List Char} (blank : Text.isBlank c = true) :
    words begun (c :: rest) = finishWord begun ++ words [] rest := by
  rw [words, if_pos blank]
  rintro rest' rfl rfl
  exact absurd blank (by decide)

theorem words_escape {path : List Char} (spaces : ∀ c ∈ path, Text.isBlank c = true → c = ' ')
    (unescaped : path.getLast? ≠ some '\\') (begun rest : List Char) :
    words begun (escape path ++ rest) = words (path.reverse ++ begun) rest := by
  induction path generalizing begun with
  | nil => rfl
  | cons c path ih =>
    have ⟨first, others⟩ := List.forall_mem_cons.mp spaces
    have unescaped' : path.getLast? ≠ some '\\' := by
      intro last
      exact unescaped (by rw [List.getLast?_cons, last]; rfl)
    rw [List.reverse_cons, List.append_assoc, List.singleton_append, ← ih others unescaped']
    by_cases isSpace : c = ' '
    · rw [escape, if_pos isSpace, isSpace, List.cons_append, List.cons_append, words]
    · rw [escape, if_neg isSpace, List.cons_append]
      refine words_cons_of_not_isBlank (by simpa using mt first isSpace) ?_
      rintro rfl
      -- a backslash that is not the last character stands before a character of the path
      cases path with
      | nil => exact absurd rfl unescaped
      | cons c' path =>
        rw [escape]
        split
        · simp
        · next notSpace => simpa using notSpace

theorem words_blanks {blanks : List Char} (blank : ∀ c ∈ blanks, Text.isBlank c = true)
    (nonempty : blanks ≠ []) (begun rest : List Char) :
    words begun (blanks ++ rest) = finishWord begun ++ words [] rest := by
  induction blanks generalizing begun with
  | nil => exact absurd rfl nonempty
  | cons c blanks ih =>
    have ⟨first, others⟩ := List.forall_mem_cons.mp blank
    rw [List.cons_append, words_cons_of_isBlank first]
    by_cases more : blanks = []
    · rw [more, List.nil_append]
    · rw [ih others more]
      rfl

theorem words_of_isBlank {blanks : List Char} (blank : ∀ c ∈ blanks, Text.isBlank c = true)
    (begun : List Char) : words begun blanks = finishWord begun := by
  by_cases none : blanks = []
  · rw [none, words]
  · rw [← List.append_nil blanks, words_blanks blank none, words]
    exact List.append_nil _

theorem Gap.joined_eq (g : Gap) : g.item.joined = ' ' ∨ g.item.joined = '\t' := by
  rcases g with (_ | _) | _
  · exact .inl rfl
  · exact .inr rfl
  · exact .inl rfl

theorem Gap.isBlank_joined (g : Gap) : Text.isBlank g.item.joined = true := by
  rcases g.joined_eq with same | same <;> rw [same] <;> decide

theorem Blank.isBlank_char (b : Blank) : Text.isBlank b.char = true :=
  (Gap.blank b).isBlank_joined

theorem map_joined_char (l : List Char) : (l.map Item.char).map Item.joined = l := by
  simp [Function.comp_def, Item.joined]

theorem WrittenDependency.map_joined_items (d : WrittenDependency) : d.items.map Item.joined =
    d.gaps.map (fun g => g.item.joined) ++ escape d.path.text.toList := by
  rw [items, List.map_append, map_joined_char, List.map_map]
  rfl

theorem WrittenRule.map_joined_items (r : WrittenRule) : r.items.map Item.joined =
    escape r.target.text.toList ++ ':' ::
      (r.dependencies.flatMap (fun d => d.items.map Item.joined) ++
        r.trailing.map Blank.char) := by
  simp [items, List.map_flatMap, Function.comp_def, Item.joined]

theorem words_dependencies {dependencies : List WrittenDependency}
    (writable : ∀ d ∈ dependencies, d.path.IsWritable) {begun : List Char} (nonempty : begun ≠ [])
    (trailing : List Blank) :
    words begun (dependencies.flatMap (fun d => d.items.map Item.joined) ++
        trailing.map Blank.char) =
      begun.reverse :: dependencies.map fun d => d.path.text.toList := by
  induction dependencies generalizing begun with
  | nil =>
    rw [List.flatMap_nil, List.nil_append, words_of_isBlank (by simp [Blank.isBlank_char]),
      finishWord, if_neg nonempty]
    rfl
  | cons d dependencies ih =>
    have ⟨path, others⟩ := List.forall_mem_cons.mp writable
    have named : d.path.text.toList.reverse ++ [] ≠ [] := by simpa using path.named
    rw [List.flatMap_cons, d.map_joined_items, List.append_assoc, List.append_assoc,
      words_blanks (by simp [Gap.isBlank_joined]) (by simpa using d.spaced),
      words_escape path.spaces path.unescaped, ih others named, finishWord, if_neg nonempty]
    simp

/-- The words of a rule are its target with a colon, and its dependencies. -/
theorem words_items {r : WrittenRule} (writable : r.rule.IsWritable) :
    words [] (r.items.map Item.joined) =
      (r.target.text.toList ++ [':']) :: r.dependencies.map fun d => d.path.text.toList := by
  have dependencies : ∀ d ∈ r.dependencies, d.path.IsWritable := fun d mem =>
    writable.dependencies _ (List.mem_map_of_mem mem)
  have target : r.target.IsWritable := writable.target
  rw [r.map_joined_items, words_escape target.spaces target.unescaped,
    words_cons_of_not_isBlank (c := ':') (by decide) (by simp),
    words_dependencies dependencies (List.cons_ne_nil _ _)]
  simp

/-! ### Rules -/

theorem isSeparator_concat {word : List Char} (unescaped : word.getLast? ≠ some '\\') :
    isSeparator (word ++ [':']) = true := by
  rw [← List.head?_reverse] at unescaped
  rw [isSeparator, List.reverse_concat]
  cases reversed : word.reverse with
  | nil => rfl
  | cons c rest =>
    have plain : c ≠ '\\' := by simpa [reversed] using unescaped
    split
    · next escaped => exact absurd (List.cons.inj (List.cons.inj escaped).2).1 plain
    · rfl
    · next neither => exact absurd rfl (neither (c :: rest))

theorem dropWhile_colon {target : List Char} (separable : target.getLast? ≠ some ':') :
    ((target ++ [':']).reverse.dropWhile (· = ':')).reverse = target := by
  rw [← List.head?_reverse] at separable
  rw [List.reverse_concat, List.dropWhile_cons_of_pos (by decide)]
  cases reversed : target.reverse with
  | nil => simpa using reversed
  | cons c rest =>
    have plain : c ≠ ':' := by simpa [reversed] using separable
    rw [List.dropWhile_cons_of_neg (by simpa using plain), ← reversed, List.reverse_reverse]

theorem rule?_of_items {r : WrittenRule} (writable : r.rule.IsWritable) {line : LogicalLine}
    (joined : line.text = r.items.map Item.joined) : line.rule? = .ok (some r.rule) := by
  have target : r.target.IsWritable := writable.target
  have named : r.target.text.toList ≠ [] := by simpa using target.named
  have separated (more : List (List Char)) :
      ((r.target.text.toList ++ [':']) :: more).dropWhile (fun word => !isSeparator word) =
        (r.target.text.toList ++ [':']) :: more :=
    List.dropWhile_cons_of_neg (by simp [isSeparator_concat target.unescaped])
  have whole : ((r.target.text.toList ++ [':']).reverse.dropWhile (· = ':')).reverse =
      r.target.text.toList := dropWhile_colon writable.separable
  simp only [LogicalLine.rule?, joined, words_items writable, separated, whole, if_neg named]
  simp [WrittenRule.rule, Function.comp_def]

theorem rule?_of_blank {line : LogicalLine} (blank : ∀ c ∈ line.text, Text.isBlank c = true) :
    line.rule? = .ok none := by
  rw [LogicalLine.rule?, words_of_isBlank blank]
  rfl

/-! ### Files -/

theorem IsWhole.append {l m : List Char} (whole : IsWhole l) (whole' : IsWhole m) :
    IsWhole (l ++ m) := by
  refine ⟨List.forall_mem_append.mpr ⟨whole.flat, whole'.flat⟩, fun last => ?_⟩
  rw [List.getLast?_append] at last
  rcases Option.or_eq_some_iff.mp last with last | ⟨_, last⟩
  · exact whole'.ended last
  · exact whole.ended last

theorem IsWhole.flatMap {α : Type} {values : List α} {f : α → List Char}
    (whole : ∀ a ∈ values, IsWhole (f a)) : IsWhole (values.flatMap f) := by
  induction values with
  | nil => exact ⟨nofun, nofun⟩
  | cons a rest ih =>
    have ⟨first, others⟩ := List.forall_mem_cons.mp whole
    exact first.append (ih others)

theorem isWhole_gaps (gaps : List Gap) : IsWhole (gaps.map fun g => g.item.joined) := by
  have plain (c : Char) (mem : c ∈ gaps.map fun g => g.item.joined) : c = ' ' ∨ c = '\t' := by
    obtain ⟨g, _, rfl⟩ := List.mem_map.mp mem
    exact g.joined_eq
  constructor
  · intro c mem
    rcases plain c mem with rfl | rfl <;> decide
  · intro last
    rcases plain _ (List.mem_of_getLast? last) with same | same <;> cases same

theorem isWhole_blanks (blanks : List Blank) : IsWhole (blanks.map Blank.char) := by
  have whole := isWhole_gaps (blanks.map .blank)
  rwa [List.map_map] at whole

theorem eq_of_mem_escape {path : List Char} {c : Char} (mem : c ∈ escape path) :
    c = '\\' ∨ c ∈ path := by
  induction path with
  | nil => contradiction
  | cons c' path ih =>
    rw [escape] at mem
    split at mem <;> grind

theorem getLast?_escape (path : List Char) : (escape path).getLast? = path.getLast? := by
  induction path with
  | nil => rfl
  | cons c path ih =>
    rw [escape]
    split
    · next same => simp [List.getLast?_cons, ih, same]
    · simp [List.getLast?_cons, ih]

theorem isWhole_escape {p : Path} (writable : p.IsWritable) :
    IsWhole (escape p.text.toList) := by
  refine ⟨fun c mem => ?_, (getLast?_escape p.text.toList).symm ▸ writable.unescaped⟩
  rcases eq_of_mem_escape mem with rfl | mem
  · decide
  · constructor <;> rintro rfl <;> exact absurd (writable.spaces _ mem) (by decide)

theorem WrittenRule.isWhole {r : WrittenRule} (writable : r.rule.IsWritable) :
    IsWhole (r.items.map Item.joined) := by
  have target : r.target.IsWritable := writable.target
  have dependencies : IsWhole (r.dependencies.flatMap fun d => d.items.map Item.joined) :=
    .flatMap fun d mem => by
      have path : d.path.IsWritable := writable.dependencies _ (List.mem_map_of_mem mem)
      rw [d.map_joined_items]
      exact (isWhole_gaps d.gaps).append (isWhole_escape path)
  have colon : IsWhole [':'] := ⟨by simp, by decide⟩
  rw [r.map_joined_items]
  exact (isWhole_escape target).append
    (colon.append (dependencies.append (isWhole_blanks r.trailing)))

theorem WrittenLine.isWhole {line : WrittenLine} (writable : ∀ r ∈ line.rule?, r.IsWritable) :
    IsWhole (line.items.map Item.joined) := by
  cases line with
  | rule r => exact r.isWhole (writable r.rule rfl)
  | blank blanks lineEnd =>
    rw [items, List.map_map]
    exact isWhole_blanks blanks

theorem rule?_eq {written : WrittenLine} (writable : ∀ r ∈ written.rule?, r.IsWritable)
    {line : LogicalLine} (joined : line.text = written.items.map Item.joined) :
    line.rule? = .ok written.rule? := by
  cases written with
  | rule r => exact rule?_of_items (writable r.rule rfl) joined
  | blank blanks lineEnd =>
    refine rule?_of_blank ?_
    rw [joined, WrittenLine.items, List.map_map]
    simp [Item.joined, Blank.isBlank_char]

theorem exists_logicalLines {written : List WrittenLine}
    (writable : ∀ line ∈ written, ∀ r ∈ line.rule?, r.IsWritable) (n : Nat) : ∃ lines,
      logicalLines n (Text.lines (render written)) = (lines, false) ∧
        lines.map LogicalLine.text = written.map fun line => line.items.map Item.joined := by
  induction written generalizing n with
  | nil =>
    refine ⟨[], ?_, rfl⟩
    rw [render, List.flatMap_nil, String.ofList_nil, Text.lines_empty, logicalLines]
  | cons line written ih =>
    have ⟨first, others⟩ := List.forall_mem_cons.mp writable
    have whole : IsWhole ([] ++ line.items.map Item.joined) := line.isWhole first
    obtain ⟨n', joined⟩ :=
      logicalLines_items whole line.lineEnd (written.flatMap WrittenLine.chars) n
    obtain ⟨lines, rest, texts⟩ := ih others n'
    rw [render] at rest
    refine ⟨⟨n, line.items.map Item.joined⟩ :: lines, ?_, by rw [List.map_cons, texts]; rfl⟩
    rw [render, List.flatMap_cons, WrittenLine.chars, List.append_assoc, ← List.nil_append (_ ++ _),
      joined, rest]
    rfl

theorem mapM_rule?_eq {written : List WrittenLine}
    (writable : ∀ line ∈ written, ∀ r ∈ line.rule?, r.IsWritable) {lines : List LogicalLine}
    (texts : lines.map LogicalLine.text = written.map fun line => line.items.map Item.joined) :
    lines.mapM LogicalLine.rule? = .ok (written.map WrittenLine.rule?) := by
  induction written generalizing lines with
  | nil =>
    obtain rfl := List.map_eq_nil_iff.mp texts
    rfl
  | cons line written ih =>
    have ⟨first, others⟩ := List.forall_mem_cons.mp writable
    obtain ⟨logical, rest, rfl, text, texts⟩ := List.map_eq_cons_iff.mp texts
    rw [List.mapM_cons, rule?_eq first text, ih others texts]
    rfl

/-- A file reads as the rules that it was written for, in their order. -/
theorem parse_render {written : List WrittenLine} (nonempty : rules written ≠ [])
    (writable : ∀ r ∈ rules written, r.IsWritable) :
    parse (render written) = .ok (rules written) := by
  have writable : ∀ line ∈ written, ∀ r ∈ line.rule?, r.IsWritable := fun line mem r isRule =>
    writable r (List.mem_filterMap.mpr ⟨line, mem, isRule⟩)
  obtain ⟨lines, logical, texts⟩ := exists_logicalLines writable 1
  have found : (written.map WrittenLine.rule?).filterMap id = rules written := by
    rw [List.filterMap_map]
    rfl
  simp only [parse, logical, mapM_rule?_eq writable texts, bind, Except.bind, found,
    if_neg nonempty]
  rfl

/-- Two rules, one of them continued and with spaces in its paths. -/
def sample : List WrittenLine := [
  .rule {
    target := "my a.o"
    dependencies := [⟨[.blank .space], by decide, "a.m"⟩,
      ⟨[.continuation .returnFeed, .blank .tab], by decide, "x\\y z.h:"⟩]
    trailing := [.space]
    lineEnd := .returnFeed },
  .blank [.tab] .feed,
  .rule ⟨"b.o", [], [], .feed⟩]

theorem parse_render_sample :
    parse "my\\ a.o: a.m\\\r\n\tx\\y\\ z.h: \r\n\t\nb.o:\n" =
      .ok [⟨"my a.o", ["a.m", "x\\y z.h:"]⟩, ⟨"b.o", []⟩] := by
  have text : render sample = "my\\ a.o: a.m\\\r\n\tx\\y\\ z.h: \r\n\t\nb.o:\n" := by decide
  rw [← text]
  exact parse_render (by decide) (by decide)

end DepFile

end ObjcPlan
