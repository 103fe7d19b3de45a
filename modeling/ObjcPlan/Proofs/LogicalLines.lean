import Mathlib.Data.List.DropRight
import Mathlib.Data.List.Forall2
import ObjcPlan.Proofs.WrittenRules

/-! What a dependency file is read as, and which fault it is refused for. Its physical lines fall
into groups, each up to the first line that ends with no backslash (`DepFile.Layout`). A file is
read as the rules of the groups that have a word, in order, or refused for the first group that is
no rule, with the number of its first line. No other outcome is possible, and no group is passed
over (`DepFile.parse_says`). -/

namespace ObjcPlan.DepFile

/-- Whether a physical line goes on in the next one. -/
def IsContinued (line : List Char) : Prop :=
  line.getLast? = some '\\'

instance : DecidablePred IsContinued :=
  fun line => inferInstanceAs (Decidable (line.getLast? = some '\\'))

/-- Whether a word ends with a colon that no backslash stands before. -/
def IsMarked (word : List Char) : Prop :=
  ∃ front, word = front ++ [':'] ∧ front.getLast? ≠ some '\\'

/-- The characters of the words of a text, with a gap for each blank. A space behind a backslash is
no blank, and the backslash is dropped. -/
def symbols : List Char → List (Option Char)
  | [] => []
  | '\\' :: ' ' :: rest => some ' ' :: symbols rest
  | c :: rest => (if Text.isBlank c then none else some c) :: symbols rest

/-- The words between the gaps, where there is anything between them. -/
def wordsBetween (symbols : List (Option Char)) : List (List Char) :=
  ((symbols.splitOn none).filter (· ≠ [])).map (·.filterMap id)

/-- The physical lines of one logical line: continued ones and the one that ends it. -/
structure LineGroup where
  continued : List (List Char)
  last : List Char
  continues : ∀ line ∈ continued, IsContinued line
  ends : ¬ IsContinued last

namespace LineGroup

def lines (g : LineGroup) : List (List Char) :=
  g.continued ++ [g.last]

/-- The logical line, with a blank in place of each backslash and line end. -/
def text (g : LineGroup) : List Char :=
  g.continued.flatMap (fun line => line.dropLast ++ [' ']) ++ g.last

def words (g : LineGroup) : List (List Char) :=
  wordsBetween (symbols g.text)

/-- Whether there is anything but white space. -/
def HasWord (g : LineGroup) : Prop :=
  ∃ c ∈ g.text, Text.isBlank c = false

instance : DecidablePred HasWord :=
  fun g => inferInstanceAs (Decidable (∃ c ∈ g.text, Text.isBlank c = false))

/-- Whether `marked` is the first marked word, and `behind` are the words after it. -/
def Cuts (g : LineGroup) (marked : List Char) (behind : List (List Char)) : Prop :=
  ∃ before, g.words = before ++ marked :: behind ∧ (∀ word ∈ before, ¬ IsMarked word) ∧
    IsMarked marked

/-- Whether the group is the rule: the first marked word without the colons at its end, and the
words behind it. -/
def Makes (g : LineGroup) (rule : Rule) : Prop :=
  ∃ target colons behind, g.Cuts (target ++ List.replicate colons ':') behind ∧
    target ≠ [] ∧ target.getLast? ≠ some ':' ∧
    rule = ⟨⟨String.ofList target⟩, behind.map fun word => ⟨String.ofList word⟩⟩

def LacksSeparator (g : LineGroup) : Prop :=
  g.HasWord ∧ ∀ word ∈ g.words, ¬ IsMarked word

def LacksTarget (g : LineGroup) : Prop :=
  ∃ marked behind, g.Cuts marked behind ∧ ∀ c ∈ marked, c = ':'

/-- Whether the group, if it has a word, has a marked one, and the first of these has something in
front of its colons. -/
def IsWellFormed (g : LineGroup) : Prop :=
  g.HasWord → ∃ marked behind, g.Cuts marked behind ∧ ∃ c ∈ marked, c ≠ ':'

end LineGroup

/-- The groups that physical lines fall into, and the lines at the end whose continuation is
missing. -/
structure Layout (lines : List (List Char)) where
  groups : List LineGroup
  loose : List (List Char)
  continues : ∀ line ∈ loose, IsContinued line
  whole : groups.flatMap LineGroup.lines ++ loose = lines

namespace Layout

variable {lines : List (List Char)}

/-- Whether the first group that is not well-formed is of the given kind, and its first line has
the given number. -/
def FirstBad (l : Layout lines) (kind : LineGroup → Prop) (number : Nat) : Prop :=
  ∃ before g after, l.groups = before ++ g :: after ∧ (∀ earlier ∈ before, earlier.IsWellFormed) ∧
    kind g ∧ number = (before.flatMap LineGroup.lines).length + 1

/-- What a file with the lines is read as. -/
def Says (l : Layout lines) : Except Fault (List Rule) → Prop
  | .ok rules =>
    l.loose = [] ∧ rules ≠ [] ∧
      List.Forall₂ LineGroup.Makes (l.groups.filter fun g => g.HasWord) rules
  | .error (.noSeparator number) => l.FirstBad LineGroup.LacksSeparator number
  | .error (.noTarget number) => l.FirstBad LineGroup.LacksTarget number
  | .error .unterminated => l.loose ≠ [] ∧ ∀ g ∈ l.groups, g.IsWellFormed
  | .error .empty => l.loose = [] ∧ ∀ g ∈ l.groups, ¬ g.HasWord

end Layout

/-! ### Words -/

theorem isSeparator_iff {word : List Char} : isSeparator word = true ↔ IsMarked word := by
  constructor
  · intro separates
    unfold isSeparator at separates
    split at separates
    · contradiction
    · next front plain reversed =>
      refine ⟨front.reverse, by simpa using congrArg List.reverse reversed, ?_⟩
      rw [List.getLast?_reverse]
      intro escaped
      obtain ⟨rest, rfl⟩ := List.head?_eq_some_iff.mp escaped
      exact plain rest rfl
    · contradiction
  · rintro ⟨front, rfl, unescaped⟩
    exact isSeparator_concat unescaped

theorem finishWord_ne_nil {begun : List Char} (nonempty : begun ≠ []) : finishWord begun ≠ [] := by
  rw [finishWord, if_neg nonempty]
  exact List.cons_ne_nil _ _

theorem words_ne_nil {begun l : List Char}
    (some : begun ≠ [] ∨ ∃ c ∈ l, Text.isBlank c = false) : words begun l ≠ [] := by
  fun_induction words begun l with
  | case1 begun => exact finishWord_ne_nil (some.resolve_right (by simp))
  | case2 begun rest ih => exact ih (.inl (List.cons_ne_nil _ _))
  | case3 begun c rest _ blank ih =>
    rcases some with nonempty | ⟨c', mem, plain⟩
    · exact List.append_ne_nil_of_left_ne_nil (finishWord_ne_nil nonempty) _
    · rcases List.mem_cons.mp mem with rfl | mem
      · simp [blank] at plain
      · exact List.append_ne_nil_of_right_ne_nil _ (ih (.inr ⟨c', mem, plain⟩))
  | case4 begun c rest _ plain ih => exact ih (.inl (List.cons_ne_nil _ _))

theorem wordsBetween_map_some (word : List Char) :
    wordsBetween (word.map some) = if word = [] then [] else [word] := by
  have whole : (none : Option Char) ∉ word.map some := by simp
  rw [wordsBetween, List.splitOn_eq_singleton whole]
  by_cases empty : word = [] <;> simp [empty]

theorem wordsBetween_append_none (word : List Char) (rest : List (Option Char)) :
    wordsBetween (word.map some ++ none :: rest) =
      wordsBetween (word.map some) ++ wordsBetween rest := by
  have whole : (none : Option Char) ∉ word.map some := by simp
  have cut : (word.map some ++ none :: rest).splitOn none = word.map some :: rest.splitOn none := by
    rw [List.splitOn_eq_splitOnP, List.splitOnP_append_cons (p := (· == none)) _ _ rfl,
      ← List.splitOn_eq_splitOnP, ← List.splitOn_eq_splitOnP, List.splitOn_eq_singleton whole]
    rfl
  rw [wordsBetween, cut, ← List.singleton_append, List.filter_append, List.map_append,
    ← List.splitOn_eq_singleton whole]
  rfl

/-- The words that are read, of which the first has begun, are those between the blanks. -/
theorem words_eq (begun l : List Char) :
    words begun l = wordsBetween (begun.reverse.map some ++ symbols l) := by
  fun_induction words begun l with
  | case1 begun =>
    rw [symbols, List.append_nil, wordsBetween_map_some, finishWord]
    simp
  | case2 begun rest ih =>
    rw [ih, symbols]
    simp
  | case3 begun c rest apart blank ih =>
    have here : symbols (c :: rest) = none :: symbols rest := by
      rw [symbols, if_pos blank]
      exact apart
    rw [ih, here, wordsBetween_append_none, wordsBetween_map_some, finishWord]
    simp
  | case4 begun c rest apart plain ih =>
    have here : symbols (c :: rest) = some c :: symbols rest := by
      rw [symbols, if_neg plain]
      exact apart
    rw [ih, here]
    simp

/-- A word without the colons at its end, as reading a rule leaves it. -/
theorem rdropWhile_colons {target : List Char} (bare : target.getLast? ≠ some ':') (colons : Nat) :
    (target ++ List.replicate colons ':').rdropWhile (· = ':') = target := by
  induction colons with
  | zero =>
    rw [List.replicate_zero, List.append_nil, List.rdropWhile_eq_self_iff]
    intro nonempty colon
    exact bare (by rw [List.getLast?_eq_some_getLast nonempty, of_decide_eq_true colon])
  | succ colons ih =>
    rw [List.replicate_succ', ← List.append_assoc, List.rdropWhile_concat_pos _ _ _ (by decide), ih]

theorem exists_colons (word : List Char) : ∃ colons,
    word = word.rdropWhile (· = ':') ++ List.replicate colons ':' := by
  induction word using List.reverseRecOn with
  | nil => exact ⟨0, rfl⟩
  | append_singleton front c ih =>
    by_cases isColon : c = ':'
    · obtain ⟨colons, whole⟩ := ih
      refine ⟨colons + 1, ?_⟩
      rw [List.rdropWhile_concat_pos _ _ _ (by simpa using isColon), List.replicate_succ',
        ← List.append_assoc, ← whole, isColon]
    · exact ⟨0, by rw [List.rdropWhile_concat_neg _ _ _ (by simpa using isColon)]; simp⟩

namespace LineGroup

variable {g : LineGroup} {marked : List Char} {behind : List (List Char)} {rule : Rule}

theorem words_text (g : LineGroup) : DepFile.words [] g.text = g.words :=
  words_eq [] g.text

theorem hasWord_iff : g.HasWord ↔ g.words ≠ [] := by
  rw [← words_text]
  constructor
  · exact fun some => words_ne_nil (.inr some)
  · intro nonempty
    by_contra none
    refine nonempty (words_of_isBlank (fun c mem => ?_) [])
    by_contra plain
    exact none ⟨c, mem, by simpa using plain⟩

theorem cuts_iff :
    g.Cuts marked behind ↔ g.words.dropWhile (!isSeparator ·) = marked :: behind := by
  constructor
  · rintro ⟨before, whole, unmarked, isMarked⟩
    have passed : ∀ word ∈ before, (!isSeparator word) = true := fun word mem => by
      simpa using mt isSeparator_iff.mp (unmarked word mem)
    rw [whole, List.dropWhile_append_of_pos passed,
      List.dropWhile_cons_of_neg (by simp [isSeparator_iff.mpr isMarked])]
  · intro cut
    have whole := List.takeWhile_append_dropWhile (p := (!isSeparator ·)) (l := g.words)
    have stops := List.head?_dropWhile_not (!isSeparator ·) g.words
    rw [cut] at whole stops
    refine ⟨_, whole.symm, fun word mem => ?_, isSeparator_iff.mp (by simpa using stops)⟩
    exact mt isSeparator_iff.mpr (by simpa using List.mem_takeWhile_imp mem)

theorem dropWhile_eq_nil_iff :
    g.words.dropWhile (!isSeparator ·) = [] ↔ ∀ word ∈ g.words, ¬ IsMarked word := by
  simp [List.dropWhile_eq_nil_iff, ← isSeparator_iff]

/-- A group has no word, is a rule, or lacks its separator or target. -/
theorem cases (g : LineGroup) :
    ¬ g.HasWord ∨ (∃ rule, g.Makes rule) ∨ g.LacksSeparator ∨ g.LacksTarget := by
  by_cases some : g.HasWord
  · right
    cases cut : g.words.dropWhile (!isSeparator ·) with
    | nil => exact .inr (.inl ⟨some, dropWhile_eq_nil_iff.mp cut⟩)
    | cons marked behind =>
      have cuts := cuts_iff.mpr cut
      obtain ⟨colons, whole⟩ := exists_colons marked
      by_cases none : marked.rdropWhile (· = ':') = []
      · refine .inr (.inr ⟨marked, behind, cuts, ?_⟩)
        rw [none, List.nil_append] at whole
        rw [whole]
        exact fun c => List.eq_of_mem_replicate
      · rw [whole] at cuts
        refine .inl ⟨_, _, colons, behind, cuts, none, fun last => ?_, rfl⟩
        have stops := List.rdropWhile_last_not _ _ none
        rw [List.getLast?_eq_some_getLast none, Option.some_inj] at last
        simp [last] at stops
  · exact .inl some

/-- What is found in a group that can be read. -/
def Yields (g : LineGroup) : Option Rule → Prop
  | none => ¬ g.HasWord
  | some rule => g.Makes rule

/-- What is wrong with a group that cannot be read, if its first line has the number. -/
def Fails (g : LineGroup) (number : Nat) : Fault → Prop
  | .noSeparator n => g.LacksSeparator ∧ n = number
  | .noTarget n => g.LacksTarget ∧ n = number
  | _ => False

/-! Each kind of group is read in one way only. -/

variable (number : Nat)

theorem rule?_of_not_hasWord (wordless : ¬ g.HasWord) :
    LogicalLine.rule? ⟨number, g.text⟩ = .ok none := by
  refine rule?_of_blank fun c mem => ?_
  by_contra plain
  exact wordless ⟨c, mem, by simpa using plain⟩

theorem rule?_of_lacksSeparator (lacks : g.LacksSeparator) :
    LogicalLine.rule? ⟨number, g.text⟩ = .error (.noSeparator number) := by
  obtain ⟨some, unmarked⟩ := lacks
  obtain ⟨first, others, words⟩ := List.exists_cons_of_ne_nil (hasWord_iff.mp some)
  have cut := dropWhile_eq_nil_iff.mpr unmarked
  rw [words] at cut
  simp only [LogicalLine.rule?, words_text, words, cut]

theorem rule?_of_cuts (cuts : g.Cuts marked behind) :
    LogicalLine.rule? ⟨number, g.text⟩ =
      if marked.rdropWhile (· = ':') = [] then .error (.noTarget number)
      else .ok (some ⟨⟨String.ofList (marked.rdropWhile (· = ':'))⟩,
        behind.map fun word => ⟨String.ofList word⟩⟩) := by
  have cut := cuts_iff.mp cuts
  obtain ⟨first, others, words⟩ : ∃ first others, g.words = first :: others := by
    refine List.exists_cons_of_ne_nil fun none => ?_
    simp [none] at cut
  rw [words] at cut
  simp only [LogicalLine.rule?, words_text, words, cut]
  rfl

theorem rule?_of_lacksTarget (lacks : g.LacksTarget) :
    LogicalLine.rule? ⟨number, g.text⟩ = .error (.noTarget number) := by
  obtain ⟨marked, behind, cuts, colons⟩ := lacks
  rw [rule?_of_cuts number cuts, if_pos]
  exact List.rdropWhile_eq_nil_iff.mpr fun c mem => by simpa using colons c mem

theorem rule?_of_makes (makes : g.Makes rule) :
    LogicalLine.rule? ⟨number, g.text⟩ = .ok (some rule) := by
  obtain ⟨target, colons, behind, cuts, named, bare, rfl⟩ := makes
  rw [rule?_of_cuts number cuts, rdropWhile_colons bare, if_neg named]

theorem rule?_eq_ok_iff {found : Option Rule} :
    LogicalLine.rule? ⟨number, g.text⟩ = .ok found ↔ g.Yields found := by
  constructor
  · intro read
    rcases g.cases with wordless | ⟨rule, makes⟩ | lacks | lacks
    · obtain rfl := Except.ok.inj (read.symm.trans (rule?_of_not_hasWord number wordless))
      exact wordless
    · obtain rfl := Except.ok.inj (read.symm.trans (rule?_of_makes number makes))
      exact makes
    · cases read.symm.trans (rule?_of_lacksSeparator number lacks)
    · cases read.symm.trans (rule?_of_lacksTarget number lacks)
  · intro yields
    match found, yields with
    | none, wordless => exact rule?_of_not_hasWord number wordless
    | some _, makes => exact rule?_of_makes number makes

theorem rule?_eq_error_iff {fault : Fault} :
    LogicalLine.rule? ⟨number, g.text⟩ = .error fault ↔ g.Fails number fault := by
  constructor
  · intro refused
    rcases g.cases with wordless | ⟨rule, makes⟩ | lacks | lacks
    · cases refused.symm.trans (rule?_of_not_hasWord number wordless)
    · cases refused.symm.trans (rule?_of_makes number makes)
    · obtain rfl := Except.error.inj (refused.symm.trans (rule?_of_lacksSeparator number lacks))
      exact ⟨lacks, rfl⟩
    · obtain rfl := Except.error.inj (refused.symm.trans (rule?_of_lacksTarget number lacks))
      exact ⟨lacks, rfl⟩
  · intro fails
    match fault, fails with
    | .noSeparator _, ⟨lacks, rfl⟩ => exact rule?_of_lacksSeparator _ lacks
    | .noTarget _, ⟨lacks, rfl⟩ => exact rule?_of_lacksTarget _ lacks

theorem isWellFormed_iff : g.IsWellFormed ↔ ∃ found, g.Yields found := by
  constructor
  · intro wellFormed
    rcases g.cases with wordless | ⟨rule, makes⟩ | ⟨some, unmarked⟩ | ⟨marked, behind, cuts, colons⟩
    · exact ⟨none, wordless⟩
    · exact ⟨Option.some rule, makes⟩
    · obtain ⟨marked, behind, ⟨before, whole, _, isMarked⟩, _⟩ := wellFormed some
      exact absurd isMarked (unmarked marked (by simp [whole]))
    · have some : g.HasWord := by
        obtain ⟨before, whole, _⟩ := cuts
        exact hasWord_iff.mpr (by simp [whole])
      obtain ⟨marked', behind', cuts', c, mem, plain⟩ := wellFormed some
      obtain ⟨rfl, rfl⟩ := List.cons.inj ((cuts_iff.mp cuts).symm.trans (cuts_iff.mp cuts'))
      exact absurd (colons c mem) plain
  · rintro ⟨_ | rule, yields⟩ some
    · exact absurd some yields
    · obtain ⟨target, colons, behind, cuts, named, bare, _⟩ := yields
      refine ⟨_, behind, cuts, target.getLast named, ?_, fun colon => bare ?_⟩
      · exact List.mem_append_left _ (List.getLast_mem named)
      · rw [List.getLast?_eq_some_getLast named, colon]

end LineGroup

/-! ### Layouts -/

theorem exists_layout (lines : List (List Char)) : Nonempty (Layout lines) := by
  induction lines with
  | nil => exact ⟨⟨[], [], nofun, rfl⟩⟩
  | cons line lines ih =>
    obtain ⟨⟨groups, loose, continues, whole⟩⟩ := ih
    by_cases continued : IsContinued line
    · cases groups with
      | nil => exact ⟨⟨[], line :: loose, List.forall_mem_cons.mpr ⟨continued, continues⟩,
          congrArg (line :: ·) whole⟩⟩
      | cons g groups =>
        let longer : LineGroup :=
          ⟨line :: g.continued, g.last, List.forall_mem_cons.mpr ⟨continued, g.continues⟩, g.ends⟩
        exact ⟨⟨longer :: groups, loose, continues, congrArg (line :: ·) whole⟩⟩
    · exact ⟨⟨⟨[], line, nofun, continued⟩ :: groups, loose, continues,
        congrArg (line :: ·) whole⟩⟩

/-- The logical lines of groups, of which the first begins at the given line. -/
def numbered (number : Nat) : List LineGroup → List LogicalLine
  | [] => []
  | g :: groups => ⟨number, g.text⟩ :: numbered (number + g.lines.length) groups

theorem logicalLines_loose {loose : List (List Char)}
    (continues : ∀ line ∈ loose, IsContinued line) (number : Nat) :
    logicalLines number loose = ([], !loose.isEmpty) := by
  induction loose generalizing number with
  | nil => rfl
  | cons line loose ih =>
    have ⟨first, others⟩ := List.forall_mem_cons.mp continues
    simp only [logicalLines, ih others, if_pos (show line.getLast? = some '\\' from first)]
    rfl

theorem logicalLines_continued {continued : List (List Char)} {last : List Char}
    (continues : ∀ line ∈ continued, IsContinued line) (ends : ¬ IsContinued last)
    (number : Nat) (rest : List (List Char)) :
    logicalLines number (continued ++ last :: rest) =
      (⟨number, continued.flatMap (fun line => line.dropLast ++ [' ']) ++ last⟩ ::
          (logicalLines (number + continued.length + 1) rest).1,
        (logicalLines (number + continued.length + 1) rest).2) := by
  induction continued generalizing number with
  | nil => exact logicalLines_cons_of_ended ends number rest
  | cons line continued ih =>
    have ⟨first, others⟩ := List.forall_mem_cons.mp continues
    obtain ⟨front, rfl⟩ := List.getLast?_eq_some_iff.mp first
    rw [List.cons_append, logicalLines_cons_of_continued (ih others (number + 1))]
    simp [Nat.add_assoc, Nat.add_comm 1]

theorem logicalLines_group (g : LineGroup) (number : Nat) (rest : List (List Char)) :
    logicalLines number (g.lines ++ rest) =
      (⟨number, g.text⟩ :: (logicalLines (number + g.lines.length) rest).1,
        (logicalLines (number + g.lines.length) rest).2) := by
  have joined := logicalLines_continued g.continues g.ends number rest
  simpa [LineGroup.lines, LineGroup.text, Nat.add_assoc] using joined

theorem logicalLines_groups (groups : List LineGroup) {loose : List (List Char)}
    (continues : ∀ line ∈ loose, IsContinued line) (number : Nat) :
    logicalLines number (groups.flatMap LineGroup.lines ++ loose) =
      (numbered number groups, !loose.isEmpty) := by
  induction groups generalizing number with
  | nil => exact logicalLines_loose continues number
  | cons g groups ih =>
    rw [List.flatMap_cons, List.append_assoc, logicalLines_group, ih, numbered]

theorem Layout.logicalLines_eq {lines : List (List Char)} (l : Layout lines) :
    logicalLines 1 lines = (numbered 1 l.groups, !l.loose.isEmpty) := by
  have joined := logicalLines_groups l.groups l.continues 1
  rwa [l.whole] at joined

/-! ### Reading all groups -/

variable {groups : List LineGroup} {found : List (Option Rule)} {rules : List Rule}

theorem mapM_cons_eq_ok_iff {α β ε : Type} {f : α → Except ε β} {a : α} {l : List α}
    {bs : List β} :
    (a :: l).mapM f = .ok bs ↔ ∃ b more, f a = .ok b ∧ l.mapM f = .ok more ∧ bs = b :: more := by
  rw [List.mapM_cons]
  cases f a with
  | error e => simp [bind, Except.bind]
  | ok b => cases l.mapM f <;> simp [bind, Except.bind, pure, Except.pure, eq_comm]

theorem mapM_cons_eq_error_iff {α β ε : Type} {f : α → Except ε β} {a : α} {l : List α} {e : ε} :
    (a :: l).mapM f = .error e ↔ f a = .error e ∨ (∃ b, f a = .ok b) ∧ l.mapM f = .error e := by
  rw [List.mapM_cons]
  cases f a with
  | error e => simp [bind, Except.bind]
  | ok b => cases l.mapM f <;> simp [bind, Except.bind, pure, Except.pure]

theorem mapM_rule?_eq_ok_iff (number : Nat) :
    (numbered number groups).mapM LogicalLine.rule? = .ok found ↔
      List.Forall₂ LineGroup.Yields groups found := by
  induction groups generalizing number found with
  | nil =>
    rw [List.forall₂_nil_left_iff]
    exact ⟨fun read => (Except.ok.inj read).symm, fun none => none ▸ rfl⟩
  | cons g groups ih =>
    simp only [numbered, mapM_cons_eq_ok_iff, List.forall₂_cons_left_iff, ih,
      LineGroup.rule?_eq_ok_iff]

/-- The first element of its kind behind fine ones is the head, or comes after a head that is
fine. -/
theorem exists_first_cons {α : Type} {fine : α → Prop} {kind : List α → α → Prop} {a : α}
    {l : List α} :
    (∃ before b after, a :: l = before ++ b :: after ∧ (∀ c ∈ before, fine c) ∧ kind before b) ↔
      kind [] a ∨ fine a ∧
        ∃ before b after, l = before ++ b :: after ∧ (∀ c ∈ before, fine c) ∧
          kind (a :: before) b := by
  constructor
  · rintro ⟨_ | ⟨_, before⟩, b, after, whole, allFine, isKind⟩
    · obtain ⟨rfl, -⟩ := List.cons.inj whole
      exact .inl isKind
    · obtain ⟨rfl, rest⟩ := List.cons.inj whole
      have ⟨first, others⟩ := List.forall_mem_cons.mp allFine
      exact .inr ⟨first, before, b, after, rest, others, isKind⟩
  · rintro (isKind | ⟨first, before, b, after, rfl, others, isKind⟩)
    · exact ⟨[], a, l, rfl, nofun, isKind⟩
    · exact ⟨a :: before, b, after, rfl, List.forall_mem_cons.mpr ⟨first, others⟩, isKind⟩

theorem mapM_rule?_eq_error_iff {number : Nat} {fault : Fault} :
    (numbered number groups).mapM LogicalLine.rule? = .error fault ↔
      ∃ before g after, groups = before ++ g :: after ∧
        (∀ earlier ∈ before, earlier.IsWellFormed) ∧
        g.Fails (number + (before.flatMap LineGroup.lines).length) fault := by
  induction groups generalizing number with
  | nil => simp [numbered, pure, Except.pure]
  | cons g groups ih =>
    rw [exists_first_cons]
    simp only [numbered, mapM_cons_eq_error_iff, ih, LineGroup.rule?_eq_error_iff,
      LineGroup.rule?_eq_ok_iff, LineGroup.isWellFormed_iff, List.flatMap_cons, List.length_append,
      List.flatMap_nil, List.length_nil, Nat.add_zero, Nat.add_assoc]

/-- The options that groups yield hold the rules of the groups that have a word. -/
theorem exists_yields_iff :
    (∃ found, List.Forall₂ LineGroup.Yields groups found ∧ found.filterMap id = rules) ↔
      List.Forall₂ LineGroup.Makes (groups.filter fun g => g.HasWord) rules := by
  induction groups generalizing rules with
  | nil =>
    simp only [List.forall₂_nil_left_iff, List.filter_nil]
    constructor
    · rintro ⟨_, rfl, rfl⟩
      rfl
    · rintro rfl
      exact ⟨[], rfl, rfl⟩
  | cons g groups ih =>
    by_cases some : g.HasWord
    · rw [List.filter_cons_of_pos (by simpa using some), List.forall₂_cons_left_iff]
      constructor
      · rintro ⟨found, yields, rfl⟩
        obtain ⟨_ | rule, more, first, others, rfl⟩ := List.forall₂_cons_left_iff.mp yields
        · exact absurd some first
        · exact ⟨rule, _, first, ih.mp ⟨more, others, rfl⟩, rfl⟩
      · rintro ⟨rule, more, makes, others, rfl⟩
        obtain ⟨found, yields, rfl⟩ := ih.mpr others
        exact ⟨Option.some rule :: found, .cons makes yields, rfl⟩
    · rw [List.filter_cons_of_neg (by simpa using some)]
      constructor
      · rintro ⟨found, yields, rfl⟩
        obtain ⟨_ | rule, more, first, others, rfl⟩ := List.forall₂_cons_left_iff.mp yields
        · exact ih.mp ⟨more, others, rfl⟩
        · obtain ⟨_, _, _, ⟨_, whole, _⟩, _⟩ := first
          exact absurd (LineGroup.hasWord_iff.mpr (by simp [whole])) some
      · intro makes
        obtain ⟨found, yields, rfl⟩ := ih.mpr makes
        exact ⟨none :: found, .cons some yields, rfl⟩

theorem exists_yields_of_wellFormed :
    (∃ found, List.Forall₂ LineGroup.Yields groups found) ↔ ∀ g ∈ groups, g.IsWellFormed := by
  induction groups with
  | nil => simp [List.forall₂_nil_left_iff]
  | cons g groups ih =>
    rw [List.forall_mem_cons, ← ih, LineGroup.isWellFormed_iff]
    constructor
    · rintro ⟨_, yields⟩
      obtain ⟨found, more, first, others, rfl⟩ := List.forall₂_cons_left_iff.mp yields
      exact ⟨⟨found, first⟩, more, others⟩
    · rintro ⟨⟨found, first⟩, more, others⟩
      exact ⟨found :: more, .cons first others⟩

/-! ### Files -/

/-- Groups without words are read as nothing. -/
theorem exists_wordless_iff :
    (∃ found, List.Forall₂ LineGroup.Yields groups found ∧ found.filterMap id = []) ↔
      ∀ g ∈ groups, ¬ g.HasWord := by
  rw [exists_yields_iff, List.forall₂_nil_right_iff, List.filter_eq_nil_iff]
  simp

namespace Layout

variable {contents : String} (l : Layout (Text.lines contents))

/-- The outcome once all groups are read. -/
def conclude (found : List (Option Rule)) : Except Fault (List Rule) :=
  if l.loose ≠ [] then .error .unterminated
  else if found.filterMap id = [] then .error .empty
  else .ok (found.filterMap id)

theorem conclude_eq_ok_iff :
    l.conclude found = .ok rules ↔ l.loose = [] ∧ rules ≠ [] ∧ found.filterMap id = rules := by
  unfold conclude
  split_ifs <;> grind

theorem conclude_eq_error_iff {fault : Fault} :
    l.conclude found = .error fault ↔ l.loose ≠ [] ∧ fault = .unterminated ∨
      l.loose = [] ∧ found.filterMap id = [] ∧ fault = .empty := by
  unfold conclude
  split_ifs <;> grind

theorem parse_eq (contents : String) (l : Layout (Text.lines contents)) :
    parse contents = (numbered 1 l.groups).mapM LogicalLine.rule? >>= l.conclude := by
  simp only [parse, l.logicalLines_eq]
  cases (numbered 1 l.groups).mapM LogicalLine.rule? with
  | error fault => rfl
  | ok found =>
    cases loose : l.loose <;>
      simp [bind, Except.bind, conclude, loose, pure, Except.pure, throw, throwThe,
        MonadExceptOf.throw]

theorem parse_eq_ok_iff :
    parse contents = .ok rules ↔
      ∃ found, List.Forall₂ LineGroup.Yields l.groups found ∧ l.conclude found = .ok rules := by
  rw [parse_eq contents l]
  simp only [← mapM_rule?_eq_ok_iff 1]
  cases (numbered 1 l.groups).mapM LogicalLine.rule? <;> simp [bind, Except.bind]

theorem parse_eq_error_iff {fault : Fault} :
    parse contents = .error fault ↔
      (numbered 1 l.groups).mapM LogicalLine.rule? = .error fault ∨
      ∃ found, List.Forall₂ LineGroup.Yields l.groups found ∧ l.conclude found = .error fault := by
  rw [parse_eq contents l]
  simp only [← mapM_rule?_eq_ok_iff 1]
  cases (numbered 1 l.groups).mapM LogicalLine.rule? <;> simp [bind, Except.bind]

/-- Reading all groups ends at the first bad one. -/
theorem mapM_eq_error_iff {fault : Fault} :
    (numbered 1 l.groups).mapM LogicalLine.rule? = .error fault ↔
      match fault with
      | .noSeparator number => l.FirstBad LineGroup.LacksSeparator number
      | .noTarget number => l.FirstBad LineGroup.LacksTarget number
      | _ => False := by
  rw [mapM_rule?_eq_error_iff]
  cases fault <;> simp [LineGroup.Fails, FirstBad, Nat.add_comm]

theorem parse_eq_iff {outcome : Except Fault (List Rule)} :
    parse contents = outcome ↔ l.Says outcome := by
  match outcome with
  | .ok rules =>
    simp only [l.parse_eq_ok_iff, l.conclude_eq_ok_iff, Says, ← exists_yields_iff]
    grind
  | .error (.noSeparator number) | .error (.noTarget number) =>
    simp only [l.parse_eq_error_iff, l.mapM_eq_error_iff, l.conclude_eq_error_iff, Says]
    grind
  | .error .unterminated =>
    simp only [l.parse_eq_error_iff, l.mapM_eq_error_iff, l.conclude_eq_error_iff, Says,
      ← exists_yields_of_wellFormed]
    grind
  | .error .empty =>
    simp only [l.parse_eq_error_iff, l.mapM_eq_error_iff, l.conclude_eq_error_iff, Says,
      ← exists_wordless_iff]
    grind

/-- There are loose lines exactly if the last line is continued. -/
theorem loose_eq_nil_iff {lines : List (List Char)} (l : Layout lines) :
    l.loose = [] ↔ ∀ line ∈ lines.getLast?, ¬ IsContinued line := by
  constructor
  · intro none line last
    rw [← l.whole, none, List.append_nil] at last
    rcases List.eq_nil_or_concat l.groups with nil | ⟨groups, g, whole⟩
    · simp [nil] at last
    · obtain rfl : g.last = line := by
        simpa [whole, LineGroup.lines, ← List.append_assoc] using last
      exact g.ends
  · intro ends
    by_contra nonempty
    have last : (l.groups.flatMap LineGroup.lines ++ l.loose).getLast? =
        some (l.loose.getLast nonempty) := by
      rw [List.getLast?_append, List.getLast?_eq_some_getLast nonempty]
      rfl
    rw [l.whole] at last
    exact ends _ last (l.continues _ (List.getLast_mem nonempty))

theorem exists_parse_eq_ok_iff :
    (∃ rules, parse contents = .ok rules) ↔
      l.loose = [] ∧ (∃ g ∈ l.groups, g.HasWord) ∧ ∀ g ∈ l.groups, g.IsWellFormed := by
  simp only [l.parse_eq_ok_iff, l.conclude_eq_ok_iff]
  constructor
  · rintro ⟨rules, found, yields, none, nonempty, rfl⟩
    refine ⟨none, ?_, exists_yields_of_wellFormed.mp ⟨found, yields⟩⟩
    have makes := exists_yields_iff.mp ⟨found, yields, rfl⟩
    by_contra wordless
    have dropped : (l.groups.filter fun g => g.HasWord) = [] := by simpa using wordless
    rw [dropped, List.forall₂_nil_left_iff] at makes
    exact nonempty makes
  · rintro ⟨none, ⟨g, mem, some⟩, wellFormed⟩
    obtain ⟨found, yields⟩ := exists_yields_of_wellFormed.mpr wellFormed
    refine ⟨found.filterMap id, found, yields, none, fun nil => ?_, rfl⟩
    exact exists_wordless_iff.mp ⟨found, yields, nil⟩ g mem some

end Layout

/-- A file has one outcome, which its layout tells. It is accepted exactly if the last line is not
continued, some group has a word, and all that have one are rules. -/
theorem parse_says (contents : String) :
    Nonempty (Layout (Text.lines contents)) ∧ ∀ l : Layout (Text.lines contents),
      (∀ outcome, parse contents = outcome ↔ l.Says outcome) ∧
      ((∃ rules, parse contents = .ok rules) ↔
        (∀ line ∈ (Text.lines contents).getLast?, ¬ IsContinued line) ∧
          (∃ g ∈ l.groups, g.HasWord) ∧ ∀ g ∈ l.groups, g.IsWellFormed) := by
  refine ⟨exists_layout _, fun l => ⟨fun outcome => l.parse_eq_iff, ?_⟩⟩
  rw [← l.loose_eq_nil_iff]
  exact l.exists_parse_eq_ok_iff

/-- A bad line counts before the missing continuation at the end. Its number is that of the line
that it begins on. -/
example : parse "a.o: a.h \\\n b.h\n\nb.o \\\n a.h\nc.o: \\" = .error (.noSeparator 4) := by decide

end ObjcPlan.DepFile
