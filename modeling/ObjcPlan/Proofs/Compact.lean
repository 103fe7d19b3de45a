import ObjcPlan.Json.Printer

/-! JSON without blanks is read back in one way only. A written value shows where it ends, so two
values with anything after them are written alike only if they and what follows are the same
(`Json.compact_append_inj`). Numbers are left out: the digits after one could be its own. -/

namespace ObjcPlan.Json

/-- Values without numbers. -/
inductive Plain : Json → Prop
  | null : Plain null
  | bool (value : Bool) : Plain (bool value)
  | string (value : String) : Plain (string value)
  | array {items : List Json} (plain : ∀ item ∈ items, Plain item) : Plain (array items)
  | object {fields : List (String × Json)} (plain : ∀ field ∈ fields, Plain field.2) :
      Plain (object fields)

/-! ### Quoted texts -/

def digitValue (c : Char) : Nat :=
  if c.toNat < 58 then c.toNat - 48 else c.toNat - 87

/-- The character that stands at the start of a quoted text, with what follows it. -/
def readChar? : List Char → Option (Char × List Char)
  | '\\' :: 'b' :: rest => some (.ofNat 0x08, rest)
  | '\\' :: 'f' :: rest => some (.ofNat 0x0C, rest)
  | '\\' :: 'n' :: rest => some ('\n', rest)
  | '\\' :: 'r' :: rest => some ('\r', rest)
  | '\\' :: 't' :: rest => some ('\t', rest)
  | '\\' :: 'u' :: _ :: _ :: c :: d :: rest =>
    some (.ofNat (16 * digitValue c + digitValue d), rest)
  | '\\' :: c :: rest => some (c, rest)
  | c :: rest => some (c, rest)
  | [] => none

theorem hex_four : ∀ n < 32,
    Text.hex 4 n = ['0', '0', Text.hexDigit (n / 16 % 16), Text.hexDigit (n % 16)] ∧
      16 * digitValue (Text.hexDigit (n / 16 % 16)) + digitValue (Text.hexDigit (n % 16)) = n := by
  decide

theorem readChar?_escape (c : Char) (rest : List Char) :
    readChar? (escape c ++ rest) = some (c, rest) := by
  have same (n : Nat) (h : c.toNat = n) : Char.ofNat n = c := by
    rw [← h, Char.ofNat_toNat]
  unfold escape
  split
  · subst_vars; rfl
  split
  · subst_vars; rfl
  split
  · next eq => exact congrArg (fun d => some (d, rest)) (same _ eq)
  split
  · next eq => exact congrArg (fun d => some (d, rest)) (same _ eq)
  split
  · subst_vars; rfl
  split
  · subst_vars; rfl
  split
  · subst_vars; rfl
  split
  · next small =>
    obtain ⟨digits, value⟩ := hex_four c.toNat small
    rw [digits]
    exact congrArg (fun d => some (d, rest)) ((congrArg Char.ofNat value).trans (same _ rfl))
  · next not_quote not_escape _ _ _ _ _ _ =>
    show readChar? (c :: rest) = some (c, rest)
    unfold readChar?
    split <;> simp_all

theorem escape_append_ne (c : Char) (rest rest' : List Char) :
    escape c ++ rest ≠ '"' :: rest' := by
  intro same
  have read := readChar?_escape c rest
  rw [same] at read
  obtain ⟨rfl, _⟩ := Prod.mk.inj (Option.some.inj read)
  cases same

theorem escape_append_inj {c c' : Char} {rest rest' : List Char}
    (h : escape c ++ rest = escape c' ++ rest') : c = c' ∧ rest = rest' := by
  have read := readChar?_escape c rest
  rw [h, readChar?_escape] at read
  obtain ⟨same, same'⟩ := Prod.mk.inj (Option.some.inj read)
  exact ⟨same.symm, same'.symm⟩

theorem escaped_append_inj {cs cs' rest rest' : List Char}
    (h : cs.flatMap escape ++ '"' :: rest = cs'.flatMap escape ++ '"' :: rest') :
    cs = cs' ∧ rest = rest' := by
  induction cs generalizing cs' with
  | nil =>
    cases cs' with
    | nil => exact ⟨rfl, List.tail_eq_of_cons_eq h⟩
    | cons c' cs' =>
      rw [List.flatMap_cons, List.append_assoc] at h
      exact absurd h.symm (escape_append_ne _ _ _)
  | cons c cs ih =>
    rw [List.flatMap_cons, List.append_assoc] at h
    cases cs' with
    | nil => exact absurd h (escape_append_ne _ _ _)
    | cons c' cs' =>
      rw [List.flatMap_cons, List.append_assoc] at h
      obtain ⟨rfl, later⟩ := escape_append_inj h
      obtain ⟨rfl, same⟩ := ih later
      exact ⟨rfl, same⟩

theorem toList_quote (s : String) :
    (quote s).toList = '"' :: (s.toList.flatMap escape ++ ['"']) := by
  simp [quote]

theorem quote_append_inj {s s' : String} {rest rest' : List Char}
    (h : (quote s).toList ++ rest = (quote s').toList ++ rest') : s = s' ∧ rest = rest' := by
  simp only [toList_quote, List.cons_append, List.append_assoc, List.nil_append, List.cons.injEq,
    true_and] at h
  obtain ⟨same, same'⟩ := escaped_append_inj h
  exact ⟨String.toList_inj.mp same, same'⟩

/-! ### Items between commas -/

/-- The items after the first, with the bracket that closes them. -/
def written {α : Type} (write : α → List Char) (close : Char) : List α → List Char
  | [] => [close]
  | a :: rest => ',' :: write a ++ written write close rest

theorem intercalate_cons {α : Type} (write : α → List Char) (close : Char) (a : α) (rest : List α) :
    [','].intercalate ((a :: rest).map write) ++ [close] = write a ++ written write close rest := by
  induction rest generalizing a with
  | nil => simp [written]
  | cons b rest ih =>
    have tail := ih b
    simp only [List.map_cons] at tail ⊢
    rw [List.intercalate_cons_cons, written]
    simp [tail]

theorem written_append_inj {α : Type} {write : α → List Char} {close : Char} (apart : close ≠ ',')
    {l l' : List α} {rest rest' : List Char}
    (inj : ∀ a ∈ l, ∀ b ∈ l', ∀ r r', write a ++ r = write b ++ r' → a = b ∧ r = r')
    (h : written write close l ++ rest = written write close l' ++ rest') :
    l = l' ∧ rest = rest' := by
  induction l generalizing l' with
  | nil =>
    cases l' with
    | nil => exact ⟨rfl, List.tail_eq_of_cons_eq h⟩
    | cons => exact absurd (List.head_eq_of_cons_eq h) apart
  | cons a l ih =>
    cases l' with
    | nil => exact absurd (List.head_eq_of_cons_eq h).symm apart
    | cons b l' =>
      simp only [written, List.cons_append, List.append_assoc, List.cons.injEq, true_and] at h
      obtain ⟨rfl, later⟩ := inj a List.mem_cons_self b List.mem_cons_self _ _ h
      obtain ⟨rfl, same⟩ := ih (fun c mem d mem' =>
        inj c (List.mem_cons_of_mem _ mem) d (List.mem_cons_of_mem _ mem')) later
      exact ⟨rfl, same⟩

/-- Items are told apart if each of them is, and none starts like the bracket that closes them. -/
theorem intercalate_append_inj {α : Type} {write : α → List Char} {close : Char}
    (apart : close ≠ ',') {l l' : List α} {rest rest' : List Char}
    (inj : ∀ a ∈ l, ∀ b ∈ l', ∀ r r', write a ++ r = write b ++ r' → a = b ∧ r = r')
    (head : ∀ a ∈ l ++ l', ∀ r r', write a ++ r ≠ close :: r')
    (h : [','].intercalate (l.map write) ++ [close] ++ rest =
      [','].intercalate (l'.map write) ++ [close] ++ rest') : l = l' ∧ rest = rest' := by
  cases l with
  | nil =>
    cases l' with
    | nil => exact ⟨rfl, by simpa using h⟩
    | cons b l' =>
      rw [intercalate_cons, List.append_assoc (write b)] at h
      exact absurd h.symm (head b (by simp) _ _)
  | cons a l =>
    rw [intercalate_cons, List.append_assoc] at h
    cases l' with
    | nil => exact absurd h (head a (by simp) _ _)
    | cons b l' =>
      rw [intercalate_cons, List.append_assoc] at h
      obtain ⟨rfl, later⟩ := inj a List.mem_cons_self b List.mem_cons_self _ _ h
      obtain ⟨rfl, same⟩ := written_append_inj apart (fun c mem d mem' =>
        inj c (List.mem_cons_of_mem _ mem) d (List.mem_cons_of_mem _ mem')) later
      exact ⟨rfl, same⟩

/-! ### Values -/

def fieldText (field : String × Json) : List Char :=
  (quote field.1).toList ++ ':' :: field.2.compact.toList

theorem compactItems_eq (items : List Json) : compactItems items = items.map compact := by
  induction items with
  | nil => rfl
  | cons item rest ih => rw [compactItems, ih, List.map_cons]

theorem toList_compactFields (fields : List (String × Json)) :
    (compactFields fields).map String.toList = fields.map fieldText := by
  induction fields with
  | nil => rfl
  | cons field rest ih =>
    obtain ⟨name, value⟩ := field
    rw [compactFields, List.map_cons, List.map_cons, ih]
    simp [fieldText]

theorem toList_array (items : List Json) : (array items).compact.toList =
    '[' :: ([','].intercalate (items.map fun item => item.compact.toList) ++ [']']) := by
  simp [compact, compactItems_eq, String.toList_intercalate, Function.comp_def]

theorem toList_object (fields : List (String × Json)) : (object fields).compact.toList =
    '\x7b' :: ([','].intercalate (fields.map fieldText) ++ ['\x7d']) := by
  simp [compact, String.toList_intercalate, toList_compactFields]

/-- The character that a value without numbers starts with. -/
def opening : Json → Char
  | null => 'n'
  | bool true => 't'
  | bool false => 'f'
  | number _ _ => '0'
  | string _ => '"'
  | array _ => '['
  | object _ => '\x7b'

theorem Plain.toList_eq {j : Json} (plain : j.Plain) :
    ∃ rest, j.compact.toList = j.opening :: rest := by
  cases plain with
  | null => exact ⟨_, rfl⟩
  | bool value => cases value <;> exact ⟨_, rfl⟩
  | string value => exact ⟨_, toList_quote value⟩
  | array => exact ⟨_, toList_array _⟩
  | object => exact ⟨_, toList_object _⟩

theorem Plain.opening_eq {j j' : Json} (plain : j.Plain) (plain' : j'.Plain)
    {rest rest' : List Char} (h : j.compact.toList ++ rest = j'.compact.toList ++ rest') :
    j.opening = j'.opening := by
  obtain ⟨_, text⟩ := plain.toList_eq
  obtain ⟨_, text'⟩ := plain'.toList_eq
  rw [text, text'] at h
  exact List.head_eq_of_cons_eq h

theorem Plain.append_ne {j : Json} (plain : j.Plain) {c : Char} (other : j.opening ≠ c)
    (rest rest' : List Char) : j.compact.toList ++ rest ≠ c :: rest' := by
  obtain ⟨_, text⟩ := plain.toList_eq
  rw [text]
  exact fun same => other (List.head_eq_of_cons_eq same)

theorem Plain.opening_ne {j : Json} (plain : j.Plain) : j.opening ≠ ']' := by
  cases plain with
  | bool value => cases value <;> decide
  | _ => exact of_decide_eq_true rfl

theorem fieldText_append_ne (field : String × Json) (rest rest' : List Char) :
    fieldText field ++ rest ≠ '\x7d' :: rest' := by
  rw [fieldText, toList_quote]
  exact fun same => absurd (List.head_eq_of_cons_eq same) (by decide)

/-- A value without numbers shows where it ends. -/
theorem compact_append_inj {j j' : Json} (plain : j.Plain) (plain' : j'.Plain)
    {rest rest' : List Char} (h : j.compact.toList ++ rest = j'.compact.toList ++ rest') :
    j = j' ∧ rest = rest' := by
  induction plain generalizing j' rest rest' with
  | null =>
    have start := Plain.null.opening_eq plain' h
    cases plain' with
    | null => exact ⟨rfl, List.append_cancel_left h⟩
    | bool value => cases value <;> cases start
    | _ => cases start
  | bool value =>
    have start := (Plain.bool value).opening_eq plain' h
    cases plain' with
    | bool value' =>
      obtain rfl : value = value' := by
        cases value <;> cases value' <;> first | rfl | cases start
      exact ⟨rfl, List.append_cancel_left h⟩
    | _ => cases value <;> cases start
  | string value =>
    have start := (Plain.string value).opening_eq plain' h
    cases plain' with
    | string value' =>
      obtain ⟨rfl, same⟩ := quote_append_inj h
      exact ⟨rfl, same⟩
    | bool value => cases value <;> cases start
    | _ => cases start
  | @array items plain ih =>
    have start := (Plain.array plain).opening_eq plain' h
    cases plain' with
    | @array items' plain' =>
      rw [toList_array, toList_array, List.cons_append, List.cons_append, List.cons.injEq] at h
      have head : ∀ a ∈ items ++ items', ∀ r r', a.compact.toList ++ r ≠ ']' :: r' := by
        intro a mem
        have plain : a.Plain := (List.mem_append.mp mem).elim (plain a) (plain' a)
        exact plain.append_ne plain.opening_ne
      obtain ⟨rfl, same⟩ := intercalate_append_inj (by decide)
        (fun a mem b mem' _ _ => ih a mem (plain' b mem')) head h.2
      exact ⟨rfl, same⟩
    | bool value => cases value <;> cases start
    | _ => cases start
  | @object fields plain ih =>
    have start := (Plain.object plain).opening_eq plain' h
    cases plain' with
    | @object fields' plain' =>
      rw [toList_object, toList_object, List.cons_append, List.cons_append, List.cons.injEq] at h
      have inj : ∀ a ∈ fields, ∀ b ∈ fields', ∀ r r',
          fieldText a ++ r = fieldText b ++ r' → a = b ∧ r = r' := by
        intro a mem b mem' r r' same
        rw [fieldText, fieldText, List.append_assoc, List.append_assoc] at same
        obtain ⟨name, after⟩ := quote_append_inj same
        obtain ⟨value, rest⟩ := ih a mem (plain' b mem') (List.tail_eq_of_cons_eq after)
        exact ⟨Prod.ext name value, rest⟩
      obtain ⟨rfl, same⟩ := intercalate_append_inj (by decide) inj
        (fun a _ => fieldText_append_ne a) h.2
      exact ⟨rfl, same⟩
    | bool value => cases value <;> cases start
    | _ => cases start

end ObjcPlan.Json
