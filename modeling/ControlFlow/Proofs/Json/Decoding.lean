import ControlFlow.Json.Value
import ControlFlow.Proofs.Form.Writing
/-!
# Reading JSON texts

A reader of JSON texts, for values without floating-point numbers, and the proof that it reads a
value back from its text with one item a line. Blanks and line feeds may stand between the parts of
a text, so that the reader needs not know how far items are set in.
-/

namespace ControlFlow.Json

open Peg

/-! ## The reader -/

/-- The blanks between the parts of a text. -/
def isBlank (c : Char) : Bool := c = ' ' || c = '\n'

/-- The characters of numbers and of the words for truth values and `null`. -/
def isWordChar (c : Char) : Bool := c = '-' || c.isAlphanum

/-- What a hexadecimal digit stands for. -/
def hexValue? (c : Char) : Option Nat := (List.range 16).find? (Nat.digitChar · = c)

/-- The character that a letter stands for after a backslash. -/
def escaped? : Char → Option Char
  | '"' => some '"'
  | '\\' => some '\\'
  | 'b' => some '\x08'
  | 't' => some '\t'
  | 'n' => some '\n'
  | 'f' => some '\x0c'
  | 'r' => some '\r'
  | _ => none

/-- The characters of a string up to its closing quote, and what stands behind it. -/
def takeString : List Char → Option (List Char × List Char)
  | [] => none
  | '"' :: s => some ([], s)
  | '\\' :: 'u' :: '0' :: '0' :: high :: low :: s => do
    let n := 16 * (← hexValue? high) + (← hexValue? low)
    let (text, rest) ← takeString s
    return (Char.ofNat n :: text, rest)
  | '\\' :: c :: s => do
    let c ← escaped? c
    let (text, rest) ← takeString s
    return (c :: text, rest)
  | c :: s => do
    let (text, rest) ← takeString s
    return (c :: text, rest)

/-- The value that a word spells. -/
def ofWord? (word : List Char) : Option Json :=
  match Word.integer? word with
  | some n => some (.integer n)
  | none =>
    if word = "null".toList then some .null
    else if word = "true".toList then some (.bool true)
    else if word = "false".toList then some (.bool false)
    else none

/-- One or more things with commas between them, and what stands behind the mark that closes them.
There may be no more than `fuel` of them. -/
def takeList {α : Type} (closing : Char) (one : List Char → Option (α × List Char)) :
    Nat → List Char → Option (List α × List Char)
  | 0, _ => none
  | fuel + 1, s => do
    let (a, s) ← one s
    match s.dropWhile isBlank with
    | [] => none
    | c :: s =>
      if c = closing then return ([a], s)
      else if c = ',' then do
        let (as, rest) ← takeList closing one fuel s
        return (a :: as, rest)
      else none

/-- The things of an array or an object: none, or `takeList`. -/
def takeGroup {α : Type} (closing : Char) (one : List Char → Option (α × List Char)) (fuel : Nat)
    (s : List Char) : Option (List α × List Char) :=
  if s.head? = some closing then some ([], s.tail) else takeList closing one fuel s

/-- A field of an object, whose value is read by `value`. -/
def takeField (value : List Char → Option (Json × List Char)) (s : List Char) :
    Option ((String × Json) × List Char) :=
  match s.dropWhile isBlank with
  | '"' :: s => do
    let (key, s) ← takeString s
    match s with
    | ':' :: s => do
      let (v, rest) ← value s
      return ((String.ofList key, v), rest)
    | _ => none
  | _ => none

/-- The value at the front of a text, and what stands behind it. Values may nest no deeper than
`fuel`. -/
def takeValue : Nat → List Char → Option (Json × List Char)
  | 0, _ => none
  | fuel + 1, s =>
    match s.dropWhile isBlank with
    | '"' :: s => do
      let (text, rest) ← takeString s
      return (.str (String.ofList text), rest)
    | '[' :: s => do
      let (items, rest) ← takeGroup ']' (takeValue fuel) fuel s
      return (.arr items, rest)
    | '\x7b' :: s => do
      let (fields, rest) ← takeGroup '\x7d' (takeField (takeValue fuel)) fuel s
      return (.obj fields, rest)
    | s => do
      let v ← ofWord? (s.takeWhile isWordChar)
      return (v, s.dropWhile isWordChar)

/-- The value of a whole text. -/
def parse? (text : String) : Option Json :=
  match takeValue (text.length + 1) text.toList with
  | some (v, []) => some v
  | _ => none

/-- A value without floating-point numbers. -/
inductive Exact : Json → Prop where
  | null : Exact .null
  | bool (b : Bool) : Exact (.bool b)
  | integer (n : Int) : Exact (.integer n)
  | str (s : String) : Exact (.str s)
  | arr {items : List Json} (h : ∀ v ∈ items, Exact v) : Exact (.arr items)
  | obj {fields : List (String × Json)} (h : ∀ f ∈ fields, Exact f.2) : Exact (.obj fields)

/-! ## Strings -/

lemma hexValue?_digitChar : ∀ n < 16, hexValue? (Nat.digitChar n) = some n := by decide

/-- A control character has two hexadecimal digits. -/
lemma hexadecimal_control : ∀ n < 32, ((if n < 16 then "0" else "") ++ Text.hexadecimal n).toList =
    [Nat.digitChar (n / 16), Nat.digitChar (n % 16)] := by decide +kernel

variable {fuel level : Nat} {c : Char} {v : Json} {s : List Char}

lemma takeString_cons (quote : c ≠ '"') (backslash : c ≠ '\\') (s : List Char) :
    takeString (c :: s) = (takeString s).map fun (text, rest) => (c :: text, rest) := by
  rw [takeString]
  · cases takeString s <;> rfl
  · exact quote
  · exact fun _ _ _ h => absurd h backslash
  · exact fun _ _ h => absurd h backslash

lemma takeString_escaped {letter : Char} (h : escaped? letter = some c) (s : List Char) :
    takeString ('\\' :: letter :: s) =
      (takeString s).map fun (text, rest) => (c :: text, rest) := by
  rw [takeString]
  · rw [h]
    cases takeString s <;> rfl
  · rintro _ _ _ rfl
    cases h

/-- Two hexadecimal digits give a control character back. -/
lemma takeString_control (control : c.toNat < 32) (s : List Char) :
    takeString ('\\' :: 'u' :: '0' :: '0' :: Nat.digitChar (c.toNat / 16) ::
        Nat.digitChar (c.toNat % 16) :: s) =
      (takeString s).map fun (text, rest) => (c :: text, rest) := by
  have whole : Char.ofNat (16 * (c.toNat / 16) + c.toNat % 16) = c := by
    rw [Nat.div_add_mod, Char.ofNat_toNat]
  simp only [takeString, hexValue?_digitChar _ (show c.toNat / 16 < 16 by omega),
    hexValue?_digitChar _ (Nat.mod_lt c.toNat (show 0 < 16 by decide)), Option.bind_eq_bind,
    Option.bind_some, whole]
  cases takeString s <;> rfl

/-- One character of a string is read back. -/
lemma takeString_escapedChar (c : Char) (s : List Char) :
    takeString ((escapedChar c).toList ++ s) =
      (takeString s).map fun (text, rest) => (c :: text, rest) := by
  unfold escapedChar
  split
  any_goals exact takeString_escaped rfl s
  rename_i quote backslash _ _ _ _ _
  split
  · rename_i control
    rw [String.append_assoc, String.toList_append, hexadecimal_control _ control]
    exact takeString_control control s
  · rw [Char.toString, String.toList_singleton]
    exact takeString_cons quote backslash s

lemma takeString_quoted (text : String) (s : List Char) :
    ∃ body, (quotedString text).toList = '"' :: body ∧
      takeString (body ++ s) = some (text.toList, s) := by
  refine ⟨(text.toList.map fun c => (escapedChar c).toList).flatten ++ ['"'], ?_, ?_⟩
  · simp [quotedString, List.flatMap_def, Function.comp_def]
  · induction text.toList with
    | nil => rfl
    | cons c cs ih =>
      simp only [List.map_cons, List.flatten_cons, List.append_assoc] at ih ⊢
      rw [takeString_escapedChar, ih]
      rfl

/-! ## Blanks and words -/

lemma dropWhile_newline (level : Nat) (s : List Char) :
    ((newline level).toList ++ s).dropWhile isBlank = s.dropWhile isBlank := by
  rw [List.dropWhile_append, List.dropWhile_eq_nil_iff.2]
  · rfl
  · simp [newline, isBlank]

lemma isWordChar_of_isDigit (h : c.isDigit = true) : isWordChar c = true := by
  simp [isWordChar, Char.isAlphanum, h]

variable {α : Type} {rest : List Char} {one : List Char → Option (α × List Char)}
  {write : α → List Char}

/-- A word is read up to its end. -/
lemma takeValue_word {w : List Char} (some_char : w ≠ []) (word : ∀ c ∈ w, isWordChar c = true)
    (spells : ofWord? w = some v) (stop : Stops isWordChar rest) (fuel : Nat) :
    takeValue (fuel + 1) (w ++ rest) = some (v, rest) := by
  have taken : (w ++ rest).takeWhile isWordChar = w := by
    rw [Grammar.takeWhile_append_stops stop, List.takeWhile_eq_self_iff.2 word]
  have left : (w ++ rest).dropWhile isWordChar = rest := by
    rw [Grammar.dropWhile_append_stops stop, List.dropWhile_eq_nil_iff.2 word, List.nil_append]
  obtain ⟨c, w, rfl⟩ := List.exists_cons_of_ne_nil some_char
  have first := word c (.head _)
  have no_blank : (c :: w ++ rest).dropWhile isBlank = c :: w ++ rest := by
    refine List.dropWhile_cons_of_neg fun blank => ?_
    rcases (by simpa [isBlank] using blank : c = ' ' ∨ c = '\n') with rfl | rfl <;> cases first
  rw [takeValue, no_blank]
  split
  -- a word starts with none of the marks that open a string, an array or an object
  any_goals
    rename_i same
    obtain ⟨rfl, -⟩ := List.cons.inj same
    cases first
  rw [taken, left, spells]
  rfl

/-! ## Lists -/

/-- What is written one by one, with commas between, is read one by one. -/
lemma takeList_written {closing : Char} {as : List α} {tail : List Char}
    (reads : ∀ a ∈ as, ∀ s, Stops isWordChar s → one (write a ++ s) = some (a, s))
    (some_item : as ≠ []) (enough : as.length ≤ fuel) (stop : Stops isWordChar tail)
    (closes : tail.dropWhile isBlank = closing :: rest) (other : ',' ≠ closing) :
    takeList closing one fuel ([','].intercalate (as.map write) ++ tail) = some (as, rest) := by
  induction fuel generalizing as with
  | zero => exact absurd (List.length_eq_zero_iff.1 (Nat.le_zero.1 enough)) some_item
  | succ fuel ih =>
    rcases as with _ | ⟨a, _ | ⟨b, as⟩⟩
    · exact absurd rfl some_item
    · have first := reads a (.head _) tail stop
      simp [takeList, List.intercalate, first, closes]
    · rw [List.forall_mem_cons] at reads
      have others := ih reads.2 (List.cons_ne_nil b as) (Nat.le_of_succ_le_succ enough)
      have text : [','].intercalate ((a :: b :: as).map write) ++ tail =
          write a ++ ',' :: ([','].intercalate ((b :: as).map write) ++ tail) := by
        simp [List.intercalate]
      have first := reads.1 (',' :: ([','].intercalate ((b :: as).map write) ++ tail))
        (by simp [isWordChar, Char.isAlphanum])
      rw [text, takeList, first]
      have comma : (',' :: ([','].intercalate ((b :: as).map write) ++ tail)).dropWhile isBlank =
          ',' :: ([','].intercalate ((b :: as).map write) ++ tail) := rfl
      simp only [Option.bind_eq_bind, Option.bind_some, comma, if_neg other, if_pos, others]
      rfl

/-- The end of the line before a closing mark is no part of a word. -/
lemma stops_newline (level : Nat) (s : List Char) :
    Stops isWordChar ((newline level).toList ++ s) := by
  simp [newline, isWordChar, Char.isAlphanum]

/-- Things on lines of their own, with commas between them, up to the line of the closing mark. -/
def lines {α : Type} (level : Nat) (write : α → List Char) (as : List α) : List Char :=
  if as.isEmpty then [] else [','].intercalate (as.map write) ++ (newline level).toList

/-- Things on lines of their own between two marks are read one by one. -/
lemma takeGroup_lines (closing : Char) {as : List α}
    (reads : ∀ a ∈ as, ∀ s, Stops isWordChar s → one (write a ++ s) = some (a, s))
    (line : ∀ a, (write a).head? = some '\n') (enough : as.length ≤ fuel) (other : ',' ≠ closing)
    (no_blank : isBlank closing = false) (level : Nat) (s : List Char) :
    takeGroup closing one fuel (lines level write as ++ closing :: s) = some (as, s) := by
  cases as with
  | nil => simp [takeGroup, lines]
  | cons a as =>
    have first : (lines level write (a :: as) ++ closing :: s).head? = some '\n' := by
      cases as <;> simp [lines, List.intercalate, List.head?_append, line]
    have feed : '\n' ≠ closing := by
      rintro rfl
      cases no_blank
    rw [takeGroup, first, if_neg (by simpa using feed), lines, List.isEmpty_cons,
      if_neg Bool.false_ne_true, List.append_assoc]
    refine takeList_written reads (List.cons_ne_nil a as) enough (stops_newline level _) ?_ other
    rw [dropWhile_newline, List.dropWhile_cons_of_neg (by simp [no_blank])]

/-- Each item of a list is no longer than the text, and so is their number. -/
lemma length_intercalate (ls : List (List Char)) :
    ls.length ≤ ([','].intercalate ls).length + 1 ∧
      ∀ l ∈ ls, l.length ≤ ([','].intercalate ls).length := by
  induction ls with
  | nil => simp
  | cons l ls ih =>
    cases ls with
    | nil => simp [List.intercalate]
    | cons m ls =>
      have text : [','].intercalate (l :: m :: ls) = l ++ ',' :: [','].intercalate (m :: ls) := by
        simp [List.intercalate]
      simp only [text, List.length_append, List.length_cons, List.forall_mem_cons] at ih ⊢
      obtain ⟨number, first, others⟩ := ih
      exact ⟨by omega, by omega, by omega, fun k hk => by have := others k hk; omega⟩

lemma length_lines (level : Nat) (write : α → List Char) (as : List α) :
    as.length ≤ (lines level write as).length ∧
      ∀ a ∈ as, (write a).length ≤ (lines level write as).length := by
  obtain ⟨number, each⟩ := length_intercalate (as.map write)
  rw [List.length_map] at number
  cases as with
  | nil => simp [lines]
  | cons a as =>
    have feed : (newline level).toList.length = 2 * level + 1 := by simp [newline]
    simp only [lines, List.isEmpty_cons, Bool.false_eq_true, if_false, List.length_append, feed]
    refine ⟨by omega, fun b hb => ?_⟩
    have := each (write b) (List.mem_map_of_mem hb)
    omega

/-! ## Values -/

/-- The text of an item on its line. -/
def itemLine (level : Nat) (v : Json) : List Char :=
  (newline level).toList ++ (prettyAt level v).toList

/-- The text of a field on its line. -/
def fieldLine (level : Nat) (field : String × Json) : List Char :=
  (newline level).toList ++ ((quotedString field.1).toList ++
    ':' :: ' ' :: (prettyAt level field.2).toList)

lemma toList_prettyAt_arr (level : Nat) (items : List Json) : (prettyAt level (.arr items)).toList =
    '[' :: (lines level (itemLine (level + 1)) items ++ [']']) := by
  have inner : (prettyItems (level + 1) items).toList =
      [','].intercalate (items.map (itemLine (level + 1))) := by
    induction items with
    | nil => simp [prettyItems]
    | cons v vs ih => cases vs <;> simp_all [prettyItems, itemLine, List.intercalate]
  rw [prettyAt, lines]
  split <;> simp [inner]

lemma toList_prettyAt_obj (level : Nat) (fields : List (String × Json)) :
    (prettyAt level (.obj fields)).toList =
      '\x7b' :: (lines level (fieldLine (level + 1)) fields ++ ['\x7d']) := by
  have inner : (prettyFields (level + 1) fields).toList =
      [','].intercalate (fields.map (fieldLine (level + 1))) := by
    induction fields with
    | nil => simp [prettyFields]
    | cons f fs ih => cases fs <;> simp_all [prettyFields, fieldLine, List.intercalate]
  rw [prettyAt, lines]
  split <;> simp [inner]

/-- Blanks before a value are skipped. -/
lemma takeValue_blanks {t : List Char} (same : s.dropWhile isBlank = t.dropWhile isBlank)
    (fuel : Nat) : takeValue fuel s = takeValue fuel t := by
  cases fuel with
  | zero => rfl
  | succ fuel => rw [takeValue, takeValue, same]

/-- A value is read back from its text. -/
def Restored (fuel level : Nat) (v : Json) : Prop :=
  ∀ s, Stops isWordChar s → takeValue fuel ((prettyAt level v).toList ++ s) = some (v, s)

lemma Restored.item (h : Restored fuel level v) (stop : Stops isWordChar s) :
    takeValue fuel (itemLine level v ++ s) = some (v, s) := by
  rw [itemLine, List.append_assoc, takeValue_blanks (dropWhile_newline level _)]
  exact h s stop

lemma Restored.field {f : String × Json} (h : Restored fuel level f.2) (stop : Stops isWordChar s) :
    takeField (takeValue fuel) (fieldLine level f ++ s) = some (f, s) := by
  obtain ⟨body, quoted, key⟩ :=
    takeString_quoted f.1 (':' :: ' ' :: ((prettyAt level f.2).toList ++ s))
  have blank : takeValue fuel (' ' :: ((prettyAt level f.2).toList ++ s)) = some (f.2, s) :=
    (takeValue_blanks (List.dropWhile_cons_of_pos rfl) fuel).trans (h s stop)
  have line : fieldLine level f ++ s = (newline level).toList ++
      '"' :: (body ++ ':' :: ' ' :: ((prettyAt level f.2).toList ++ s)) := by
    simp [fieldLine, quoted]
  have mark : ∀ t : List Char, ('"' :: t).dropWhile isBlank = '"' :: t := fun _ => rfl
  rw [line, takeField, dropWhile_newline, mark]
  simp [key, blank]

lemma restored_integer (n : Int) (fuel level : Nat) : Restored (fuel + 1) level (.integer n) := by
  intro s stop
  have spells := Word.spells_toString n
  have number : ofWord? (toString n).toList = some (.integer n) := by
    rw [ofWord?, Word.integer?_eq_some.2 spells]
  refine takeValue_word spells.isWord.1 (fun c hc => ?_) number stop fuel
  rcases spells with ⟨digits, -⟩ | ⟨w, signed, digits, -⟩
  · exact isWordChar_of_isDigit (digits.2 c hc)
  · rcases List.mem_cons.1 (signed ▸ hc) with rfl | hc
    · rfl
    · exact isWordChar_of_isDigit (digits.2 c hc)

lemma restored_str (text : String) (fuel level : Nat) : Restored (fuel + 1) level (.str text) := by
  intro s _
  obtain ⟨body, quoted, taken⟩ := takeString_quoted text s
  have mark : ∀ t : List Char, ('"' :: t).dropWhile isBlank = '"' :: t := fun _ => rfl
  rw [prettyAt, quoted, takeValue, List.cons_append, mark]
  simp [taken]

lemma restored_arr {items : List Json} (h : ∀ v ∈ items, Restored fuel (level + 1) v)
    (enough : items.length ≤ fuel) : Restored (fuel + 1) level (.arr items) := by
  intro s _
  have taken := takeGroup_lines ']' (fun v hv _ stop => (h v hv).item stop)
    (by simp [itemLine, newline]) enough (by decide) rfl level s
  rw [toList_prettyAt_arr, List.cons_append, List.append_assoc, List.singleton_append, takeValue,
    List.dropWhile_cons_of_neg (by decide)]
  simp [taken]

lemma restored_obj {fields : List (String × Json)} (h : ∀ f ∈ fields, Restored fuel (level + 1) f.2)
    (enough : fields.length ≤ fuel) : Restored (fuel + 1) level (.obj fields) := by
  intro s _
  have taken := takeGroup_lines '\x7d' (fun f hf _ stop => (h f hf).field stop)
    (by simp [fieldLine, newline]) enough (by decide) rfl level s
  rw [toList_prettyAt_obj, List.cons_append, List.append_assoc, List.singleton_append, takeValue,
    List.dropWhile_cons_of_neg (by decide)]
  simp [taken]

/-- The length of its text is fuel enough for a value. -/
lemma Exact.restored (h : v.Exact) :
    ∀ {fuel level}, (prettyAt level v).length ≤ fuel → Restored (fuel + 1) level v := by
  induction h with
  | null =>
    intro _ _ _ s stop
    rw [prettyAt]
    exact takeValue_word (by decide) (List.all_eq_true.1 rfl) rfl stop _
  | bool b =>
    intro _ _ _ s stop
    cases b <;> rw [prettyAt] <;> exact takeValue_word (by decide) (List.all_eq_true.1 rfl) rfl stop _
  | integer n => exact fun _ => restored_integer n _ _
  | str text => exact fun _ => restored_str text _ _
  | @arr items _ ih =>
    intro fuel level enough
    rw [← String.length_toList, toList_prettyAt_arr] at enough
    obtain ⟨number, each⟩ := length_lines level (itemLine (level + 1)) items
    simp only [List.length_cons, List.length_append] at enough
    obtain ⟨fuel, rfl⟩ := Nat.exists_eq_add_of_le' (show 1 ≤ fuel by omega)
    refine restored_arr (fun v hv => ih v hv ?_) (by omega)
    have := each v hv
    simp only [itemLine, List.length_append, String.length_toList] at this
    omega
  | @obj fields _ ih =>
    intro fuel level enough
    rw [← String.length_toList, toList_prettyAt_obj] at enough
    obtain ⟨number, each⟩ := length_lines level (fieldLine (level + 1)) fields
    simp only [List.length_cons, List.length_append] at enough
    obtain ⟨fuel, rfl⟩ := Nat.exists_eq_add_of_le' (show 1 ≤ fuel by omega)
    refine restored_obj (fun f hf => ih f hf ?_) (by omega)
    have := each f hf
    simp only [fieldLine, List.length_append, List.length_cons, String.length_toList] at this
    omega

/-- A value without floating-point numbers is read back from its text with one item a line. -/
theorem parse?_pretty (h : v.Exact) : parse? v.pretty = some v := by
  have whole := h.restored (le_refl (prettyAt 0 v).length) [] (stops_nil _)
  rw [List.append_nil] at whole
  rw [parse?, pretty, whole]

end ControlFlow.Json
