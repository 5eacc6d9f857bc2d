import DynamicObjects.Json.Reader
import DynamicObjects.Proofs.Documents.Erasure
import Mathlib.Data.List.DropRight

/-!
# Reading what was written

The indented text of a document is read back as the document when its numbers are whole, it nests
no deeper than the reader goes, and no object has a key twice. Whatever is read at all nests no
deeper and has no key twice, so of a text that was read only the numbers are in question.

Each piece of the writer has a lemma that says what the reader makes of it in front of any text
that may follow: `number_integerText`, `string_escaped`, `elements_lines`, `members_lines`.

* `Json.Whole`, `Json.Nests`: the documents that are read back.
* `Json.parse?_pretty`: reading what was written.
* `Json.nests_of_parse?`: how deep what is read nests.
-/

namespace DynamicObjects.Json

open Number Reader

/-! ## Whole numbers -/

/-- A text that a whole number does not go on with. -/
def EndsNumeral (text : List Char) : Prop :=
  ∀ c ∈ text.head?, c.isDigit = false ∧ c ≠ '.' ∧ c ≠ 'e' ∧ c ≠ 'E'

/-- The decimal digits of a number, as numbers. -/
def digitsOf (n : Nat) : List Nat := (Nat.toDigits 10 n).map fun c => c.toNat - '0'.toNat

variable {rest : List Char}

theorem digits_toDigits (n : Nat) (hrest : EndsNumeral rest) :
    digits (Nat.toDigits 10 n ++ rest) = (digitsOf n, rest) := by
  have hdigits : ∀ c ∈ Nat.toDigits 10 n, c.isDigit = true := fun c hc =>
    Nat.isDigit_of_mem_toDigits (by omega) (by omega) hc
  have hnone : rest.takeWhile Char.isDigit = [] ∧ rest.dropWhile Char.isDigit = rest := by
    cases rest with
    | nil => exact ⟨rfl, rfl⟩
    | cons c rest =>
      have hc := (hrest c rfl).1
      simp [hc]
  rw [digits, List.takeWhile_append_of_pos hdigits, List.dropWhile_append_of_pos hdigits, hnone.1,
    hnone.2, List.append_nil, digitsOf]

/-- A positive number does not begin with a zero. -/
theorem exists_digitsOf_cons {n : Nat} (hn : 0 < n) :
    ∃ d rest, digitsOf n = d :: rest ∧ d ≠ 0 := by
  induction n using Nat.strongRecOn with
  | ind n ih =>
    rw [digitsOf, Nat.toDigits_eq_if (by omega)]
    split
    · rename_i hlt
      have hdigit : ∀ n < 10, 0 < n → n.digitChar.toNat - '0'.toNat ≠ 0 := by decide
      exact ⟨_, [], rfl, hdigit n hlt hn⟩
    · obtain ⟨d, rest, hdigits, hd⟩ := ih (n / 10) (by omega) (by omega)
      rw [digitsOf] at hdigits
      rw [List.map_append, hdigits]
      exact ⟨d, _, rfl, hd⟩

theorem wholeDigits_toDigits (n : Nat) (hrest : EndsNumeral rest) :
    wholeDigits (Nat.toDigits 10 n ++ rest) = some (digitsOf n, rest) := by
  have hsome : someDigits (Nat.toDigits 10 n ++ rest) = some (digitsOf n, rest) := by
    have hne : digitsOf n ≠ [] := by simp [digitsOf, Nat.toDigits_ne_nil]
    rw [someDigits, digits_toDigits n hrest]
    split
    · rename_i heq
      exact absurd (Prod.mk.inj heq).1 hne
    · rfl
  rw [wholeDigits, hsome]
  rcases Nat.eq_zero_or_pos n with rfl | hn
  · rfl
  · obtain ⟨d, ds, hdigits, hd⟩ := exists_digitsOf_cons hn
    rw [hdigits]
    split
    · rename_i heq
      exact absurd (List.cons.inj (Prod.mk.inj (Option.some.inj heq)).1).1 hd
    · rfl

theorem fraction_none (hrest : EndsNumeral rest) : fraction rest = some (none, rest) := by
  cases rest with
  | nil => rfl
  | cons c rest =>
    have hc := (hrest c rfl).2.1
    unfold fraction
    split
    · rename_i heq
      exact absurd (List.cons.inj heq).1 hc
    · rfl

theorem exponent_none (hrest : EndsNumeral rest) : exponent rest = some (none, rest) := by
  cases rest with
  | nil => rfl
  | cons c rest =>
    obtain ⟨-, -, he, hE⟩ := hrest c rfl
    simp [exponent, he, hE]

theorem le_foldl_digits (word : Nat) (ds : List Nat) :
    word ≤ ds.foldl (fun n d => 10 * n + d) word := by
  induction ds generalizing word with
  | nil => exact le_refl _
  | cons d rest ih => exact le_trans (by omega) (ih (10 * word + d))

/-- Digits of a number that fits are all taken in. -/
theorem absorbDigits_of_lt {word : Nat} {ds : List Nat}
    (h : ds.foldl (fun n d => 10 * n + d) word < Nat.pow 2 64) :
    absorbDigits word ds = (ds.foldl (fun n d => 10 * n + d) word, []) := by
  induction ds generalizing word with
  | nil => rfl
  | cons d rest ih =>
    rw [List.foldl_cons] at h ⊢
    have hfits := (le_foldl_digits (10 * word + d) rest).trans_lt h
    rw [absorbDigits, Nat.mul_comm, if_pos hfits, ih h]

theorem absorbDigits_digitsOf {n : Nat} (hn : n < Nat.pow 2 64) :
    absorbDigits 0 (digitsOf n) = (n, []) := by
  have hvalue : (digitsOf n).foldl (fun n d => 10 * n + d) 0 = n := by
    rw [digitsOf, List.foldl_map]
    exact Nat.ofDigitChars_ten_toDigits
  rw [absorbDigits_of_lt (by rwa [hvalue]), hvalue]

theorem toList_integerText (n : Int) : (integerText n).toList =
    (if n < 0 then ['-'] else []) ++ Nat.toDigits 10 n.natAbs := by
  unfold integerText digitText
  split <;> simp

theorem numeral_integerText (n : Int) (hrest : EndsNumeral rest) :
    numeral ((integerText n).toList ++ rest) =
      some (⟨decide (n < 0), digitsOf n.natAbs, none, none⟩, rest) := by
  have hwhole := wholeDigits_toDigits n.natAbs hrest
  rw [toList_integerText]
  by_cases hn : n < 0
  · simp [numeral, hn, hwhole, fraction_none hrest, exponent_none hrest]
  · have hsign : ∀ text, Nat.toDigits 10 n.natAbs ++ rest ≠ '-' :: text := by
      intro text heq
      have hmem : '-' ∈ Nat.toDigits 10 n.natAbs := by
        cases hdigits : Nat.toDigits 10 n.natAbs with
        | nil => exact absurd hdigits Nat.toDigits_ne_nil
        | cons c cs =>
          rw [hdigits] at heq
          exact (List.cons.inj heq).1 ▸ List.mem_cons_self
      exact absurd (Nat.isDigit_of_mem_toDigits (by omega) (by omega) hmem) (by decide)
    rw [if_neg hn, List.nil_append, numeral]
    · simp [hn, hwhole, fraction_none hrest, exponent_none hrest]
    · exact hsign

/-- A whole number of sixty-four bits is read back. -/
theorem number_integerText {n : Int} (hn : Int64.minValue.toInt ≤ n ∧ n ≤ Int64.maxValue.toInt)
    (strictness : Strictness) (hrest : EndsNumeral rest) :
    number strictness ((integerText n).toList ++ rest) = some (.integer n, rest) := by
  have hmin : Int64.minValue.toInt = -2 ^ 63 := by decide
  have hmax : Int64.maxValue.toInt = 2 ^ 63 - 1 := by decide
  have hword : absorbDigits 0 (digitsOf n.natAbs) = (n.natAbs, []) := by
    apply absorbDigits_digitsOf
    show n.natAbs < 2 ^ 64
    omega
  have hread : Numeral.read ⟨decide (n < 0), digitsOf n.natAbs, none, none⟩ =
      some (.integer n) := by
    unfold Numeral.read
    rw [hword]
    by_cases hneg : n < 0
    · have hsmall : ¬ (n.natAbs = 0 ∨ Nat.pow 2 63 < n.natAbs) := by
        show ¬ (n.natAbs = 0 ∨ 2 ^ 63 < n.natAbs)
        omega
      have habs : -(n.natAbs : Int) = n := by omega
      simp only [hneg, hsmall, habs]
      rfl
    · have habs : (n.natAbs : Int) = n := by omega
      simp only [hneg, habs]
      rfl
  rw [number, numeral_integerText n hrest]
  simp [hread]

/-! ## Strings -/

theorem hexValue_hexDigit {n : Nat} (hn : n < 16) : hexValue (hexDigit n) = some n := by
  have hall : ∀ n < 16, hexValue (hexDigit n) = some n := by decide
  exact hall n hn

/-- The escape of a control character by its number. -/
theorem unitEscape_hexDigits {c : Char} (hc : c.toNat < 32) (rest : List Char) :
    unitEscape .strict ('0' :: '0' :: hexDigit (c.toNat / 16) :: hexDigit (c.toNat % 16) :: rest) =
      some (c, rest) := by
  have hzero : hexValue '0' = some 0 := by decide
  have hvalue : c.toNat / 16 * 16 + c.toNat % 16 = c.toNat := by omega
  have hunit : hexUnit ('0' :: '0' :: hexDigit (c.toNat / 16) :: hexDigit (c.toNat % 16) :: rest) =
      some (c.toNat, rest) := by
    simp [hexUnit, hzero, hexValue_hexDigit (show c.toNat / 16 < 16 by omega),
      hexValue_hexDigit (show c.toNat % 16 < 16 by omega), hvalue]
  have hlow : c.toNat < 0xD800 := by omega
  simp [unitEscape, hunit, hlow, Char.ofNat_toNat]

/-- A written character is read back in one step. -/
theorem stringBody_escapeChar (c : Char) (fuel : Nat) (read rest : List Char) :
    stringBody .strict (fuel + 1) read (escapeChar c ++ rest) =
      stringBody .strict fuel (c :: read) rest := by
  unfold escapeChar
  split
  · rfl
  · rfl
  · rfl
  · rfl
  · rfl
  · rename_i hquote hbackslash hnewline hreturn htab
    split
    · rename_i hc
      obtain rfl : c = Char.ofNat 8 := by rw [← hc, Char.ofNat_toNat]
      rfl
    · split
      · rename_i hc
        obtain rfl : c = Char.ofNat 12 := by rw [← hc, Char.ofNat_toNat]
        rfl
      · split
        · rename_i hc
          simp [stringBody, escape, unitEscape_hexDigits hc]
        · rename_i hc
          rw [List.singleton_append, stringBody, if_neg hc]
          · exact hquote
          · exact hbackslash

/-- The characters of a written string are read back up to its closing quote. -/
theorem stringBody_escaped (chars read rest : List Char) {fuel : Nat}
    (hfuel : chars.length < fuel) :
    stringBody .strict fuel read (chars.flatMap escapeChar ++ '"' :: rest) =
      some (chars.reverse ++ read, rest) := by
  induction chars generalizing read fuel with
  | nil =>
    cases fuel with
    | zero => cases hfuel
    | succ fuel => rfl
  | cons c chars ih =>
    cases fuel with
    | zero => cases hfuel
    | succ fuel =>
      have hrest := ih (c :: read) (Nat.lt_of_succ_lt_succ hfuel)
      rw [List.flatMap_cons, List.append_assoc, stringBody_escapeChar, hrest]
      simp

theorem length_le_length_escaped (chars : List Char) :
    chars.length ≤ (chars.flatMap escapeChar).length := by
  induction chars with
  | nil => exact le_refl _
  | cons c chars ih =>
    have hpos : 0 < (escapeChar c).length := by
      unfold escapeChar
      repeat' split
      all_goals exact Nat.succ_pos _
    rw [List.flatMap_cons, List.length_append, List.length_cons]
    omega

theorem toList_quote (s : String) :
    (quote s).toList = '"' :: (s.toList.flatMap escapeChar ++ ['"']) := by
  simp [quote]

/-- A written string is read back from after its opening quote. -/
theorem string_escaped (s : String) (rest : List Char) {fuel : Nat}
    (hfuel : (quote s).toList.length ≤ fuel) :
    Reader.string .strict fuel (s.toList.flatMap escapeChar ++ '"' :: rest) = some (s, rest) := by
  have hlength := length_le_length_escaped s.toList
  rw [toList_quote, List.length_cons, List.length_append] at hfuel
  rw [Reader.string, stringBody_escaped _ _ _ (by omega)]
  simp

/-! ## Lines -/

theorem skipBlanks_newLine (depth : Nat) (text : List Char) :
    skipBlanks ((newLine depth).toList ++ text) = skipBlanks text := by
  have hblank : ∀ c ∈ (newLine depth).toList, isBlank c = true := by
    intro c hc
    simp only [newLine, String.toList_append, String.toList_ofList, List.mem_append,
      List.mem_replicate] at hc
    rcases hc with hc | ⟨-, rfl⟩
    · obtain rfl : c = '\n' := by simpa using hc
      rfl
    · rfl
  exact List.dropWhile_append_of_pos hblank

theorem skipBlanks_of_not {c : Char} (hc : isBlank c = false) (text : List Char) :
    skipBlanks (c :: text) = c :: text := by
  simp [skipBlanks, hc]

theorem value_skipBlanks (strictness : Strictness) (fuel depth : Nat) (text : List Char) :
    value strictness fuel depth (skipBlanks text) = value strictness fuel depth text := by
  have hagain : skipBlanks (skipBlanks text) = skipBlanks text := List.dropWhile_idempotent _ _
  cases fuel with
  | zero => rfl
  | succ fuel => rw [value, hagain, value]

theorem elements_skipBlanks (strictness : Strictness) (fuel depth : Nat) (text : List Char) :
    elements strictness fuel depth (skipBlanks text) = elements strictness fuel depth text := by
  cases fuel with
  | zero => rfl
  | succ fuel => rw [elements, value_skipBlanks, elements]

theorem elements_newLine (strictness : Strictness) (fuel depth indent : Nat) (text : List Char) :
    elements strictness fuel depth ((newLine indent).toList ++ text) =
      elements strictness fuel depth text := by
  rw [← elements_skipBlanks, skipBlanks_newLine, elements_skipBlanks]

theorem members_skipBlanks (strictness : Strictness) (fuel depth : Nat) (text : List Char) :
    members strictness fuel depth (skipBlanks text) = members strictness fuel depth text := by
  have hagain : skipBlanks (skipBlanks text) = skipBlanks text := List.dropWhile_idempotent _ _
  cases fuel with
  | zero => rfl
  | succ fuel => rw [members, hagain, members]

theorem members_newLine (strictness : Strictness) (fuel depth indent : Nat) (text : List Char) :
    members strictness fuel depth ((newLine indent).toList ++ text) =
      members strictness fuel depth text := by
  rw [← members_skipBlanks, skipBlanks_newLine, members_skipBlanks]

/-- The lines after the first one of a block. -/
def laterLines (depth : Nat) (lines : List String) : List Char :=
  lines.flatMap fun line => ',' :: ((newLine depth).toList ++ line.toList)

theorem laterLines_cons (depth : Nat) (line : String) (lines : List String) :
    laterLines depth (line :: lines) =
      ',' :: ((newLine depth).toList ++ (line.toList ++ laterLines depth lines)) := by
  simp [laterLines]

theorem toList_intercalate (depth : Nat) (line : String) (lines : List String) :
    (("," ++ newLine depth).intercalate (line :: lines)).toList =
      line.toList ++ laterLines depth lines := by
  induction lines generalizing line with
  | nil => simp [laterLines]
  | cons next rest ih =>
    rw [String.intercalate_cons_cons, String.toList_append, ih next]
    simp [laterLines]

theorem toList_block_cons (depth : Nat) (opening closing line : String) (lines : List String) :
    (block depth opening closing (line :: lines)).toList =
      opening.toList ++ ((newLine (depth + 1)).toList ++ (line.toList ++
        (laterLines (depth + 1) lines ++ ((newLine depth).toList ++ closing.toList)))) := by
  simp only [block, String.toList_append, toList_intercalate, List.append_assoc]

theorem prettyItems_eq_map (depth : Nat) (items : List Json) :
    prettyItems depth items = items.map (prettyAt depth) := by
  induction items with
  | nil => rfl
  | cons item rest ih => rw [prettyItems, ih, List.map_cons]

/-- The line of an entry. -/
def entryLine (depth : Nat) (entry : String × Json) : String :=
  quote entry.1 ++ ": " ++ prettyAt depth entry.2

theorem prettyEntries_eq_map (depth : Nat) (entries : List (String × Json)) :
    prettyEntries depth entries = entries.map (entryLine depth) := by
  induction entries with
  | nil => rfl
  | cons entry rest ih => exact congrArg (entryLine depth entry :: ·) ih

theorem endsNumeral_newLine (depth : Nat) (text : List Char) :
    EndsNumeral ((newLine depth).toList ++ text) := by
  intro c hc
  obtain rfl : '\n' = c := by simpa [newLine] using hc
  decide

theorem endsNumeral_comma (text : List Char) : EndsNumeral (',' :: text) := by
  intro c hc
  obtain rfl : ',' = c := by simpa using hc
  decide

/-! ## Documents -/

/-- The numbers of a document are whole and have sixty-four bits. -/
inductive Whole : Json → Prop
  | null : Whole .null
  | boolean (b : Bool) : Whole (.boolean b)
  | integer {n : Int} (h : Int64.minValue.toInt ≤ n ∧ n ≤ Int64.maxValue.toInt) : Whole (.integer n)
  | string (s : String) : Whole (.string s)
  | array {items : List Json} (h : ∀ item ∈ items, Whole item) : Whole (.array items)
  | object {entries : Entries String Json} (h : ∀ entry ∈ entries, Whole entry.2) :
    Whole (.object entries)

/-- A document nests at most so many containers and has no key twice in an object. -/
inductive Nests : Nat → Json → Prop
  | flat {levels : Nat} {j : Json} (harray : ∀ items, j ≠ .array items)
    (hobject : ∀ entries, j ≠ .object entries) : Nests levels j
  | array {levels : Nat} {items : List Json} (h : ∀ item ∈ items, Nests levels item) :
    Nests (levels + 1) (.array items)
  | object {levels : Nat} {entries : Entries String Json} (hkeys : entries.Distinct)
    (h : ∀ entry ∈ entries, Nests levels entry.2) : Nests (levels + 1) (.object entries)

/-- What is read back is what values have in full. -/
theorem fits_of_whole {levels : Nat} {j : Json} (hwhole : j.Whole) (hnests : j.Nests levels) :
    j.Fits := by
  induction hwhole generalizing levels with
  | null => exact .null
  | boolean b => exact .boolean b
  | integer hn => exact .integer hn
  | string s => exact .string s
  | @array items _ ih =>
    cases hnests with
    | flat harray => exact absurd rfl (harray items)
    | array h => exact .array fun item hitem => ih item hitem (h item hitem)
  | @object entries _ ih =>
    cases hnests with
    | flat _ hobject => exact absurd rfl (hobject entries)
    | object hkeys h => exact .object hkeys fun entry hentry => ih entry hentry (h entry hentry)

/-- The written document is read back where so many containers more may be opened. -/
def ReadsBack (levels : Nat) (j : Json) : Prop :=
  ∀ (indent depth fuel : Nat) (rest : List Char), depth + levels ≤ nestingLimit →
    EndsNumeral rest → 2 * (prettyAt indent j).toList.length ≤ fuel →
    value .strict fuel depth ((prettyAt indent j).toList ++ rest) = some (j, rest)

/-- What begins as a number is read as one. -/
theorem value_of_numeral {c : Char} (hc : c = '-' ∨ c.isDigit = true) (strictness : Strictness)
    (fuel depth : Nat) (text : List Char) :
    value strictness (fuel + 1) depth (c :: text) = number strictness (c :: text) := by
  have hother (d : Char) (hd : d ≠ '-' ∧ d.isDigit = false) : c ≠ d := by
    rintro rfl
    simp [hd] at hc
  have hblank : isBlank c = false := by
    simp only [isBlank, Bool.or_eq_false_iff, beq_eq_false_iff_ne]
    refine ⟨⟨⟨?_, ?_⟩, ?_⟩, ?_⟩ <;> exact hother _ (by decide)
  rw [value, skipBlanks_of_not hblank]
  split
  all_goals try
    rename_i heq
    exact absurd (List.cons.inj heq).1 (hother _ (by decide))
  rfl

theorem readsBack_integer {n : Int} (hn : Int64.minValue.toInt ≤ n ∧ n ≤ Int64.maxValue.toInt)
    (levels : Nat) : ReadsBack levels (.integer n) := by
  intro indent depth fuel rest _ hrest hfuel
  rw [prettyAt] at hfuel ⊢
  obtain ⟨c, text, htext, hc⟩ : ∃ c text, (integerText n).toList = c :: text ∧
      (c = '-' ∨ c.isDigit = true) := by
    rw [toList_integerText]
    split
    · exact ⟨'-', _, rfl, .inl rfl⟩
    · cases hdigits : Nat.toDigits 10 n.natAbs with
      | nil => exact absurd hdigits Nat.toDigits_ne_nil
      | cons c cs =>
        have hmem : c ∈ Nat.toDigits 10 n.natAbs := hdigits ▸ List.mem_cons_self
        exact ⟨c, cs, rfl, .inr (Nat.isDigit_of_mem_toDigits (by omega) (by omega) hmem)⟩
  cases fuel with
  | zero => simp [htext] at hfuel
  | succ fuel =>
    rw [htext, List.cons_append, value_of_numeral hc, ← List.cons_append, ← htext]
    exact number_integerText hn .strict hrest

theorem readsBack_string (s : String) (levels : Nat) : ReadsBack levels (.string s) := by
  intro indent depth fuel rest _ _ hfuel
  rw [prettyAt] at hfuel ⊢
  cases fuel with
  | zero => simp [toList_quote] at hfuel
  | succ fuel =>
    have hlength : 0 < (quote s).toList.length := by simp [toList_quote]
    have hstring : Reader.string .strict fuel (s.toList.flatMap escapeChar ++ '"' :: rest) =
        some (s, rest) := string_escaped s rest (by omega)
    rw [toList_quote, List.cons_append, List.append_assoc, List.singleton_append, value,
      skipBlanks_of_not (by decide)]
    simp only [hstring, Option.map_some]

theorem readsBack_word (levels : Nat) :
    ReadsBack levels .null ∧ ∀ b, ReadsBack levels (.boolean b) := by
  constructor
  · intro indent depth fuel rest _ _ hfuel
    cases fuel with
    | zero => simp [prettyAt] at hfuel
    | succ fuel => simp [prettyAt, value, skipBlanks, isBlank, word]
  · intro b indent depth fuel rest _ _ hfuel
    cases fuel with
    | zero => cases b <;> simp [prettyAt] at hfuel
    | succ fuel => cases b <;> simp [prettyAt, value, skipBlanks, isBlank, word]

/-! ## Containers -/

section Containers

variable {levels depth indent outer fuel : Nat} {rest : List Char}

/-- Items after a bracket make an array. They do not begin with the closing bracket, for no
value does. -/
theorem value_of_elements {text : List Char} {items : List Json} (hdepth : depth < nestingLimit)
    (h : elements .strict fuel (depth + 1) text = some (items, rest)) :
    value .strict (fuel + 1) depth ('[' :: text) = some (.array items, rest) := by
  have hopen (text' : List Char) : skipBlanks text ≠ ']' :: text' := by
    intro hclosed
    rw [← elements_skipBlanks, hclosed] at h
    rcases fuel with _ | _ | fuel <;> cases h
  rw [value, skipBlanks_of_not (by decide)]
  simp only [Nat.not_le.mpr hdepth, and_false, if_false]
  rw [elements_skipBlanks, h, Option.map_some]

/-- Entries after a brace make an object. -/
theorem value_of_members {text : List Char} {entries : List (String × Json)}
    (hdepth : depth < nestingLimit)
    (h : members .strict fuel (depth + 1) text = some (entries, rest)) :
    value .strict (fuel + 1) depth ('\x7b' :: text) =
      some (.object (Entries.ofList entries), rest) := by
  have hopen (text' : List Char) : skipBlanks text ≠ '\x7d' :: text' := by
    intro hclosed
    rw [← members_skipBlanks, hclosed] at h
    rcases fuel with _ | fuel <;> cases h
  rw [value, skipBlanks_of_not (by decide)]
  simp only [Nat.not_le.mpr hdepth, and_false, if_false]
  rw [members_skipBlanks, h, Option.map_some]

/-- The lines of the items of an array are read back up to its bracket. -/
theorem elements_lines (hlevels : depth + levels ≤ nestingLimit) {item : Json} {items : List Json}
    (h : ∀ other ∈ item :: items, ReadsBack levels other)
    (hfuel : 2 * ((prettyAt indent item).toList.length +
      (laterLines indent (items.map (prettyAt indent))).length) + 1 ≤ fuel) :
    elements .strict fuel depth ((prettyAt indent item).toList ++
      (laterLines indent (items.map (prettyAt indent)) ++
        ((newLine outer).toList ++ ']' :: rest))) = some (item :: items, rest) := by
  induction items generalizing item fuel with
  | nil =>
    obtain ⟨fuel, rfl⟩ := Nat.exists_eq_add_one.mpr (show 0 < fuel by omega)
    have hitem := h item List.mem_cons_self indent depth fuel
      ((newLine outer).toList ++ ']' :: rest) hlevels (endsNumeral_newLine _ _) (by omega)
    have hclosed : skipBlanks ((newLine outer).toList ++ ']' :: rest) = ']' :: rest := by
      rw [skipBlanks_newLine, skipBlanks_of_not (by decide)]
    have hnone : laterLines indent ([].map (prettyAt indent)) = [] := rfl
    rw [hnone, List.nil_append, elements, hitem]
    simp [hclosed]
  | cons next items ih =>
    obtain ⟨fuel, rfl⟩ := Nat.exists_eq_add_one.mpr (show 0 < fuel by omega)
    rw [List.map_cons, laterLines_cons] at hfuel ⊢
    simp only [List.length_cons, List.length_append] at hfuel
    simp only [List.cons_append, List.append_assoc]
    have hitem := h item List.mem_cons_self indent depth fuel (',' :: ((newLine indent).toList ++
      ((prettyAt indent next).toList ++ (laterLines indent (items.map (prettyAt indent)) ++
        ((newLine outer).toList ++ ']' :: rest))))) hlevels (endsNumeral_comma _) (by omega)
    have hitems := ih (fun other hother => h other (List.mem_cons_of_mem item hother))
      (show _ ≤ fuel by omega)
    have hcomma (text : List Char) : skipBlanks (',' :: text) = ',' :: text :=
      skipBlanks_of_not (by decide) text
    rw [elements, hitem]
    simp [hcomma, elements_newLine, hitems]

theorem readsBack_array {items : List Json} (h : ∀ item ∈ items, ReadsBack levels item) :
    ReadsBack (levels + 1) (.array items) := by
  intro indent depth fuel rest hlevels _ hfuel
  have hdepth : depth < nestingLimit := by omega
  rw [prettyAt, prettyItems_eq_map] at hfuel ⊢
  cases items with
  | nil =>
    have hempty : (block indent "[" "]" ([].map (prettyAt (indent + 1)))).toList = ['[', ']'] := by
      simp [block]
    rw [hempty] at hfuel ⊢
    obtain ⟨fuel, rfl⟩ := Nat.exists_eq_add_one.mpr (show 0 < fuel by simp at hfuel; omega)
    simp [value, skipBlanks, isBlank, Nat.not_le.mpr hdepth]
  | cons item items =>
    rw [List.map_cons, toList_block_cons] at hfuel ⊢
    have hbrackets : "[".toList = ['['] ∧ "]".toList = [']'] := ⟨rfl, rfl⟩
    simp only [hbrackets, List.length_append, List.length_singleton] at hfuel
    simp only [hbrackets, List.append_assoc, List.cons_append, List.nil_append]
    obtain ⟨fuel, rfl⟩ := Nat.exists_eq_add_one.mpr (show 0 < fuel by omega)
    apply value_of_elements hdepth
    rw [elements_newLine]
    exact elements_lines (by omega) h (by omega)

theorem toList_entryLine (key : String) (j : Json) :
    (entryLine indent (key, j)).toList = '"' :: (key.toList.flatMap escapeChar ++
      '"' :: ':' :: ' ' :: (prettyAt indent j).toList) := by
  simp [entryLine, toList_quote]

/-- An entry is read back, and reading goes on after its comma or ends with its brace. -/
theorem members_entryLine {key : String} {j : Json} {text : List Char}
    (hvalue : value .strict fuel depth ((prettyAt indent j).toList ++ text) = some (j, text))
    (hfuel : (quote key).toList.length ≤ fuel) :
    members .strict (fuel + 1) depth ((entryLine indent (key, j)).toList ++ text) =
      match skipBlanks text with
      | ',' :: rest => do
        let (entries, rest) ← members .strict fuel depth rest
        return ((key, j) :: entries, rest)
      | '\x7d' :: rest => some ([(key, j)], rest)
      | _ => none := by
  have hkey := string_escaped key (':' :: ' ' :: ((prettyAt indent j).toList ++ text)) hfuel
  have hblank : value .strict fuel depth (' ' :: ((prettyAt indent j).toList ++ text)) =
      some (j, text) := by
    rw [← value_skipBlanks] at hvalue ⊢
    exact hvalue
  have hcolon (text : List Char) : skipBlanks (':' :: text) = ':' :: text :=
    skipBlanks_of_not (by decide) text
  rw [toList_entryLine]
  simp only [List.cons_append, List.append_assoc]
  rw [members, skipBlanks_of_not (by decide)]
  simp only [hkey, Option.bind_eq_bind, Option.bind_some, hcolon, hblank]
  rfl

/-- The lines of the entries of an object are read back up to its brace. -/
theorem members_lines (hlevels : depth + levels ≤ nestingLimit) {entry : String × Json}
    {entries : List (String × Json)} (h : ∀ other ∈ entry :: entries, ReadsBack levels other.2)
    (hfuel : 2 * ((entryLine indent entry).toList.length +
      (laterLines indent (entries.map (entryLine indent))).length) + 1 ≤ fuel) :
    members .strict fuel depth ((entryLine indent entry).toList ++
      (laterLines indent (entries.map (entryLine indent)) ++
        ((newLine outer).toList ++ '\x7d' :: rest))) = some (entry :: entries, rest) := by
  have hquote (entry : String × Json) :
      (quote entry.1).toList.length + (prettyAt indent entry.2).toList.length ≤
        (entryLine indent entry).toList.length := by
    simp only [entryLine, String.toList_append, List.length_append]
    omega
  induction entries generalizing entry fuel with
  | nil =>
    obtain ⟨fuel, rfl⟩ := Nat.exists_eq_add_one.mpr (show 0 < fuel by omega)
    have hlength := hquote entry
    have hvalue := h entry List.mem_cons_self indent depth fuel
      ((newLine outer).toList ++ '\x7d' :: rest) hlevels (endsNumeral_newLine _ _) (by omega)
    have hclosed : skipBlanks ((newLine outer).toList ++ '\x7d' :: rest) = '\x7d' :: rest := by
      rw [skipBlanks_newLine, skipBlanks_of_not (by decide)]
    have hnone : laterLines indent ([].map (entryLine indent)) = [] := rfl
    rw [hnone, List.nil_append, members_entryLine hvalue (by omega), hclosed]
    simp
  | cons next entries ih =>
    obtain ⟨fuel, rfl⟩ := Nat.exists_eq_add_one.mpr (show 0 < fuel by omega)
    have hlength := hquote entry
    rw [List.map_cons, laterLines_cons] at hfuel ⊢
    simp only [List.length_cons, List.length_append] at hfuel
    simp only [List.cons_append, List.append_assoc]
    have hvalue := h entry List.mem_cons_self indent depth fuel (',' :: ((newLine indent).toList ++
      ((entryLine indent next).toList ++ (laterLines indent (entries.map (entryLine indent)) ++
        ((newLine outer).toList ++ '\x7d' :: rest))))) hlevels (endsNumeral_comma _) (by omega)
    have hentries := ih (fun other hother => h other (List.mem_cons_of_mem entry hother))
      (show _ ≤ fuel by omega)
    rw [members_entryLine hvalue (by omega), skipBlanks_of_not (by decide)]
    simp [members_newLine, hentries]

theorem readsBack_object {entries : Entries String Json} (hkeys : entries.Distinct)
    (h : ∀ entry ∈ entries, ReadsBack levels entry.2) :
    ReadsBack (levels + 1) (.object entries) := by
  intro indent depth fuel rest hlevels _ hfuel
  have hdepth : depth < nestingLimit := by omega
  rw [prettyAt, prettyEntries_eq_map] at hfuel ⊢
  cases entries with
  | nil =>
    have hempty : (block indent "\x7b" "\x7d" ([].map (entryLine (indent + 1)))).toList =
        ['\x7b', '\x7d'] := by
      simp [block]
    rw [hempty] at hfuel ⊢
    obtain ⟨fuel, rfl⟩ := Nat.exists_eq_add_one.mpr (show 0 < fuel by simp at hfuel; omega)
    simp [value, skipBlanks, isBlank, Nat.not_le.mpr hdepth]
  | cons entry entries =>
    rw [List.map_cons, toList_block_cons] at hfuel ⊢
    have hbraces : "\x7b".toList = ['\x7b'] ∧ "\x7d".toList = ['\x7d'] := ⟨rfl, rfl⟩
    simp only [hbraces, List.length_append, List.length_singleton] at hfuel
    simp only [hbraces, List.append_assoc, List.cons_append, List.nil_append]
    obtain ⟨fuel, rfl⟩ := Nat.exists_eq_add_one.mpr (show 0 < fuel by omega)
    rw [← Entries.ofList_of_distinct hkeys]
    apply value_of_members hdepth
    rw [members_newLine]
    exact members_lines (by omega) h (by omega)

/-- A document of whole numbers is read back where it nests no deeper than it may. -/
theorem readsBack_of_whole {j : Json} (hwhole : j.Whole) (hnests : j.Nests levels) :
    ReadsBack levels j := by
  induction hwhole generalizing levels with
  | null => exact (readsBack_word levels).1
  | boolean b => exact (readsBack_word levels).2 b
  | integer hn => exact readsBack_integer hn levels
  | string s => exact readsBack_string s levels
  | @array items _ ih =>
    cases hnests with
    | flat harray => exact absurd rfl (harray items)
    | array h => exact readsBack_array fun item hitem => ih item hitem (h item hitem)
  | @object entries _ ih =>
    cases hnests with
    | flat _ hobject => exact absurd rfl (hobject entries)
    | object hkeys h =>
      exact readsBack_object hkeys fun entry hentry => ih entry hentry (h entry hentry)

end Containers

/-- **What is written is read back.** The indented text of a document of whole numbers, with an
end of line after it, is the text of that document. -/
theorem parse?_pretty {j : Json} (hwhole : j.Whole) (hnests : j.Nests nestingLimit) :
    parse? (j.pretty ++ "\n") = some j := by
  have htext : (j.pretty ++ "\n").toList = (prettyAt 0 j).toList ++ ['\n'] := by simp [pretty]
  have hends : EndsNumeral ['\n'] := by
    intro c hc
    obtain rfl : '\n' = c := by simpa using hc
    decide
  have hfuel : 2 * (prettyAt 0 j).toList.length ≤ steps ((prettyAt 0 j).toList ++ ['\n']) := by
    rw [steps, List.length_append]
    omega
  have hread := readsBack_of_whole hwhole hnests 0 0 _ _ (by omega) hends hfuel
  rw [parse?, htext, hread]
  rfl

/-! ## What is read -/

theorem nests_number {strictness : Strictness} {text : List Char} {j : Json}
    (h : number strictness text = some (j, rest)) (levels : Nat) : j.Nests levels := by
  obtain ⟨⟨n, rest'⟩, -, h⟩ := Option.bind_eq_some_iff.mp h
  dsimp only at h
  split at h
  · cases h
    exact .flat nofun nofun
  · cases h
    exact .flat nofun nofun
  · split at h
    · cases h
      exact .flat nofun nofun
    · cases h

/-- What is read in so many steps nests no deeper than it may and has no key twice. -/
structure ReadNests (fuel : Nat) : Prop where
  value {depth : Nat} {text rest : List Char} {j : Json}
    (h : Reader.value .strict fuel depth text = some (j, rest)) : j.Nests (nestingLimit - depth)
  elements {depth : Nat} {text rest : List Char} {items : List Json}
    (h : Reader.elements .strict fuel depth text = some (items, rest)) :
    ∀ item ∈ items, item.Nests (nestingLimit - depth)
  members {depth : Nat} {text rest : List Char} {entries : List (String × Json)}
    (h : Reader.members .strict fuel depth text = some (entries, rest)) :
    ∀ entry ∈ entries, entry.2.Nests (nestingLimit - depth)

namespace ReadNests

variable {fuel depth : Nat} {text : List Char}

theorem value_succ (ih : ReadNests fuel) {j : Json}
    (h : Reader.value .strict (fuel + 1) depth text = some (j, rest)) :
    j.Nests (nestingLimit - depth) := by
  have hdeeper (h : ¬ (Strictness.strict = .strict ∧ nestingLimit ≤ depth)) :
      nestingLimit - depth = nestingLimit - (depth + 1) + 1 := by
    simp only [true_and] at h
    omega
  rw [Reader.value] at h
  split at h
  · -- an array
    split at h
    · cases h
    · rename_i hdepth
      rw [hdeeper hdepth]
      split at h
      · cases h
        exact .array (by simp)
      · obtain ⟨⟨items, rest'⟩, hitems, heq⟩ := Option.map_eq_some_iff.mp h
        cases heq
        exact .array (ih.elements hitems)
  · -- an object
    split at h
    · cases h
    · rename_i hdepth
      rw [hdeeper hdepth]
      split at h
      · cases h
        exact .object List.nodup_nil (by simp)
      · obtain ⟨⟨entries, rest'⟩, hentries, heq⟩ := Option.map_eq_some_iff.mp h
        cases heq
        exact .object (Entries.distinct_ofList entries) fun entry hentry =>
          ih.members hentries entry (Entries.mem_of_mem_ofList hentry)
  iterate 4
    · -- a string or a word
      obtain ⟨_, -, heq⟩ := Option.map_eq_some_iff.mp h
      cases heq
      exact .flat nofun nofun
  · exact nests_number h _

theorem elements_succ (ih : ReadNests fuel) {items : List Json}
    (h : Reader.elements .strict (fuel + 1) depth text = some (items, rest)) :
    ∀ item ∈ items, item.Nests (nestingLimit - depth) := by
  rw [Reader.elements] at h
  obtain ⟨⟨item, rest'⟩, hitem, h⟩ := Option.bind_eq_some_iff.mp h
  have hfirst := ih.value hitem
  dsimp only at h
  split at h
  · obtain ⟨⟨others, rest''⟩, hothers, h⟩ := Option.bind_eq_some_iff.mp h
    cases h
    exact List.forall_mem_cons.mpr ⟨hfirst, ih.elements hothers⟩
  · cases h
    exact List.forall_mem_singleton.mpr hfirst
  · cases h

theorem members_succ (ih : ReadNests fuel) {entries : List (String × Json)}
    (h : Reader.members .strict (fuel + 1) depth text = some (entries, rest)) :
    ∀ entry ∈ entries, entry.2.Nests (nestingLimit - depth) := by
  rw [Reader.members] at h
  split at h
  · obtain ⟨⟨key, rest'⟩, -, h⟩ := Option.bind_eq_some_iff.mp h
    dsimp only at h
    split at h
    · obtain ⟨⟨item, rest'⟩, hitem, h⟩ := Option.bind_eq_some_iff.mp h
      have hfirst := ih.value hitem
      dsimp only at h
      split at h
      · obtain ⟨⟨others, rest''⟩, hothers, h⟩ := Option.bind_eq_some_iff.mp h
        cases h
        exact List.forall_mem_cons.mpr ⟨hfirst, ih.members hothers⟩
      · cases h
        exact List.forall_mem_singleton.mpr hfirst
      · cases h
    · cases h
  · cases h

end ReadNests

theorem readNests (fuel : Nat) : ReadNests fuel := by
  induction fuel with
  | zero => exact ⟨nofun, nofun, nofun⟩
  | succ fuel ih => exact ⟨ih.value_succ, ih.elements_succ, ih.members_succ⟩

/-- A text that is read has the document in full view: it nests no deeper than it may, and has
no key twice. -/
theorem nests_of_parse? {text : String} {j : Json} (h : parse? text = some j) :
    j.Nests nestingLimit := by
  rw [parse?] at h
  split at h
  · rename_i hread
    split at h
    · cases h
      exact (readNests _).value hread
    · cases h
  · cases h

end DynamicObjects.Json
