import AvroSchema.Config
import AvroSchema.Proofs.Toml.QuotedStrings

/-!
# Documents of Key-Value Lines

A document that gives one key after the other its value, each on a line of its own, is read as the
table of these entries, if the keys are bare and distinct and each value is read up to the end of
its line. Strings in any form and decimal numbers of 64 bits are such values.

* `Toml.Reader.standsOnLine_quote`, `Toml.Reader.standsOnLine_toDigits`: strings and numbers.
* `Toml.Reader.statements_lines`: the statements of a document, line by line.
* `Toml.parse_lines`: the table that such a document stands for.
-/

namespace AvroSchema.Toml

namespace Reader

/-! ## Values -/

/-- The text of a value is read up to the end of its line. -/
structure StandsOnLine (text : List Char) (value : Toml) : Prop where
  /-- No blank before the value belongs to it. -/
  head : ∀ c ∈ text.head?, isBlank c = false
  read : ∀ rest, nested maxLevels (text ++ '\n' :: rest) = some (value, '\n' :: rest)

/-- A text is written with a quote at its start. -/
theorem exists_quote_eq_cons (cs : List Char) :
    ∃ q w, quote cs = q :: w ∧ (q = '"' ∨ q = '\x27') := by
  rw [quote]
  cases style cs with
  | basic => exact ⟨'"', _, rfl, Or.inl rfl⟩
  | literal => exact ⟨'\x27', _, rfl, Or.inr rfl⟩
  | multiBasic => exact ⟨'"', _, rfl, Or.inl rfl⟩
  | multiLiteral => exact ⟨'\x27', _, rfl, Or.inr rfl⟩

theorem standsOnLine_quote (s : String) : StandsOnLine (quote s.toList) (.string s) := by
  have hread (rest : List Char) :
      readString (quote s.toList ++ '\n' :: rest) = some (s.toList, '\n' :: rest) :=
    readString_quote s.toList (by simp) (by simp)
  obtain ⟨q, w, hquote, hq⟩ := exists_quote_eq_cons s.toList
  rw [hquote] at hread ⊢
  rcases hq with rfl | rfl
  · refine ⟨by simp [isBlank], fun rest => ?_⟩
    rw [List.cons_append, nested, ← List.cons_append, hread]
    simp
  · refine ⟨by simp [isBlank], fun rest => ?_⟩
    rw [List.cons_append, nested, ← List.cons_append, hread]
    simp

/-! ### Numbers -/

theorem isDigit_of_mem_toDigits {n : Nat} {c : Char} (h : c ∈ Nat.toDigits 10 n) :
    isDigit c = true := by
  have hd := Nat.isDigit_of_mem_toDigits (by decide) (by decide) h
  simpa [isDigit, Char.isDigit, Char.le_def] using hd

/-- Only zero starts with a zero. -/
theorem head?_toDigits {n : Nat} (h : 0 < n) : (Nat.toDigits 10 n).head? ≠ some '0' := by
  induction n using Nat.strongRecOn with
  | ind n ih =>
    by_cases hn : n < 10
    · have hdigits : ∀ k < 10, 0 < k → Nat.digitChar k ≠ '0' := by decide
      rw [Nat.toDigits_of_lt_base hn]
      simpa using hdigits n hn h
    · -- the first digit is that of the number without its last one
      have hten : n = 10 * (n / 10) + n % 10 := by omega
      have hfirst := ih (n / 10) (by omega) (by omega)
      obtain ⟨c, cs, hc⟩ := List.exists_cons_of_ne_nil (Nat.toDigits_ne_nil (n := n / 10) (b := 10))
      rw [hten, ← Nat.toDigits_append_toDigits (by decide) (by omega) (by omega), hc]
      rwa [hc] at hfirst

theorem value?_of_isDigit {c : Char} (h : isDigit c = true) :
    Hex.value? c = some (c.toNat - '0'.toNat) := by
  have hrange : 48 ≤ c.toNat ∧ c.toNat ≤ 57 := by
    simpa [isDigit, Char.le_def, UInt32.le_iff_toNat_le] using h
  have hupper : ¬ ('A' ≤ c ∧ c ≤ 'F') := by
    intro hc
    have hletter : 65 ≤ c.toNat := hc.1
    omega
  have hdigit : '0' ≤ c ∧ c ≤ '9' := hrange
  rw [Hex.value?, if_neg hupper, Hex.lowerValue?, if_pos hdigit]

/-- The value of decimal digits is that of the number they were written for. -/
theorem value_toDigits (n : Nat) : value 10 (Nat.toDigits 10 n) = n := by
  have hsame : ∀ (cs : List Char) (start : Nat), (∀ c ∈ cs, isDigit c = true) →
      cs.foldl (fun n d => 10 * n + (Hex.value? d).getD 0) start =
        Nat.ofDigitChars 10 cs start := by
    intro cs start hcs
    induction cs generalizing start with
    | nil => rfl
    | cons c cs ih =>
      obtain ⟨hc, hcs⟩ := List.forall_mem_cons.1 hcs
      rw [List.foldl_cons, ih _ hcs, value?_of_isDigit hc, Nat.ofDigitChars_cons]
      rfl
  rw [value, hsame _ 0 fun c => isDigit_of_mem_toDigits, Nat.ofDigitChars_ten_toDigits]

section

variable {cs : List Char} (h : ∀ c ∈ cs, isDigit c = true)
include h

theorem splitOnP_of_isDigit {mark : Char} (hmark : isDigit mark = false) :
    cs.splitOnP (· == mark) = [cs] := by
  refine List.splitOnP_eq_singleton fun c hc => ?_
  rw [beq_eq_false_iff_ne]
  rintro rfl
  rw [h _ hc] at hmark
  cases hmark

/-- Digits alone are no point in time. -/
theorem not_time_of_isDigit : isDate cs = false ∧ (isDateTime cs || isClock cs) = false := by
  have hdate : ∀ ds, (∀ c ∈ ds, isDigit c = true) → isDate ds = false := by
    intro ds hds
    rw [isDate, splitOnP_of_isDigit hds (by decide)]
  have hclock : isClock cs = false := by rw [isClock, splitOnP_of_isDigit h (by decide)]
  refine ⟨hdate cs h, ?_⟩
  rw [isDateTime, hdate _ fun c hc => h c (List.mem_of_mem_take hc), hclock]
  rfl

/-- Digits without a superfluous zero are a decimal number. -/
theorem decimal?_of_isDigit (hne : cs ≠ []) (hzero : cs.head? = some '0' → cs.length = 1) :
    decimal? cs = some cs := by
  have hgroups : digits? isDigit cs = some cs := by
    have hall : cs.all isDigit = true := List.all_eq_true.2 h
    have hsplit : cs.splitOnP (· == '_') = [cs] := splitOnP_of_isDigit h (by decide)
    simp [digits?, hsplit, hall, hne]
  rw [decimal?, hgroups]
  by_cases hhead : cs.head? = some '0'
  · simp [hhead, hzero hhead]
  · simp [hhead]

theorem sign_of_isDigit : sign cs = (false, cs) := by
  unfold sign
  split
  · cases h _ List.mem_cons_self
  · cases h _ List.mem_cons_self
  · rfl

end

/-- The decimal digits of a number have no superfluous zero. -/
theorem decimal?_toDigits (n : Nat) : decimal? (Nat.toDigits 10 n) = some (Nat.toDigits 10 n) := by
  refine decimal?_of_isDigit (fun c => isDigit_of_mem_toDigits) Nat.toDigits_ne_nil fun hzero => ?_
  rcases Nat.eq_zero_or_pos n with rfl | hn
  · rfl
  · exact absurd hzero (head?_toDigits hn)

/-- A decimal number of 64 bits is read as itself. -/
theorem integer?_toDigits {n : Nat} (h : n < 0x8000000000000000) :
    integer? (Nat.toDigits 10 n) = some (n : Int) := by
  have hdigits : ∀ c ∈ Nat.toDigits 10 n, isDigit c = true := fun c => isDigit_of_mem_toDigits
  have hdecimal := decimal?_toDigits n
  have hvalue := value_toDigits n
  have hrange : -0x8000000000000000 ≤ (n : Int) ∧ (n : Int) < 0x8000000000000000 := by omega
  generalize Nat.toDigits 10 n = ds at hdigits hdecimal hvalue
  unfold integer?
  split
  -- the letter of another base is no digit
  · cases hdigits 'x' (by simp)
  · cases hdigits 'o' (by simp)
  · cases hdigits 'b' (by simp)
  · refine Option.bind_eq_some_iff.2 ⟨n, ?_, if_pos hrange⟩
    change (decimal? (sign ds).2).map
      (fun es => if (sign ds).1 then (-value 10 es : Int) else value 10 es) = some (n : Int)
    rw [sign_of_isDigit hdigits]
    simp [hdecimal, hvalue]

theorem isWordChar_of_isDigit {c : Char} (h : isDigit c = true) : isWordChar c = true := by
  have hc : c.isDigit = true := by simpa [isDigit, Char.isDigit, Char.le_def] using h
  simp [isWordChar, Char.isAlphanum, hc]

theorem standsOnLine_toDigits {n : Nat} (h : n < 0x8000000000000000) :
    StandsOnLine (Nat.toDigits 10 n) (.integer n) := by
  -- a word of digits is neither a date nor a time, so it is read as an integer
  have hdigits : ∀ c ∈ Nat.toDigits 10 n, isDigit c = true := fun c => isDigit_of_mem_toDigits
  have hinteger := integer?_toDigits h
  obtain ⟨hdate, htime⟩ := not_time_of_isDigit hdigits
  obtain ⟨c, cs, hcons⟩ := List.exists_cons_of_ne_nil (Nat.toDigits_ne_nil (n := n) (b := 10))
  rw [hcons] at hdigits hinteger hdate htime ⊢
  have hc := hdigits c List.mem_cons_self
  have hword : ∀ d ∈ c :: cs, isWordChar d = true :=
    fun d hd => isWordChar_of_isDigit (hdigits d hd)
  have hne : ∀ d, isDigit d = false → c ≠ d := by
    rintro d hd rfl
    rw [hd] at hc
    cases hc
  refine ⟨?_, fun rest => ?_⟩
  · rintro _ ⟨⟩
    simp [isBlank, hne ' ' (by decide), hne '\t' (by decide)]
  · have hend : isWordChar '\n' = false := by decide
    have htake : ((c :: cs) ++ '\n' :: rest).takeWhile isWordChar = c :: cs := by
      rw [List.takeWhile_append_of_pos hword, List.takeWhile_cons_of_neg (by simp [hend]),
        List.append_nil]
    have hdrop : ((c :: cs) ++ '\n' :: rest).dropWhile isWordChar = '\n' :: rest := by
      rw [List.dropWhile_append_of_pos hword, List.dropWhile_cons_of_neg (by simp [hend])]
    have hread : word ((c :: cs) ++ '\n' :: rest) = some (.integer n, '\n' :: rest) := by
      rw [word, htake, hdrop]
      simp [hdate, htime, hinteger, hne 't' (by decide), hne 'f' (by decide)]
    rw [List.cons_append] at hread ⊢
    -- all other values begin with a mark, which is no digit
    unfold nested
    split
    · next heq => exact absurd (List.cons.inj heq).1 (hne '"' (by decide))
    · next heq => exact absurd (List.cons.inj heq).1 (hne '\x27' (by decide))
    · next heq => exact absurd (List.cons.inj heq).1 (hne '[' (by decide))
    · next heq => exact absurd (List.cons.inj heq).1 (hne '\x7b' (by decide))
    · exact hread

/-! ## Lines -/

/-- A key that may stand without quotes. -/
structure IsBare (key : String) : Prop where
  ne_nil : key.toList ≠ []
  keyChars : ∀ c ∈ key.toList, isKeyChar c = true

theorem isBlank_of_isKeyChar {c : Char} (h : isKeyChar c = true) : isBlank c = false := by
  unfold isBlank
  rw [Bool.or_eq_false_iff, beq_eq_false_iff_ne, beq_eq_false_iff_ne]
  constructor
  · rintro rfl
    cases h
  · rintro rfl
    cases h

theorem IsBare.exists_cons {k : String} (hk : IsBare k) :
    ∃ c cs, k.toList = c :: cs ∧ isKeyChar c = true := by
  obtain ⟨c, cs, hcons⟩ := List.exists_cons_of_ne_nil hk.ne_nil
  exact ⟨c, cs, hcons, hk.keyChars c (hcons ▸ List.mem_cons_self)⟩

theorem skipBlanks_cons {c : Char} (h : isBlank c = false) (cs : List Char) :
    skipBlanks (c :: cs) = c :: cs := List.dropWhile_cons_of_neg (by simp [h])

theorem skipBlanks_append {k : String} (hk : IsBare k) (rest : List Char) :
    skipBlanks (k.toList ++ rest) = k.toList ++ rest := by
  obtain ⟨c, cs, hcons, hc⟩ := hk.exists_cons
  rw [hcons, List.cons_append]
  exact skipBlanks_cons (isBlank_of_isKeyChar hc) _

/-- A bare key is read up to the blank behind it. -/
theorem key_of_isBare {k : String} (hk : IsBare k) (bound : Nat) (rest : List Char) :
    key (bound + 1) (k.toList ++ ' ' :: '=' :: rest) = some (([], k), '=' :: rest) := by
  have hend : isKeyChar ' ' = false := by decide
  have htake : (k.toList ++ ' ' :: '=' :: rest).takeWhile isKeyChar = k.toList := by
    rw [List.takeWhile_append_of_pos hk.keyChars, List.takeWhile_cons_of_neg (by simp [hend]),
      List.append_nil]
  have hdrop : (k.toList ++ ' ' :: '=' :: rest).dropWhile isKeyChar = ' ' :: '=' :: rest := by
    rw [List.dropWhile_append_of_pos hk.keyChars, List.dropWhile_cons_of_neg (by simp [hend])]
  obtain ⟨c, cs, hcons, hc⟩ := hk.exists_cons
  have hpart : keyPart (k.toList ++ ' ' :: '=' :: rest) = some (k, ' ' :: '=' :: rest) := by
    unfold keyPart
    split
    -- a key in quotes would start with one
    · next heq =>
      rw [hcons] at heq
      cases (List.cons.inj heq).1
      cases hc
    · next heq =>
      rw [hcons] at heq
      cases (List.cons.inj heq).1
      cases hc
    · simp [htake, hdrop, hk.ne_nil]
  rw [key, skipBlanks_append hk, hpart]
  rfl

/-- A key is given its value behind an equals sign. -/
theorem assignment_of_isBare {k : String} {text : List Char} {x : Toml} (hk : IsBare k)
    (hx : StandsOnLine text x) (rest : List Char) :
    assignment (nested maxLevels) (k.toList ++ ' ' :: '=' :: ' ' :: (text ++ '\n' :: rest)) =
      some (([], k, x), '\n' :: rest) := by
  have hkey : key maxLevels (k.toList ++ ' ' :: '=' :: ' ' :: (text ++ '\n' :: rest)) =
      some (([], k), '=' :: ' ' :: (text ++ '\n' :: rest)) := key_of_isBare hk 78 _
  have hvalue : skipBlanks (' ' :: (text ++ '\n' :: rest)) = text ++ '\n' :: rest := by
    have hblank : isBlank ' ' = true := by decide
    rw [skipBlanks, List.dropWhile_cons_of_pos hblank]
    cases text with
    | nil => rfl
    | cons c text => exact skipBlanks_cons (hx.head c rfl) _
  have hequals : skipBlanks ('=' :: ' ' :: (text ++ '\n' :: rest)) =
      '=' :: ' ' :: (text ++ '\n' :: rest) := rfl
  simp [assignment, hkey, hequals, hvalue, hx.read]

/-- A line that gives a key its value is read as an assignment. -/
theorem statement_line {k : String} {text : List Char} {x : Toml} (hk : IsBare k)
    (hx : StandsOnLine text x) (rest : List Char) :
    statement (Config.line k text ++ rest) = some (some (.assign [] k x), '\n' :: rest) := by
  have hline : Config.line k text ++ rest =
      k.toList ++ ' ' :: '=' :: ' ' :: (text ++ '\n' :: rest) := by simp [Config.line]
  have hassign := assignment_of_isBare hk hx rest
  have hblanks := skipBlanks_append hk (' ' :: '=' :: ' ' :: (text ++ '\n' :: rest))
  obtain ⟨c, cs, hcons, hc⟩ := hk.exists_cons
  rw [hline]
  rw [hcons, List.cons_append] at hassign hblanks ⊢
  have hne : ∀ d, isKeyChar d = false → c ≠ d := by
    rintro d hd rfl
    rw [hd] at hc
    cases hc
  -- neither a comment nor the end of a line nor a header begins like a key
  unfold statement
  rw [hblanks]
  split
  · next heq => cases heq
  · next heq => exact absurd (List.cons.inj heq).1 (hne '#' (by decide))
  · next heq => exact absurd (List.cons.inj heq).1 (hne '\n' (by decide))
  · next heq => exact absurd (List.cons.inj heq).1 (hne '\r' (by decide))
  · next heq => exact absurd (List.cons.inj heq).1 (hne '[' (by decide))
  · next heq => exact absurd (List.cons.inj heq).1 (hne '[' (by decide))
  · rw [hassign]
    rfl

/-- An entry of a table, with the text of its value. -/
structure Entry where
  key : String
  text : List Char
  value : Toml

/-- The line of an entry. -/
def Entry.line (e : Entry) : List Char := Config.line e.key e.text

/-- An entry is read from its line. -/
structure Entry.Readable (e : Entry) : Prop where
  key : IsBare e.key
  value : StandsOnLine e.text e.value

theorem Entry.line_ne_nil (e : Entry) : e.line ≠ [] := by simp [line, Config.line]

/-- A document of lines is read as one assignment after the other. -/
theorem statements_lines {es : List Entry} (h : ∀ e ∈ es, e.Readable) {bound : Nat}
    (hbound : es.length < bound) :
    statements bound (es.flatMap Entry.line) =
      some (es.map fun e => .assign [] e.key e.value) := by
  induction es generalizing bound with
  | nil =>
    obtain ⟨bound, rfl⟩ := Nat.exists_eq_add_one.2 hbound
    rfl
  | cons e es ih =>
    obtain ⟨bound, rfl⟩ := Nat.exists_eq_add_one.2 (Nat.zero_lt_of_lt hbound)
    obtain ⟨he, hes⟩ := List.forall_mem_cons.1 h
    have hfirst := statement_line he.key he.value (es.flatMap Entry.line)
    have hend : endLine ('\n' :: es.flatMap Entry.line) = some (es.flatMap Entry.line) := rfl
    rw [List.flatMap_cons, statements, Entry.line, hfirst]
    simp only [Option.bind_eq_bind, Option.bind_some, hend]
    -- the text ends behind the last line, or else there is a further statement
    cases es with
    | nil => rfl
    | cons next es =>
      have hmore : ((next :: es).flatMap Entry.line).isEmpty = false := by
        simp [Entry.line_ne_nil next]
      rw [hmore, ih hes (Nat.lt_of_succ_lt_succ hbound)]
      rfl

/-- An assignment to a new key is a new entry of the root table. -/
theorem step_assign {root : Entries} {k : String} (hk : root.lookup k = none) (x : Toml) :
    step ([], root) (.assign [] k x) = some ([], root ++ [(k, x)]) := by
  simp [step, descend, Reader.assign, hk]

theorem foldlM_step_assign {es : List Entry} {root : Entries}
    (hkeys : (root.map Prod.fst ++ es.map Entry.key).Nodup) :
    (es.map fun e => Statement.assign [] e.key e.value).foldlM step ([], root) =
      some ([], root ++ es.map fun e => (e.key, e.value)) := by
  induction es generalizing root with
  | nil => simp
  | cons e es ih =>
    have hnew : root.lookup e.key = none := by
      rw [List.lookup_eq_none_iff]
      intro entry hentry
      have hdisjoint := (List.nodup_append.1 hkeys).2.2 _ (List.mem_map_of_mem hentry) e.key
      simpa using (hdisjoint (by simp)).symm
    have hmore := @ih (root ++ [(e.key, e.value)]) (by simpa using hkeys)
    rw [List.map_cons, List.foldlM_cons, step_assign hnew]
    simpa using hmore

theorem length_le_length_lines (es : List Entry) :
    es.length ≤ (es.flatMap Entry.line).length := by
  induction es with
  | nil => exact Nat.le_refl _
  | cons e es ih =>
    have hpos := List.length_pos_iff.2 e.line_ne_nil
    rw [List.flatMap_cons, List.length_append, List.length_cons]
    omega

/-- A document of lines does not start with a byte order mark. -/
theorem toNat_head?_lines_ne {es : List Entry} (h : ∀ e ∈ es, e.Readable) {c : Char}
    {cs : List Char} (hcs : es.flatMap Entry.line = c :: cs) : c.toNat ≠ 0xFEFF := by
  cases es with
  | nil => cases hcs
  | cons e es =>
    obtain ⟨d, ds, hcons, hd⟩ := (h e List.mem_cons_self).key.exists_cons
    rw [List.flatMap_cons, Entry.line, Config.line, hcons] at hcs
    obtain rfl := (List.cons.inj hcs).1
    intro hmark
    have hnot : isKeyChar (Char.ofNat 0xFEFF) = false := by decide
    rw [← hmark, Char.ofNat_toNat, hd] at hnot
    cases hnot

end Reader

/-- A document of lines is the table of their entries. -/
theorem parse_lines {es : List Reader.Entry} (h : ∀ e ∈ es, e.Readable)
    (hkeys : (es.map Reader.Entry.key).Nodup) :
    parse (String.ofList (es.flatMap Reader.Entry.line)) =
      some (es.map fun e => (e.key, e.value)) := by
  have hread := Reader.statements_lines h
    (Nat.lt_add_one_of_le (Reader.length_le_length_lines es))
  have hfold := @Reader.foldlM_step_assign es [] (by simpa using hkeys)
  -- no key starts with the byte order mark, so nothing is left out at the start
  have hmark := @Reader.toNat_head?_lines_ne es h
  unfold parse
  rw [String.toList_ofList]
  generalize es.flatMap Reader.Entry.line = text at hread hmark
  cases text with
  | nil =>
    simp only [Option.bind_eq_bind]
    rw [hread, Option.bind_some, hfold]
    rfl
  | cons c cs =>
    simp only [hmark rfl, if_false, Option.bind_eq_bind]
    rw [hread, Option.bind_some, hfold]
    rfl

end AvroSchema.Toml
