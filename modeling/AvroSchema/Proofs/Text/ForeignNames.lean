import AvroSchema.Proofs.Text.EscapedNames

/-!
# Names From Elsewhere

The documents that are read need not have been written by escaping, so any text may be unescaped:
one with tokens next to each other or apart, with surrogates that have no partner, with upper-case
or short digits after an `_x`. A scan cuts such a text into stretches, from left to right:
characters at which no token begins, and runs of adjacent tokens. It is the only way to do so, and
unescaping replaces every run by what its units stand for in UTF-16 and leaves the rest alone.

* `Utf16.decodes_iff`: decoding reads characters and lone surrogates off a list of units.
* `Name.scan_iff`: the stretches of a text are those of its pieces.
* `Name.unescape_replaces_runs`: what unescaping does with any text, and when it does nothing.
-/

namespace AvroSchema

/-! ## Surrogates without a partner -/

namespace Utf16

/-- The characters that code units stand for: the units of a character stand for it, and a surrogate
that is no half of a pair stands for the replacement character. -/
inductive Decodes : List Nat → List Char → Prop
  | nil : Decodes [] []
  | char (c : Char) {units : List Nat} {cs : List Char} (rest : Decodes units cs) :
      Decodes (Utf16.units c ++ units) (c :: cs)
  | lone {unit : Nat} {units : List Nat} {cs : List Char}
      (surrogate : (isHigh unit || isLow unit) = true)
      (alone : ∀ low ∈ units.head?, (isHigh unit && isLow low) = false)
      (rest : Decodes units cs) : Decodes (unit :: units) (replacement :: cs)

theorem units_ofNat {unit : Nat} (hlt : unit < 0x10000)
    (hs : (isHigh unit || isLow unit) = false) : units (Char.ofNat unit) = [unit] := by
  have hvalid : unit.isValidChar := by
    simp only [isHigh, isLow, Bool.or_eq_false_iff, Bool.and_eq_false_iff,
      decide_eq_false_iff_not] at hs
    unfold Nat.isValidChar
    omega
  have hn : (Char.ofNat unit).toNat = unit := by
    rw [Char.ofNat, dif_pos hvalid]
    rfl
  rw [units, hn, if_pos hlt]

theorem units_pair {high low : Nat} (hhigh : isHigh high = true) (hlow : isLow low = true) :
    units (pair high low) = [high, low] := by
  simp only [isHigh, isLow, Bool.and_eq_true, decide_eq_true_eq] at hhigh hlow
  have hvalid : (0x10000 + (high - 0xD800) * 0x400 + (low - 0xDC00)).isValidChar := by
    unfold Nat.isValidChar
    omega
  have hn : (pair high low).toNat = 0x10000 + (high - 0xD800) * 0x400 + (low - 0xDC00) := by
    rw [pair, Char.ofNat, dif_pos hvalid]
    rfl
  rw [units, hn, if_neg (by omega)]
  simp only [List.cons.injEq, and_true]
  omega

/-- A unit that is not the first half of a pair stands for a character or the replacement
character. -/
theorem Decodes.single {unit : Nat} {units : List Nat} {cs : List Char} (hlt : unit < 0x10000)
    (halone : ∀ low ∈ units.head?, (isHigh unit && isLow low) = false) (h : Decodes units cs) :
    Decodes (unit :: units) (Utf16.single unit :: cs) := by
  unfold Utf16.single
  cases hs : isHigh unit || isLow unit with
  | true => exact .lone hs halone h
  | false =>
    have hchar := Decodes.char (Char.ofNat unit) h
    rwa [units_ofNat hlt hs] at hchar

/-- Decoding is all that a list of units can stand for. -/
theorem decodes_iff {units : List Nat} (hlt : ∀ unit ∈ units, unit < 0x10000) {cs : List Char} :
    Decodes units cs ↔ cs = decode units := by
  constructor
  · intro h
    clear hlt
    induction h with
    | nil => rfl
    | char c rest ih => rw [decode_units_append, ih]
    | @lone unit units cs surrogate alone rest ih =>
      -- the unit behind it is not the low half of a pair, so both decoders take it alone
      have hsingle : Utf16.single unit = replacement := by rw [Utf16.single, surrogate]; rfl
      cases units with
      | nil => rw [ih, decode, decode, hsingle]
      | cons low units => simp [decode, alone low rfl, hsingle, ih]
  · rintro rfl
    fun_induction decode units with
    | case1 => exact .nil
    | case2 unit =>
      rw [List.forall_mem_singleton] at hlt
      exact .single hlt (by simp) .nil
    | case3 high low rest hpair ih =>
      obtain ⟨hhigh, hlow⟩ := Bool.and_eq_true_iff.1 hpair
      have hchar := Decodes.char (pair high low)
        (ih fun unit hu => hlt unit (List.mem_cons_of_mem _ (List.mem_cons_of_mem _ hu)))
      rwa [units_pair hhigh hlow] at hchar
    | case4 high low rest hpair ih =>
      refine .single (hlt high List.mem_cons_self) ?_ (ih fun unit hu => ?_)
      · rintro _ ⟨⟩
        exact Bool.eq_false_iff.2 hpair
      · exact hlt unit (List.mem_cons_of_mem _ hu)

/-- There are at most as many characters as units. -/
theorem Decodes.length_le {units : List Nat} {cs : List Char} (h : Decodes units cs) :
    cs.length ≤ units.length := by
  induction h with
  | nil => exact Nat.le_refl _
  | char c rest ih =>
    have hpos : 0 < (Utf16.units c).length := by
      unfold Utf16.units
      split <;> simp
    simp only [List.length_cons, List.length_append]
    omega
  | lone _ _ _ ih => simpa using ih

end Utf16

namespace Name

/-! ## Where tokens begin -/

/-- A text begins with a token. -/
def BeginsToken (w : List Char) : Prop := ∃ t, IsToken t ∧ t <+: w

theorem isLower_of_lowerValue? {c : Char} {n : Nat} (h : Hex.lowerValue? c = some n) :
    Hex.IsLower c := by
  unfold Hex.lowerValue? at h
  split at h
  · exact Or.inl ‹_›
  split at h
  · exact Or.inr ‹_›
  · cases h

/-- Four characters that have a value make a token. -/
theorem isToken_of_tokenValue? {a b c d : Char} {unit : Nat}
    (h : tokenValue? a b c d = some unit) : IsToken ['_', 'x', a, b, c, d] := by
  simp only [tokenValue?, Option.bind_eq_bind, Option.bind_eq_some_iff] at h
  obtain ⟨_, ha, _, hb, _, hc, _, hd, -⟩ := h
  refine ⟨a, b, c, d, rfl, ?_⟩
  simp [isLower_of_lowerValue? ha, isLower_of_lowerValue? hb, isLower_of_lowerValue? hc,
    isLower_of_lowerValue? hd]

/-- A character at which no token begins is a piece of its own. -/
theorem pieces_cons_of_not_beginsToken {c : Char} {cs : List Char}
    (h : ¬ BeginsToken (c :: cs)) : pieces (c :: cs) = .char c :: pieces cs := by
  by_cases hx : ∃ a b d e rest, c = '_' ∧ cs = 'x' :: a :: b :: d :: e :: rest
  · obtain ⟨a, b, d, e, rest, rfl, rfl⟩ := hx
    rw [pieces.eq_2]
    cases hv : tokenValue? a b d e with
    | none => rfl
    | some unit =>
      have hprefix : ['_', 'x', a, b, d, e] <+: '_' :: 'x' :: a :: b :: d :: e :: rest :=
        List.prefix_append _ rest
      exact absurd ⟨_, isToken_of_tokenValue? hv, hprefix⟩ h
  · rw [pieces.eq_3]
    rintro a b d e rest rfl rfl
    exact hx ⟨a, b, d, e, rest, rfl, rfl⟩

/-! ## Stretches -/

/-- A stretch of a text: characters at which no token begins, or a run of adjacent tokens, by their
units. -/
inductive Stretch where
  | plain (text : List Char)
  | run (units : List Nat)

/-- The text of some tokens. -/
def tokens (units : List Nat) : List Char := units.flatMap token

/-- A text is scanned from left to right into stretches that are not empty. No token begins inside a
plain stretch, also not one that would reach beyond it, and two stretches of one sort are never next
to each other; so runs are as long as they can be. -/
inductive Scan : List Char → List Stretch → Prop
  | nil : Scan [] []
  | plain {text w : List Char} {ss : List Stretch} (ne_nil : text ≠ [])
      (no_token : ∀ rest ≠ [], rest <:+ text → ¬ BeginsToken (rest ++ w))
      (maximal : ∀ other, ss.head? ≠ some (.plain other)) (rest : Scan w ss) :
      Scan (text ++ w) (.plain text :: ss)
  | run {units : List Nat} {w : List Char} {ss : List Stretch} (ne_nil : units ≠ [])
      (units_lt : ∀ unit ∈ units, unit < 0x10000)
      (maximal : ∀ other, ss.head? ≠ some (.run other)) (rest : Scan w ss) :
      Scan (tokens units ++ w) (.run units :: ss)

/-- The text that a stretch stands for. -/
inductive Stretch.Means : Stretch → List Char → Prop
  | plain (text : List Char) : Stretch.Means (.plain text) text
  | run {units : List Nat} {cs : List Char} (decodes : Utf16.Decodes units cs) :
      Stretch.Means (.run units) cs

theorem Stretch.means_plain_iff {text cs : List Char} :
    Stretch.Means (.plain text) cs ↔ cs = text := by
  constructor
  · rintro ⟨⟩
    rfl
  · rintro rfl
    exact .plain cs

theorem Stretch.means_run_iff {units : List Nat} {cs : List Char} :
    Stretch.Means (.run units) cs ↔ Utf16.Decodes units cs := by
  constructor
  · rintro ⟨⟩
    assumption
  · exact .run

/-- What a stretch stands for, if the units of a run fit tokens. -/
def Stretch.meaning : Stretch → List Char
  | .plain text => text
  | .run units => Utf16.decode units

/-- The pieces of a stretch. -/
def Stretch.pieces : Stretch → List Piece
  | .plain text => text.map .char
  | .run units => units.map .unit

/-- The stretches of some pieces with a further piece before them. -/
def Stretch.cons : Piece → List Stretch → List Stretch
  | .char c, .plain text :: ss => .plain (c :: text) :: ss
  | .char c, ss => .plain [c] :: ss
  | .unit unit, .run units :: ss => .run (unit :: units) :: ss
  | .unit unit, ss => .run [unit] :: ss

/-- The stretches of some pieces. -/
def stretches (ps : List Piece) : List Stretch := ps.foldr Stretch.cons []

@[simp]
theorem stretches_cons (p : Piece) (ps : List Piece) :
    stretches (p :: ps) = Stretch.cons p (stretches ps) := rfl

theorem Stretch.cons_char {ss : List Stretch} (h : ∀ other, ss.head? ≠ some (.plain other))
    (c : Char) : Stretch.cons (.char c) ss = .plain [c] :: ss := by
  rw [Stretch.cons.eq_2]
  rintro text rest rfl
  exact h text rfl

theorem Stretch.cons_unit {ss : List Stretch} (h : ∀ other, ss.head? ≠ some (.run other))
    (unit : Nat) : Stretch.cons (.unit unit) ss = .run [unit] :: ss := by
  rw [Stretch.cons.eq_4]
  rintro units rest rfl
  exact h units rfl

/-- Characters before pieces that start with none make a plain stretch. -/
theorem stretches_chars_append {text : List Char} {ps : List Piece} (hne : text ≠ [])
    (h : ∀ other, (stretches ps).head? ≠ some (.plain other)) :
    stretches (text.map .char ++ ps) = .plain text :: stretches ps := by
  induction text with
  | nil => exact absurd rfl hne
  | cons c text ih =>
    rw [List.map_cons, List.cons_append, stretches_cons]
    cases text with
    | nil => exact Stretch.cons_char h c
    | cons d text => rw [ih (by simp), Stretch.cons]

/-- Units before pieces that start with none make a run. -/
theorem stretches_units_append {units : List Nat} {ps : List Piece} (hne : units ≠ [])
    (h : ∀ other, (stretches ps).head? ≠ some (.run other)) :
    stretches (units.map .unit ++ ps) = .run units :: stretches ps := by
  induction units with
  | nil => exact absurd rfl hne
  | cons unit units ih =>
    rw [List.map_cons, List.cons_append, stretches_cons]
    cases units with
    | nil => exact Stretch.cons_unit h unit
    | cons other units => rw [ih (by simp), Stretch.cons]

/-! ### Scanning goes piece by piece -/

/-- A character at which no token begins starts a plain stretch or goes to one. -/
theorem Scan.cons_char {c : Char} {w : List Char} {ss : List Stretch}
    (hc : ¬ BeginsToken (c :: w)) (h : Scan w ss) : Scan (c :: w) (Stretch.cons (.char c) ss) := by
  -- the first stretch takes the character in if it is plain, and ends before it otherwise
  by_cases hplain : ∃ text, ss.head? = some (.plain text)
  · obtain ⟨text, hhead⟩ := hplain
    cases h with
    | nil => cases hhead
    | run => cases hhead
    | @plain other w ss ne_nil no_token maximal rest =>
      refine .plain (List.cons_ne_nil c other) (fun more hne hsuffix => ?_) maximal rest
      rcases List.suffix_cons_iff.1 hsuffix with rfl | hsuffix
      · exact hc
      · exact no_token more hne hsuffix
  · rw [not_exists] at hplain
    rw [Stretch.cons_char hplain]
    refine .plain (List.cons_ne_nil c []) (fun more hne hsuffix => ?_) hplain h
    rcases List.suffix_cons_iff.1 hsuffix with rfl | hsuffix
    · exact hc
    · exact absurd (List.suffix_nil.1 hsuffix) hne

/-- A token starts a run or goes to one. -/
theorem Scan.cons_token {unit : Nat} {w : List Char} {ss : List Stretch} (hunit : unit < 0x10000)
    (h : Scan w ss) : Scan (token unit ++ w) (Stretch.cons (.unit unit) ss) := by
  by_cases hrun : ∃ units, ss.head? = some (.run units)
  · obtain ⟨units, hhead⟩ := hrun
    cases h with
    | nil => cases hhead
    | plain => cases hhead
    | @run others w ss ne_nil units_lt maximal rest =>
      have hmore := Scan.run (List.cons_ne_nil unit others)
        (List.forall_mem_cons.2 ⟨hunit, units_lt⟩) maximal rest
      rw [Stretch.cons]
      simpa only [tokens, List.flatMap_cons, List.append_assoc] using hmore
  · rw [not_exists] at hrun
    rw [Stretch.cons_unit hrun]
    have hone := Scan.run (List.cons_ne_nil unit []) (List.forall_mem_singleton.2 hunit) hrun h
    simpa only [tokens, List.flatMap_singleton] using hone

/-- Every text is scanned into the stretches of its pieces. -/
theorem scan_stretches (w : List Char) : Scan w (stretches (pieces w)) := by
  fun_induction pieces w with
  | case1 => exact .nil
  | case2 a b c d rest unit hv ih =>
    obtain ⟨n, hn, ht⟩ := exists_token_of_isToken (isToken_of_tokenValue? hv)
    -- the digits of a token are those of its unit
    obtain rfl : unit = n := by
      have hdigits : Hex.padded 4 n = [a, b, c, d] := by
        simpa only [token, List.cons.injEq, true_and] using ht.symm
      exact Option.some.inj (hv.symm.trans (tokenValue?_padded hn hdigits))
    have hscan := Scan.cons_token hn ih
    rwa [← ht] at hscan
  | case3 a b c d rest hv ih =>
    refine .cons_char ?_ ih
    rintro ⟨t, htoken, hprefix⟩
    obtain ⟨n, hn, rfl⟩ := exists_token_of_isToken htoken
    have hdigits : Hex.padded 4 n = [a, b, c, d] := by
      rw [token, Hex.padded_four] at hprefix
      rw [Hex.padded_four]
      simpa [List.cons_prefix_cons] using hprefix
    cases hv.symm.trans (tokenValue?_padded hn hdigits)
  | case4 c rest hx ih =>
    refine .cons_char ?_ ih
    rintro ⟨_, ⟨a, b, d, e, rfl, -⟩, after, hw⟩
    obtain ⟨rfl, rfl⟩ := List.cons.inj hw
    exact hx a b d e after rfl rfl

/-- The pieces of a text that has plain text before another text. -/
theorem pieces_plain_append {text w : List Char}
    (h : ∀ rest ≠ [], rest <:+ text → ¬ BeginsToken (rest ++ w)) :
    pieces (text ++ w) = text.map .char ++ pieces w := by
  induction text with
  | nil => rfl
  | cons c text ih =>
    have hc : ¬ BeginsToken (c :: (text ++ w)) := h (c :: text) (by simp) List.suffix_rfl
    rw [List.cons_append, pieces_cons_of_not_beginsToken hc,
      ih fun rest hne hsuffix => h rest hne (hsuffix.trans (List.suffix_cons c text))]
    rfl

theorem pieces_tokens_append {units : List Nat} (h : ∀ unit ∈ units, unit < 0x10000)
    (w : List Char) : pieces (tokens units ++ w) = units.map .unit ++ pieces w := by
  induction units with
  | nil => rfl
  | cons unit units ih =>
    obtain ⟨hunit, hunits⟩ := List.forall_mem_cons.1 h
    rw [tokens, List.flatMap_cons, List.append_assoc, pieces_token_append hunit, ← tokens,
      ih hunits]
    rfl

/-- The pieces of a scanned text are those of its stretches. -/
theorem Scan.pieces_eq {w : List Char} {ss : List Stretch} (h : Scan w ss) :
    pieces w = ss.flatMap Stretch.pieces := by
  induction h with
  | nil => rfl
  | plain _ no_token _ _ ih => rw [pieces_plain_append no_token, ih]; rfl
  | run _ units_lt _ _ ih => rw [pieces_tokens_append units_lt, ih]; rfl

/-- The stretches of a text are those of its pieces, so there is one way to scan it. -/
theorem scan_iff {w : List Char} {ss : List Stretch} : Scan w ss ↔ ss = stretches (pieces w) := by
  constructor
  · intro h
    rw [h.pieces_eq]
    induction h with
    | nil => rfl
    | plain ne_nil _ maximal _ ih =>
      rw [ih] at maximal
      rw [List.flatMap_cons, Stretch.pieces, stretches_chars_append ne_nil maximal, ← ih]
    | run ne_nil _ maximal _ ih =>
      rw [ih] at maximal
      rw [List.flatMap_cons, Stretch.pieces, stretches_units_append ne_nil maximal, ← ih]
  · rintro rfl
    exact scan_stretches w

/-! ## Unescaping stretch by stretch -/

theorem joinAfter_chars_append {text : List Char} (hne : text ≠ []) (pending : List Nat)
    (ps : List Piece) :
    joinAfter pending (text.map .char ++ ps) = Utf16.decode pending ++ text ++ joinAfter [] ps := by
  induction text generalizing pending with
  | nil => exact absurd rfl hne
  | cons c text ih =>
    cases text with
    | nil => simp [joinAfter]
    | cons d text =>
      rw [List.map_cons, List.cons_append, joinAfter, ih (by simp), Utf16.decode]
      simp

/-- A run is decoded before whatever else follows it. -/
theorem joinAfter_of_scan {w : List Char} {ss : List Stretch} (h : Scan w ss)
    (hrun : ∀ other, ss.head? ≠ some (.run other)) (pending : List Nat) :
    joinAfter pending (ss.flatMap Stretch.pieces) =
      Utf16.decode pending ++ joinAfter [] (ss.flatMap Stretch.pieces) := by
  cases h with
  | nil => simp [joinAfter, Utf16.decode]
  | plain ne_nil =>
    rw [List.flatMap_cons, Stretch.pieces, joinAfter_chars_append ne_nil,
      joinAfter_chars_append ne_nil, Utf16.decode, List.nil_append, List.append_assoc]
  | @run units => exact absurd rfl (hrun units)

/-- Unescaping replaces every stretch by its meaning. -/
theorem unescapeChars_of_scan {w : List Char} {ss : List Stretch} (h : Scan w ss) :
    unescapeChars w = ss.flatMap Stretch.meaning := by
  rw [unescapeChars, h.pieces_eq]
  induction h with
  | nil => simp [joinAfter, Utf16.decode]
  | plain ne_nil _ _ _ ih =>
    rw [List.flatMap_cons, Stretch.pieces, joinAfter_chars_append ne_nil, ih, Utf16.decode]
    rfl
  | run _ _ maximal rest ih =>
    rw [List.flatMap_cons, Stretch.pieces, joinAfter_units, List.nil_append,
      joinAfter_of_scan rest maximal, ih]
    rfl

/-- The stretches of a text stand for their meanings and for nothing else. -/
theorem Scan.forall₂_means_iff {w : List Char} {ss : List Stretch} (h : Scan w ss)
    {texts : List (List Char)} :
    List.Forall₂ Stretch.Means ss texts ↔ texts = ss.map Stretch.meaning := by
  induction h generalizing texts with
  | nil => simp
  | plain _ _ _ _ ih =>
    simp only [List.forall₂_cons_left_iff, Stretch.means_plain_iff, ih, List.map_cons,
      Stretch.meaning]
    simp
  | run _ units_lt _ _ ih =>
    simp only [List.forall₂_cons_left_iff, Stretch.means_run_iff, Utf16.decodes_iff units_lt, ih,
      List.map_cons, Stretch.meaning]
    simp

/-! ## Texts with and without tokens -/

/-- A text has a token in it. -/
def HasToken (w : List Char) : Prop := ∃ t, IsToken t ∧ t <:+: w

/-- The token of a unit is one. -/
theorem isToken_token (unit : Nat) : IsToken (token unit) := by
  refine ⟨_, _, _, _, by rw [token, Hex.padded_four], ?_⟩
  have hlower : ∀ n < 16, Hex.IsLower (Hex.digit n) := by decide
  have hdigit (n : Nat) : Hex.IsLower (Hex.digit (n % 16)) := hlower _ (Nat.mod_lt n (by decide))
  simp [hdigit]

/-- A text has tokens only in its runs. -/
theorem Scan.hasToken_iff {w : List Char} {ss : List Stretch} (h : Scan w ss) :
    HasToken w ↔ ∃ units, .run units ∈ ss := by
  constructor
  · rintro ⟨t, htoken, before, after, hw⟩
    cases h with
    | nil =>
      obtain ⟨a, b, c, d, rfl, -⟩ := htoken
      simp at hw
    | @plain text w ss _ no_token maximal rest =>
      cases rest with
      | nil =>
        -- the token would begin inside this stretch, since nothing else is there
        rw [List.append_nil, List.append_assoc] at hw
        have hne : t ++ after ≠ [] := by
          obtain ⟨a, b, c, d, rfl, -⟩ := htoken
          simp
        refine absurd ?_ (no_token (t ++ after) hne ⟨before, hw⟩)
        exact ⟨t, htoken, by simp⟩
      | @plain other => exact absurd rfl (maximal other)
      | @run units => exact ⟨units, by simp⟩
    | @run units => exact ⟨units, by simp⟩
  · rintro ⟨units, hmem⟩
    induction h with
    | nil => cases hmem
    | plain _ _ _ _ ih =>
      obtain ⟨t, htoken, hinfix⟩ := ih (by simpa using hmem)
      exact ⟨t, htoken, hinfix.trans (List.suffix_append _ _).isInfix⟩
    | @run others w ss ne_nil =>
      obtain ⟨unit, rest, rfl⟩ := List.exists_cons_of_ne_nil ne_nil
      refine ⟨token unit, isToken_token unit, [], tokens rest ++ w, ?_⟩
      simp [tokens]

/-- A text without runs is one plain stretch at most, and stands for itself. -/
theorem Scan.flatMap_meaning_of_plain {w : List Char} {ss : List Stretch} (h : Scan w ss)
    (hrun : ∀ units, .run units ∉ ss) : ss.flatMap Stretch.meaning = w := by
  induction h with
  | nil => rfl
  | plain _ _ _ _ ih =>
    rw [List.flatMap_cons, ih fun units hmem => hrun units (List.mem_cons_of_mem _ hmem)]
    rfl
  | @run units => exact absurd List.mem_cons_self (hrun units)

theorem length_tokens (units : List Nat) : (tokens units).length = 6 * units.length := by
  induction units with
  | nil => rfl
  | cons unit units ih =>
    rw [tokens, List.flatMap_cons, ← tokens, List.length_append, length_token, ih, List.length_cons]
    omega

/-- Every run is longer than what it stands for. -/
theorem Scan.length_flatMap_meaning {w : List Char} {ss : List Stretch} (h : Scan w ss) :
    (ss.flatMap Stretch.meaning).length ≤ w.length ∧
      ∀ units, .run units ∈ ss → (ss.flatMap Stretch.meaning).length < w.length := by
  induction h with
  | nil => simp
  | plain _ _ _ _ ih =>
    obtain ⟨hle, hlt⟩ := ih
    simp only [List.flatMap_cons, Stretch.meaning, List.length_append, List.mem_cons,
      reduceCtorEq, false_or]
    exact ⟨by omega, fun units hmem => by have := hlt units hmem; omega⟩
  | @run units w ss ne_nil units_lt _ _ ih =>
    obtain ⟨hle, -⟩ := ih
    have hdecodes := ((Utf16.decodes_iff units_lt).2 rfl).length_le
    have hpos : 0 < units.length := List.length_pos_iff.2 ne_nil
    simp only [List.flatMap_cons, Stretch.meaning, List.length_append, length_tokens]
    exact ⟨by omega, fun _ _ => by omega⟩

/-- Any text, escaped or not, has one scan, whose runs are decoded as UTF-16, and unescaping puts
what they stand for in their places. So it leaves exactly the texts without a token as they are, and
makes all others shorter. -/
theorem unescape_replaces_runs (name : String) :
    (∃ ss texts, (∀ other, Scan name.toList other ↔ other = ss) ∧
      (∀ others, List.Forall₂ Stretch.Means ss others ↔ others = texts) ∧
      (unescape name).toList = texts.flatten) ∧
    (unescape name = name ↔ ¬ HasToken name.toList) ∧
    (HasToken name.toList → (unescape name).length < name.length) := by
  have hscan := scan_stretches name.toList
  have hmeaning : (unescape name).toList =
      (stretches (pieces name.toList)).flatMap Stretch.meaning := by
    rw [unescape, String.toList_ofList, unescapeChars_of_scan hscan]
  -- a run stands for fewer characters than its tokens have, and a plain stretch for itself
  have hshorter : HasToken name.toList → (unescape name).length < name.length := by
    intro h
    obtain ⟨units, hmem⟩ := hscan.hasToken_iff.1 h
    rw [← String.length_toList, ← String.length_toList, hmeaning]
    exact hscan.length_flatMap_meaning.2 units hmem
  refine ⟨⟨_, _, fun _ => scan_iff, fun _ => hscan.forall₂_means_iff, ?_⟩, ⟨?_, ?_⟩, hshorter⟩
  · rw [hmeaning, List.flatMap_def]
  · intro heq h
    exact absurd (hshorter h) (by rw [heq]; exact Nat.lt_irrefl _)
  · intro h
    rw [hscan.hasToken_iff, not_exists] at h
    rw [← String.toList_inj, hmeaning]
    exact hscan.flatMap_meaning_of_plain h

/-- A pair of surrogates apart is no pair, and neither upper-case nor short digits make a token. -/
example : unescape "_xd83d_xde80_xd83d-_xde80__x0041_x00AF_x41" =
    "🚀\uFFFD-\uFFFD_A_x00AF_x41" := by decide +kernel

end Name

end AvroSchema
