import Mathlib.Data.List.DropRight
import Mathlib.Data.List.TakeDrop
import RangeCache.Proofs.Json.Grammar

/-!
# What the grammar of JSON gives is read

A reader takes the longest text that it can, so each lemma says which characters may follow: after a
number none that a number could go on with. Twice the length of a text is fuel enough for its value.
-/

namespace RangeCache.Json

/-! ### Blanks -/

theorem isBlank_eq_true_iff {c : Char} : isBlank c = true ↔ c = ' ' ∨ c = '\t' ∨ c = '\n' ∨ c = '\r' := by
  simp [isBlank, or_assoc]

theorem skipBlanks_append {b : List Char} (hb : Blanks b) (s : List Char) : skipBlanks (b ++ s) = skipBlanks s :=
  List.dropWhile_append_of_pos fun c hc => isBlank_eq_true_iff.mpr (hb c hc)

theorem skipBlanks_cons {c : Char} (hc : isBlank c = false) (s : List Char) : skipBlanks (c :: s) = c :: s := by
  simp [skipBlanks, hc]

/-! ### Strings -/

theorem hexDigit?_of {c : Char} {n : Nat} (h : HexDigit c n) : hexDigit? c = some n := by
  have small : ∀ i : Fin 16, hexDigit? ("0123456789abcdef".toList[i]) = some i.val := by decide
  have capital : ∀ i : Fin 16, hexDigit? ("0123456789ABCDEF".toList[i]) = some i.val := by decide
  rcases h with h | h <;> obtain ⟨hn, rfl⟩ := List.getElem?_eq_some_iff.mp h
  · exact small ⟨n, hn⟩
  · exact capital ⟨n, hn⟩

theorem unit?_of {a b c d : Char} {n : Nat} (h : Hex4 [a, b, c, d] n) : unit? a b c d = some n := by
  obtain ⟨h₃, h₂, h₁, h₀⟩ := h
  simp only [unit?, hexDigit?_of h₃, hexDigit?_of h₂, hexDigit?_of h₁, hexDigit?_of h₀, Option.bind_eq_bind,
    Option.bind_some, Option.pure_def, Option.some.injEq]
  omega

/-- The number of a character is no half of a surrogate pair. -/
theorem not_surrogate (c : Char) : isHigh c.toNat = false ∧ isLow c.toNat = false := by
  have hv : c.toNat < 0xd800 ∨ 0xdfff < c.toNat ∧ c.toNat < 0x110000 := c.valid
  simp only [isHigh, isLow, Bool.and_eq_false_iff, decide_eq_false_iff_not]
  omega

theorem spell_unit {n : Nat} (hh : isHigh n = false) (hl : isLow n = false) (l : List Piece) :
    spell (.unit n :: l) = (spell l).map (Char.ofNat n :: ·) := by
  cases l with
  | nil => simp [spell, hh, hl]
  | cons p r => cases p <;> simp [spell, hh, hl]

theorem spell_pair {high low : Nat} (hh : high < 0x400) (hl : low < 0x400) (l : List Piece) :
    spell (.unit (0xd800 + high) :: .unit (0xdc00 + low) :: l) =
      (spell l).map (Char.ofNat (0x10000 + high * 0x400 + low) :: ·) := by
  have h : isHigh (0xd800 + high) = true := by simp [isHigh]; omega
  have h' : isLow (0xdc00 + low) = true := by simp [isLow]; omega
  simp [spell, h, h']

/-- One spelled character gives one or two pieces, which spell it. -/
theorem pieces_char {c : Char} {w s r : List Char} {l : List Piece} (h : SpellsChar c w)
    (hs : pieces s = some (l, r)) :
    ∃ p, pieces (w ++ s) = some (p ++ l, r) ∧ spell (p ++ l) = (spell l).map (c :: ·) := by
  cases h with
  | raw hc hq hb =>
    refine ⟨[.char c], ?_, rfl⟩
    simp [pieces, hb, hs, Nat.not_lt.mpr hc]
  | escape h =>
    refine ⟨[.char c], ?_, rfl⟩
    cases h <;> simp [pieces, escaped?, hs]
  | unit h =>
    obtain ⟨hh, hl⟩ := not_surrogate c
    refine ⟨[.unit c.toNat], ?_, by simpa using spell_unit hh hl l⟩
    generalize hn : c.toNat = n at h
    have hu := h
    obtain ⟨_, _, _, _⟩ := h
    simp [pieces, unit?_of hu, hs]
  | @pair _ _ high low h h' hh hl hc =>
    refine ⟨[.unit (0xd800 + high), .unit (0xdc00 + low)], ?_, ?_⟩
    · generalize 0xd800 + high = n at h ⊢
      generalize 0xdc00 + low = n' at h' ⊢
      have hu := h
      have hu' := h'
      obtain ⟨_, _, _, _⟩ := h
      obtain ⟨_, _, _, _⟩ := h'
      simp [pieces, unit?_of hu, unit?_of hu', hs]
    · simpa [← hc, Char.ofNat_toNat] using spell_pair hh hl l

theorem pieces_chars {l w : List Char} (h : SpellsChars l w) (r : List Char) :
    ∃ p, pieces (w ++ '"' :: r) = some (p, r) ∧ spell p = some l := by
  induction h with
  | nil => exact ⟨[], rfl, rfl⟩
  | @cons c l w w' h _ ih =>
    obtain ⟨p, hp, hl⟩ := ih
    obtain ⟨q, hq, hc⟩ := pieces_char h hp
    exact ⟨q ++ p, by rw [List.append_assoc, hq], by rw [hc, hl]; rfl⟩

theorem text_of {t : String} {w : List Char} (h : SpellsChars t.toList w) (r : List Char) :
    text (w ++ '"' :: r) = some (some t, r) := by
  obtain ⟨p, hp, hl⟩ := pieces_chars h r
  simp [text, hp, hl]

/-! ### Numbers -/

/-- A text that does not start with a character that satisfies `p`. -/
def Stops (p : Char → Bool) (s : List Char) : Prop := ∀ c ∈ s.head?, p c = false

/-- The characters that a number could go on with. -/
def isNumeric (c : Char) : Bool := c.isDigit || c == '.' || c == 'e' || c == 'E'

theorem Stops.mono {p q : Char → Bool} {s : List Char} (h : Stops q s) (hpq : ∀ c, p c = true → q c = true) :
    Stops p s := by
  intro c hc
  have hq := h c hc
  cases hp : p c with
  | false => rfl
  | true => rw [hpq c hp] at hq; cases hq

theorem digits_append {d r : List Char} (hd : Digits d) (hr : Stops Char.isDigit r) :
    digits (d ++ r) = some (d, r) := by
  have hw : (d ++ r).takeWhile Char.isDigit = d ∧ (d ++ r).dropWhile Char.isDigit = r := by
    rw [List.takeWhile_append_of_pos hd.2, List.dropWhile_append_of_pos hd.2]
    cases r with
    | nil => simp
    | cons c s => simp [hr c rfl]
  unfold digits
  rw [List.span_eq_takeWhile_dropWhile, hw.1, hw.2]
  obtain ⟨hne, -⟩ := hd
  cases d with
  | nil => exact absurd rfl hne
  | cons c s => rfl

theorem Digits.exists_cons {d : List Char} (h : Digits d) : ∃ c s, d = c :: s ∧ c.isDigit = true := by
  obtain ⟨hne, hd⟩ := h
  cases d with
  | nil => exact absurd rfl hne
  | cons c s => exact ⟨c, s, rfl, hd c (by simp)⟩

theorem whole_append {w r : List Char} (hw : Whole w) (hr : Stops Char.isDigit r) :
    whole (w ++ r) = some (w, r) := by
  rcases hw with rfl | ⟨hd, h0⟩
  · rfl
  · have hdig := digits_append hd hr
    obtain ⟨c, s, rfl, -⟩ := hd.exists_cons
    have hc : c ≠ '0' := by simpa using h0
    unfold whole
    split
    · next heq => exact absurd (List.cons.inj heq).1 hc
    · exact hdig

theorem fraction_append {f r : List Char} (hf : Fraction f) (hr : Stops (fun c => c.isDigit || c == '.') r) :
    fraction (f ++ r) = some (f, r) := by
  rcases hf with rfl | ⟨d, hd, rfl⟩
  · unfold fraction
    split
    · next heq =>
      have := hr '.' (by simpa using congrArg List.head? heq)
      simp at this
    · rfl
  · have hdig := digits_append hd (hr.mono fun c hc => by simp [hc])
    simp [fraction, hdig]

theorem exponent_append {e r : List Char} (he : Exponent e) (hr : Stops isNumeric r) :
    exponent (e ++ r) = some (e, r) := by
  rcases he with rfl | ⟨e, g, d, he, hg, hd, rfl⟩
  · cases r with
    | nil => rfl
    | cons c s =>
      have hc := hr c rfl
      simp only [isNumeric, Bool.or_eq_false_iff, beq_eq_false_iff_ne] at hc
      simp [exponent, hc.1.2, hc.2]
  · have hdig := digits_append hd (hr.mono fun c hc => by simp [isNumeric, hc])
    have hsign : sign (g ++ (d ++ r)) = (g, d ++ r) := by
      obtain ⟨c, s, rfl, hc⟩ := hd.exists_cons
      rcases hg with rfl | rfl | rfl
      · unfold sign
        split
        · next heq => rw [(List.cons.inj heq).1] at hc; cases hc
        · next heq => rw [(List.cons.inj heq).1] at hc; cases hc
        · rfl
      · rfl
      · rfl
    simp [exponent, he, hsign, hdig]

theorem Exponent.stops {e r : List Char} (he : Exponent e) (hr : Stops isNumeric r) :
    Stops (fun c => c.isDigit || c == '.') (e ++ r) := by
  rcases he with rfl | ⟨e, g, d, he, -, -, rfl⟩
  · exact hr.mono fun c hc => by simp_all [isNumeric]
  · intro c hc
    obtain rfl : e = c := by simpa using hc
    rcases he with rfl | rfl <;> rfl

theorem Fraction.stops {f r : List Char} (hf : Fraction f) (hr : Stops (fun c => c.isDigit || c == '.') r) :
    Stops Char.isDigit (f ++ r) := by
  rcases hf with rfl | ⟨d, -, rfl⟩
  · exact hr.mono fun c hc => by simp [hc]
  · intro c hc
    obtain rfl : '.' = c := by simpa using hc
    rfl

theorem unsigned_append {w f e r : List Char} (hw : Whole w) (hf : Fraction f) (he : Exponent e)
    (hr : Stops isNumeric r) : unsigned (w ++ f ++ e ++ r) = some (w ++ f ++ e, r) := by
  have he' := he.stops hr
  have hf' := hf.stops he'
  simp [unsigned, whole_append hw hf', fraction_append hf he', exponent_append he hr]

theorem Whole.exists_cons {w : List Char} (h : Whole w) : ∃ c s, w = c :: s ∧ c.isDigit = true := by
  rcases h with rfl | ⟨hd, -⟩
  · exact ⟨'0', [], rfl, rfl⟩
  · exact hd.exists_cons

theorem Numeral.exists_cons {l : List Char} (h : Numeral l) :
    ∃ c s, l = c :: s ∧ (c.isDigit = true ∨ c = '-') := by
  obtain ⟨g, w, f, e, hg, hw, -, -, rfl⟩ := h
  obtain ⟨c, s, rfl, hc⟩ := hw.exists_cons
  rcases hg with rfl | rfl
  · exact ⟨c, _, rfl, .inl hc⟩
  · exact ⟨'-', _, rfl, .inr rfl⟩

theorem numeral_append {l r : List Char} (h : Numeral l) (hr : Stops isNumeric r) :
    numeral (l ++ r) = some (l, r) := by
  obtain ⟨g, w, f, e, hg, hw, hf, he, rfl⟩ := h
  have hu := unsigned_append hw hf he hr
  rcases hg with rfl | rfl
  · obtain ⟨c, s, rfl, hc⟩ := hw.exists_cons
    unfold numeral
    split
    · next heq => rw [(List.cons.inj heq).1] at hc; cases hc
    · simpa using hu
  · simpa [numeral] using hu

/-! ### Natural numbers -/

theorem head?_toDigits {n : Nat} (hn : 0 < n) : (Nat.toDigits 10 n).head? ≠ some '0' := by
  induction n using Nat.strongRecOn with
  | ind n ih =>
    rw [Nat.toDigits_eq_if (by decide)]
    split
    · next hlt =>
      have hd : ∀ i : Fin 10, i.val ≠ 0 → i.val.digitChar ≠ '0' := by decide
      simpa using hd ⟨n, hlt⟩ hn.ne'
    · next hge =>
      rw [List.head?_append_of_ne_nil _ Nat.toDigits_ne_nil]
      exact ih (n / 10) (by omega) (by omega)

/-- A natural number is written with a literal of the grammar. -/
theorem spells_ofNat (n : Nat) : Spells (.ofNat n) (toString n).toList := by
  refine .number ⟨[], Nat.toDigits 10 n, [], [], .inl rfl, ?_, .inl rfl, .inl rfl, ?_⟩
  · rcases Nat.eq_zero_or_pos n with rfl | hn
    · exact .inl rfl
    · exact .inr ⟨⟨Nat.toDigits_ne_nil, fun c hc => Nat.isDigit_of_mem_toDigits (by decide) (by decide) hc⟩,
        head?_toDigits hn⟩
  · simp

theorem digit?_of {c : Char} (hc : c.isDigit = true) : digit? c = some (c.toNat - '0'.toNat) := by
  simp only [Char.isDigit, ge_iff_le, Bool.and_eq_true, decide_eq_true_eq] at hc
  exact if_pos hc

theorem digits?_of {l : List Char} (hl : ∀ c ∈ l, c.isDigit = true) (n : Nat) :
    digits? n l = some (Nat.ofDigitChars 10 l n) := by
  induction l generalizing n with
  | nil => rfl
  | cons c l ih =>
    rw [digits?, digit?_of (hl c (by simp)), Nat.ofDigitChars_cons]
    exact ih (fun d hd => hl d (List.mem_cons_of_mem _ hd)) _

@[simp]
theorem nat?_ofNat (n : Nat) : (ofNat n).nat? = some n := by
  have hd := digits?_of (l := Nat.toDigits 10 n)
    (fun c hc => Nat.isDigit_of_mem_toDigits (by decide) (by decide) hc) 0
  simp [ofNat, nat?, hd, Nat.ofDigitChars_ten_toDigits]

theorem natBelow?_ofNat {n bound : Nat} (h : n < bound) : natBelow? bound (ofNat n) = some n := by
  simp [natBelow?, h]

@[simp]
theorem ofNat_inj {n m : Nat} : ofNat n = ofNat m ↔ n = m := by
  refine ⟨fun h => ?_, fun h => h ▸ rfl⟩
  simpa using congrArg nat? h

/-! ### Values -/

theorem Blanks.stops {b r : List Char} (hb : Blanks b) (hr : Stops isNumeric r) : Stops isNumeric (b ++ r) := by
  cases b with
  | nil => exact hr
  | cons c s =>
    intro d hd
    obtain rfl : c = d := by simpa using hd
    rcases hb c (by simp) with rfl | rfl | rfl | rfl <;> rfl

/-- A value does not start with a blank or a bracket that closes. -/
theorem Spells.exists_cons {v : Json} {w : List Char} (h : Spells v w) :
    ∃ c s, w = c :: s ∧ isBlank c = false ∧ c ≠ ']' ∧ c ≠ '\x7d' := by
  cases h with
  | number h =>
    obtain ⟨c, s, hs, hc⟩ := h.exists_cons
    refine ⟨c, s, hs, ?_⟩
    rcases hc with hc | rfl
    · refine ⟨?_, ?_, ?_⟩
      · cases hb : isBlank c with
        | false => rfl
        | true => rcases isBlank_eq_true_iff.mp hb with rfl | rfl | rfl | rfl <;> cases hc
      · rintro rfl
        cases hc
      · rintro rfl
        cases hc
    · decide
  | string h =>
    obtain ⟨-⟩ := h
    exact ⟨'"', _, rfl, by decide⟩
  | null => exact ⟨'n', _, rfl, by decide⟩
  | bool b =>
    cases b with
    | false => exact ⟨'f', _, rfl, by decide⟩
    | true => exact ⟨'t', _, rfl, by decide⟩
  | emptyArray | array => exact ⟨'[', _, rfl, by decide⟩
  | emptyObject | object => exact ⟨'\x7b', _, rfl, by decide⟩

theorem value_numeral {l r : List Char} {s : List Char} (h : Numeral l) (hs : skipBlanks s = l ++ r)
    (hr : Stops isNumeric r) (n : Nat) : value (n + 1) s = some (.number (String.ofList l), r) := by
  have hn := numeral_append h hr
  obtain ⟨c, t, rfl, hc⟩ := h.exists_cons
  unfold value
  rw [hs]
  split
  all_goals first
    | (next heq =>
        rw [(List.cons.inj heq).1] at hc
        simp at hc)
    | rw [hn]; rfl

theorem skipBlanks_skipBlanks (s : List Char) : skipBlanks (skipBlanks s) = skipBlanks s :=
  List.dropWhile_idempotent _ _

theorem value_blanks {b : List Char} (hb : Blanks b) (n : Nat) (s : List Char) : value n (b ++ s) = value n s := by
  cases n with
  | zero => simp only [value]
  | succ n => simp only [value, skipBlanks_append hb]

theorem items_skipBlanks (n : Nat) (s : List Char) : items n (skipBlanks s) = items n s := by
  cases n with
  | zero => simp only [items]
  | succ n =>
    have hv : value n (skipBlanks s) = value n s := by
      cases n with
      | zero => simp only [value]
      | succ n => simp only [value, skipBlanks_skipBlanks]
    simp only [items, hv]

theorem entries_skipBlanks (n : Nat) (s : List Char) : entries n (skipBlanks s) = entries n s := by
  cases n with
  | zero => simp only [entries]
  | succ n => simp only [entries, skipBlanks_skipBlanks]

/-- The first character of the items of an array. -/
theorem SpellsItems.exists_cons {l : List Json} {w : List Char} (h : SpellsItems l w) (r : List Char) :
    ∃ c s, skipBlanks (w ++ r) = c :: s ∧ c ≠ ']' := by
  cases h with
  | one hb h =>
    obtain ⟨c, s, rfl, hc, hne, -⟩ := h.exists_cons
    simp only [List.append_assoc, List.cons_append, skipBlanks_append hb, skipBlanks_cons hc]
    exact ⟨c, _, rfl, hne⟩
  | more hb h =>
    obtain ⟨c, s, rfl, hc, hne, -⟩ := h.exists_cons
    simp only [List.append_assoc, List.cons_append, skipBlanks_append hb, skipBlanks_cons hc]
    exact ⟨c, _, rfl, hne⟩

/-- The first character of the entries of an object. -/
theorem SpellsEntries.exists_cons {l : List (Option String × Json)} {w : List Char} (h : SpellsEntries l w)
    (r : List Char) : ∃ s, skipBlanks (w ++ r) = '"' :: s := by
  cases h with
  | one hb hk =>
    obtain ⟨-⟩ := hk
    simp only [List.append_assoc, List.cons_append, skipBlanks_append hb, skipBlanks_cons (c := '"') rfl]
    exact ⟨_, rfl⟩
  | more hb hk =>
    obtain ⟨-⟩ := hk
    simp only [List.append_assoc, List.cons_append, skipBlanks_append hb, skipBlanks_cons (c := '"') rfl]
    exact ⟨_, rfl⟩

theorem value_array {n : Nat} {s r : List Char} {l : List Json} (hl : items n s = some (l, r))
    (hs : ∃ c t, skipBlanks s = c :: t ∧ c ≠ ']') : value (n + 1) ('[' :: s) = some (.array l, r) := by
  obtain ⟨c, t, hs, hc⟩ := hs
  rw [← items_skipBlanks, hs] at hl
  simp only [value, skipBlanks_cons (c := '[') rfl, hs]
  split
  · next heq => exact absurd (List.cons.inj heq).1 hc
  · simp [hl]

theorem value_object {n : Nat} {s r : List Char} {l : List (Option String × Json)}
    (hl : entries n s = some (l, r)) (hs : ∃ t, skipBlanks s = '"' :: t) :
    value (n + 1) ('\x7b' :: s) = some (.object l, r) := by
  obtain ⟨t, hs⟩ := hs
  rw [← entries_skipBlanks, hs] at hl
  simp [value, skipBlanks_cons (c := '\x7b') rfl, hs, hl]

mutual

theorem value_of {v : Json} {w : List Char} (h : Spells v w) {r : List Char} (hr : Stops isNumeric r) {n : Nat}
    (hn : 2 * w.length ≤ n) : value n (w ++ r) = some (v, r) := by
  obtain ⟨n, rfl⟩ : ∃ m, n = m + 1 := by
    obtain ⟨c, s, rfl, -⟩ := h.exists_cons
    exact ⟨n - 1, by simp only [List.length_cons] at hn; omega⟩
  cases h with
  | null => rfl
  | bool b => cases b <;> rfl
  | @number l h =>
    have hs : skipBlanks (l.toList ++ r) = l.toList ++ r := by
      obtain ⟨c, s, hl, hc, -⟩ := (Spells.number h).exists_cons
      rw [hl, List.cons_append, skipBlanks_cons hc]
    rw [value_numeral h hs hr, String.ofList_toList]
  | string h =>
    obtain ⟨h⟩ := h
    simp [value, skipBlanks_cons (c := '"') rfl, text_of h]
  | emptyArray hb =>
    simp [value, skipBlanks_cons (c := '[') rfl, skipBlanks_append hb, skipBlanks_cons (c := ']') rfl]
  | array h =>
    rw [List.append_assoc, List.cons_append]
    refine value_array (items_of h ?_) (h.exists_cons _)
    simp only [List.length_append, List.length_cons] at hn
    omega
  | emptyObject hb =>
    simp [value, skipBlanks_cons (c := '\x7b') rfl, skipBlanks_append hb, skipBlanks_cons (c := '\x7d') rfl]
  | object h =>
    rw [List.append_assoc, List.cons_append]
    refine value_object (entries_of h ?_) (h.exists_cons _)
    simp only [List.length_append, List.length_cons] at hn
    omega

theorem items_of {l : List Json} {w : List Char} (h : SpellsItems l w) {r : List Char} {n : Nat}
    (hn : 2 * w.length + 1 ≤ n) : items n (w ++ ']' :: r) = some (l, r) := by
  obtain ⟨n, rfl⟩ : ∃ m, n = m + 1 := ⟨n - 1, by omega⟩
  cases h with
  | @one v b w b' hb h hb' =>
    have hv := value_of h (hb'.stops (r := ']' :: r) (by rintro _ ⟨⟩; rfl)) (n := n)
      (by simp only [List.length_append] at hn; omega)
    simp [items, value_blanks hb, hv, skipBlanks_append hb', skipBlanks_cons (c := ']') rfl]
  | @more v l b w b' s hb h hb' hl =>
    have hv := value_of h (hb'.stops (r := ',' :: (s ++ ']' :: r)) (by rintro _ ⟨⟩; rfl)) (n := n)
      (by simp only [List.length_append, List.length_cons] at hn; omega)
    have hr := items_of hl (r := r) (n := n) (by simp only [List.length_append, List.length_cons] at hn; omega)
    simp [items, value_blanks hb, hv, skipBlanks_append hb', skipBlanks_cons (c := ',') rfl, hr]

theorem entries_of {l : List (Option String × Json)} {w : List Char} (h : SpellsEntries l w) {r : List Char}
    {n : Nat} (hn : 2 * w.length + 1 ≤ n) : entries n (w ++ '\x7d' :: r) = some (l, r) := by
  obtain ⟨n, rfl⟩ : ∃ m, n = m + 1 := ⟨n - 1, by omega⟩
  cases h with
  | @one k v b₁ wk b₂ b₃ w b₄ hb₁ hk hb₂ hb₃ h hb₄ =>
    obtain ⟨hk⟩ := hk
    have hv := value_of h (hb₄.stops (r := '\x7d' :: r) (by rintro _ ⟨⟩; rfl)) (n := n)
      (by simp only [List.length_append, List.length_cons] at hn; omega)
    simp [entries, skipBlanks_append hb₁, skipBlanks_cons (c := '"') rfl, text_of hk, skipBlanks_append hb₂,
      skipBlanks_cons (c := ':') rfl, value_blanks hb₃, hv, skipBlanks_append hb₄, skipBlanks_cons (c := '\x7d') rfl]
  | @more k v l b₁ wk b₂ b₃ w b₄ s hb₁ hk hb₂ hb₃ h hb₄ hl =>
    obtain ⟨hk⟩ := hk
    have hv := value_of h (hb₄.stops (r := ',' :: (s ++ '\x7d' :: r)) (by rintro _ ⟨⟩; rfl)) (n := n)
      (by simp only [List.length_append, List.length_cons] at hn; omega)
    have hr := entries_of hl (r := r) (n := n) (by simp only [List.length_append, List.length_cons] at hn; omega)
    simp [entries, skipBlanks_append hb₁, skipBlanks_cons (c := '"') rfl, text_of hk, skipBlanks_append hb₂,
      skipBlanks_cons (c := ':') rfl, value_blanks hb₃, hv, skipBlanks_append hb₄, skipBlanks_cons (c := ',') rfl, hr]

end

/-- A text of a value is read as that value. -/
theorem parse_of_textOf {j : Json} {s : String} (h : TextOf j s) : parse s = some j := by
  cases h with
  | @mk b w b' hb h hb' hs =>
    have hv : value (2 * (b ++ w ++ b').length + 2) (b ++ w ++ b') = some (j, b') := by
      have hw : 2 * w.length ≤ 2 * (b ++ w ++ b').length + 2 := by
        simp only [List.length_append]
        omega
      have hv := value_of h (hb'.stops (r := []) (by rintro _ ⟨⟩)) hw
      rw [List.append_nil, ← value_blanks hb, ← List.append_assoc] at hv
      exact hv
    have hend : skipBlanks b' = [] := by simpa [skipBlanks] using skipBlanks_append hb' []
    simp only [parse, hs, hv, Option.bind_eq_bind, Option.bind_some, hend]
    rfl

end RangeCache.Json
