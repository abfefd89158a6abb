import CouncilLedger.Proofs.Json.Layout
import CouncilLedger.Toml.Printer
import Mathlib.Data.List.Basic
import Mathlib.Data.Nat.Digits.Defs

/-!
# TOML keys and scalars read back

A key of bare characters and a value that fits on one line are read back as they
were written, up to the end of the line. This holds of whole numbers from 0 on,
of strings that need no escapes, and of the empty array.
-/

namespace CouncilLedger.Toml

/-! ## Bare characters -/

/-- A character that stands for itself in a basic string. -/
def IsSimple (c : Char) : Prop :=
  isPlain c = true ∧ c ≠ '\t' ∧ c ≠ '"' ∧ c ≠ '\\'

instance : DecidablePred IsSimple := fun c =>
  inferInstanceAs (Decidable (isPlain c = true ∧ c ≠ '\t' ∧ c ≠ '"' ∧ c ≠ '\\'))

/-- The characters that mean something in a text around the keys. -/
def marks : List Char :=
  ['[', ']', '.', '=', '"', '\'', '#', '\n', '\r', '\uFEFF']

theorem toNat_lt_of_isBare {c : Char} (h : isBare c = true) :
    c.toNat < 128 := by
  have hclass :
      (c.isUpper || c.isLower || c.isDigit || c == '_' || c == '-') = true := h
  simp only [Bool.or_eq_true, beq_iff_eq] at hclass
  obtain (((hupper | hlower) | hdigit) | rfl) | rfl := hclass
  · have hle : c.val ≤ 'Z'.val := (of_decide_eq_true hupper).2
    exact Nat.lt_of_le_of_lt hle (by decide)
  · have hle : c.val ≤ 'z'.val :=
      of_decide_eq_true (Bool.and_eq_true_iff.mp hlower).2
    exact Nat.lt_of_le_of_lt hle (by decide)
  · have hle : c.val ≤ '9'.val :=
      of_decide_eq_true (Bool.and_eq_true_iff.mp hdigit).2
    exact Nat.lt_of_le_of_lt hle (by decide)
  · decide
  · decide

theorem isBare_spec {c : Char} (h : isBare c = true) :
    isBlank c = false ∧ c ∉ marks ∧ IsSimple c := by
  have hall :
      ∀ n < 128, isBare (Char.ofNat n) = true →
        isBlank (Char.ofNat n) = false ∧ Char.ofNat n ∉ marks ∧
          IsSimple (Char.ofNat n) := by
    decide
  have hspec := hall c.toNat (toNat_lt_of_isBare h)
  rw [Char.ofNat_toNat] at hspec
  exact hspec h

/-- A text that does not begin with a blank. -/
theorem skipBlanks_cons {c : Char} (h : isBlank c = false) (s : List Char) :
    skipBlanks (c :: s) = c :: s := by
  rw [skipBlanks, List.dropWhile_cons_of_neg (by simp [h])]

/-! ## Keys -/

/-- A key that is written without quotes. -/
def IsBareKey (key : String) : Prop :=
  (!key.isEmpty && key.toList.all isBare) = true

instance : DecidablePred IsBareKey :=
  fun _ => inferInstanceAs (Decidable (_ = true))

variable {key : String}

theorem renderKey_of_bare (h : IsBareKey key) :
    renderKey key = key.toList := if_pos h

theorem IsBareKey.isBare (h : IsBareKey key) :
    ∀ c ∈ key.toList, isBare c = true :=
  List.all_eq_true.mp (Bool.and_eq_true_iff.mp h).2

/-- A bare key begins with a bare character. -/
theorem IsBareKey.exists_cons (h : IsBareKey key) :
    ∃ c cs, key.toList = c :: cs ∧ Toml.isBare c = true := by
  cases hkey : key.toList with
  | nil =>
    have hempty : key = "" := String.toList_injective hkey
    subst hempty
    cases h
  | cons c cs => exact ⟨c, cs, rfl, h.isBare c (hkey ▸ List.mem_cons_self)⟩

/-- A bare key is read up to the character behind it. -/
theorem readKeyPart_bare (h : IsBareKey key) {c : Char} (hc : isBare c = false)
    (s : List Char) :
    readKeyPart (key.toList ++ c :: s) = some (key, c :: s) := by
  obtain ⟨d, ds, hkey, hd⟩ := h.exists_cons
  obtain ⟨-, hmarks, -⟩ := isBare_spec hd
  have htake : (key.toList ++ c :: s).takeWhile isBare = key.toList := by
    rw [List.takeWhile_append_of_pos h.isBare, List.takeWhile_cons_of_neg
      (by simp [hc]), List.append_nil]
  have hdrop : (key.toList ++ c :: s).dropWhile isBare = c :: s := by
    rw [List.dropWhile_append_of_pos h.isBare, List.dropWhile_cons_of_neg
      (by simp [hc])]
  unfold readKeyPart
  split
  · next heq =>
    rw [hkey] at heq
    cases heq
    exact absurd (by decide) hmarks
  · next heq =>
    rw [hkey] at heq
    cases heq
    exact absurd (by decide) hmarks
  · have hsome : key.toList.isEmpty = false := by rw [hkey]; rfl
    simp only [htake, hdrop, hsome, String.ofList_toList]
    rfl

/-- A bare key is read with the blanks behind it, unless there is a dot. -/
theorem readKey_bare (h : IsBareKey key) {c d : Char} {s after : List Char}
    (hc : isBare c = false) (hafter : skipBlanks (c :: s) = d :: after)
    (hd : d ≠ '.') :
    readKey (key.toList ++ c :: s) = some (([], key), d :: after) := by
  have hskip : skipBlanks (key.toList ++ c :: s) = key.toList ++ c :: s := by
    obtain ⟨e, es, hkey, he⟩ := h.exists_cons
    rw [hkey]
    exact skipBlanks_cons (isBare_spec he).1 _
  have hparts :
      readKeyParts nestingLimit (key.toList ++ c :: s) =
        some ([key], d :: after) := by
    rw [nestingLimit, readKeyParts, hskip, readKeyPart_bare h hc]
    simp only [Option.bind_eq_bind, Option.bind_some, hafter]
    split
    · next heq =>
      cases heq
      exact absurd rfl hd
    · rfl
  rw [readKey, hparts]
  rfl

/-! ## Values on one line -/

/-- A value that is written on one line and read back from it. -/
structure IsInline (v : Toml) : Prop where
  unblank : ∀ s, skipBlanks (renderValue v ++ s) = renderValue v ++ s
  reads : ∀ fuel s, 2 ≤ fuel → readValue fuel nestingLimit
    (renderValue v ++ '\n' :: s) = some (v, '\n' :: s)

/-- The empty array is written on one line. -/
theorem isInline_nil : IsInline (arr []) := by
  refine ⟨fun _ => rfl, ?_⟩
  intro fuel s hfuel
  obtain ⟨fuel, rfl⟩ := Nat.exists_eq_add_of_le' hfuel
  simp [renderValue, nestingLimit, readValue, readItems, skipGap, isBlank]

/-! ### Strings -/

theorem IsSimple.isControl {c : Char} (h : IsSimple c) :
    isControl c = false := by
  simp [Toml.isControl, h.1]

theorem IsSimple.ne {c d : Char} (h : IsSimple c) (hd : ¬ IsSimple d) : c ≠ d :=
  fun heq => hd (heq ▸ h)

theorem IsSimple.escapeBasic {c : Char} (h : IsSimple c) :
    escapeBasic false c = [c] := by
  rw [Toml.escapeBasic, if_neg (h.ne (by decide)), if_neg (h.ne (by decide)),
    if_neg (h.ne (by decide)), if_neg (h.ne (by decide)),
    if_neg (h.ne (by decide)), if_neg (h.ne (by decide)), h.isControl]
  rfl

variable {s : List Char}

theorem quoting_of_simple (h : ∀ c ∈ s, IsSimple c) : quoting s = .basic := by
  have hcontrol : s.any isControl = false :=
    List.any_eq_false.mpr fun c hc => by
    rw [(h c hc).isControl]
    exact Bool.false_ne_true
  have hwithout : ∀ d, ¬ IsSimple d → s.contains d = false := fun d hd => by
    rw [List.contains_eq_mem, decide_eq_false_iff_not]
    exact fun hmem => hd (h d hmem)
  simp only [quoting, hcontrol, hwithout '\\' (by decide),
    hwithout '\n' (by decide), hwithout '"' (by decide)]
  rfl

theorem renderBasic_of_simple (h : ∀ c ∈ s, IsSimple c) :
    renderBasic false 0 s = s := by
  induction s with
  | nil => rfl
  | cons c s ih =>
    rw [List.forall_mem_cons] at h
    rw [renderBasic, if_neg (h.1.ne (by decide)), h.1.escapeBasic, ih h.2]
    rfl

theorem renderString_of_simple (h : ∀ c ∈ s, IsSimple c) :
    renderString s = '"' :: (s ++ ['"']) := by
  rw [renderString, quoting_of_simple h]
  simp only [renderBasic_of_simple h]

theorem readBasic_of_simple (h : ∀ c ∈ s, IsSimple c) (rest : List Char) :
    readBasic (s ++ '"' :: rest) = some (s, rest) := by
  induction s with
  | nil => rw [List.nil_append, readBasic]
  | cons c s ih =>
    rw [List.forall_mem_cons] at h
    have hquote : c ≠ '"' := h.1.ne (by decide)
    have hslash : c ≠ '\\' := h.1.ne (by decide)
    rw [List.cons_append, readBasic, if_pos h.1.1, ih h.2]
    · rfl
    all_goals simp [hquote, hslash]

/-- A string of characters that need no escapes is written on one line. -/
theorem isInline_str {s : String} (h : ∀ c ∈ s.toList, IsSimple c) :
    IsInline (str s) := by
  have hrender : renderValue (str s) = '"' :: (s.toList ++ ['"']) := by
    rw [renderValue, renderString_of_simple h]
  refine ⟨fun rest => by rw [hrender]; exact skipBlanks_cons rfl _, ?_⟩
  intro fuel rest hfuel
  obtain ⟨fuel, rfl⟩ := Nat.exists_eq_add_of_le' hfuel
  have hstring : readString ('"' :: (s.toList ++ '"' :: '\n' :: rest)) =
      some (s, '\n' :: rest) := by
    have hbasic : readString ('"' :: (s.toList ++ '"' :: '\n' :: rest)) =
        (readBasic (s.toList ++ '"' :: '\n' :: rest)).map fun r =>
        (String.ofList r.1, r.2) := by
      cases hs : s.toList with
      | nil => rfl
      | cons c cs =>
        have hc : c ≠ '"' := (h c (hs ▸ List.mem_cons_self)).ne (by decide)
        simp [readString, hc]
    rw [hbasic, readBasic_of_simple h, Option.map_some, String.ofList_toList]
  rw [hrender, List.cons_append, List.append_assoc]
  simp [readValue, hstring]

/-! ### Whole numbers -/

section Numerals

open Json (isDigit_of_mem_toDigits head?_toDigits_ne_zero)

/-- Digits are read up to the end of their line. -/
theorem digitRun_digits {ds : List Char} (h : ∀ c ∈ ds, c.isDigit = true)
    (rest : List Char) :
    digitRun Char.isDigit (ds ++ '\n' :: rest) = (ds, '\n' :: rest) := by
  induction ds with
  | nil => simp [digitRun]
  | cons d ds ih =>
    rw [List.forall_mem_cons] at h
    have hd : d ≠ '_' := by
      rintro rfl
      exact absurd h.1 (by decide)
    rw [List.cons_append, digitRun, if_pos h.1, ih h.2]
    simp [hd]

theorem wholePart?_toDigits (n : Nat) (rest : List Char) :
    wholePart? (Nat.toDigits 10 n ++ '\n' :: rest) =
      some (Nat.toDigits 10 n, '\n' :: rest) := by
  rcases Nat.eq_zero_or_pos n with rfl | hn
  · rfl
  · have hzero := head?_toDigits_ne_zero hn
    have hdigits : ∀ c ∈ Nat.toDigits 10 n, c.isDigit = true :=
      fun _ => isDigit_of_mem_toDigits
    cases hds : Nat.toDigits 10 n with
    | nil => exact absurd hds Nat.toDigits_ne_nil
    | cons d ds =>
      rw [hds] at hzero hdigits
      have hread := digitRun_digits hdigits rest
      rw [List.cons_append] at hread ⊢
      have hd : d ≠ '0' := fun heq => hzero (congrArg some heq)
      simp [wholePart?, hd, digits?, hdigits d List.mem_cons_self, hread]

theorem numberOf_toDigits (n : Nat) : numberOf 10 (Nat.toDigits 10 n) = n := by
  have hvalue :
      ∀ m, ∀ c ∈ Nat.toDigits 10 n,
        10 * m + (Text.digitValue? c).getD 0 =
          10 * m + (c.toNat - '0'.toNat) := by
    intro m c hc
    have hdigit := isDigit_of_mem_toDigits hc
    simp only [Char.isDigit, Bool.and_eq_true, decide_eq_true_eq] at hdigit
    rw [Text.digitValue?, if_pos (show '0' ≤ c ∧ c ≤ '9' from hdigit)]
    rfl
  have hdecimal := Text.decimal_toDigits n
  rw [Text.decimal, Nat.ofDigitChars_eq_foldl] at hdecimal
  rw [numberOf, List.foldl_ext _ _ _ hvalue]
  exact hdecimal

/-- What stands behind a field of digits in a text of digits is a digit or the
end of the line. -/
theorem after?_of_field? {ds rest t : List Char}
    (hds : ∀ c ∈ ds, c.isDigit = true) {n low high v : Nat}
    (h : field? n low high (ds ++ '\n' :: rest) = some (v, t)) {c : Char}
    (hc : c.isDigit = false) (hline : c ≠ '\n') : after? c t = none := by
  simp only [field?, Option.ite_none_right_eq_some, Option.some.injEq,
    Prod.mk.injEq] at h
  obtain ⟨⟨-, htaken, -⟩, -, rfl⟩ := h
  have hn : n ≤ ds.length := by
    by_contra hlarge
    obtain ⟨k, hk⟩ := Nat.exists_eq_add_of_lt (Nat.lt_of_not_le hlarge)
    rw [List.take_append, show n - ds.length = k + 1 by omega] at htaken
    simp at htaken
  rw [List.drop_append_of_le_length hn]
  cases hdropped : ds.drop n with
  | nil => simp [after?, hline.symm]
  | cons d more =>
    have hd := hds d (List.mem_of_mem_drop (hdropped ▸ List.mem_cons_self))
    have hne : d ≠ c := by
      rintro rfl
      rw [hc] at hd
      cases hd
    simp [after?, hne]

/-- A text of digits is no date. -/
theorem afterDate?_digits {ds : List Char} (hds : ∀ c ∈ ds, c.isDigit = true)
    (rest : List Char) : afterDate? (ds ++ '\n' :: rest) = none := by
  unfold afterDate?
  cases hfield : field? 4 0 9999 (ds ++ '\n' :: rest) with
  | none => rfl
  | some r =>
    simp [after?_of_field? hds hfield (c := '-') (by decide) (by decide)]

/-- A text of digits is no time of day. -/
theorem afterTime?_digits {ds : List Char} (hds : ∀ c ∈ ds, c.isDigit = true)
    (rest : List Char) : afterTime? (ds ++ '\n' :: rest) = none := by
  unfold afterTime?
  cases hfield : field? 2 0 23 (ds ++ '\n' :: rest) with
  | none => rfl
  | some r =>
    simp [after?_of_field? hds hfield (c := ':') (by decide) (by decide)]

/-- A text that begins with a digit has no sign, and names no special number. -/
theorem sign_digit {d : Char} (hd : d.isDigit = true) (s : List Char) :
    sign (d :: s) = (false, d :: s) ∧ afterSpecial? (d :: s) = none := by
  have hne : d ≠ '-' ∧ d ≠ '+' ∧ d ≠ 'i' ∧ d ≠ 'n' := by
    refine ⟨?_, ?_, ?_, ?_⟩ <;> rintro rfl <;> exact absurd hd (by decide)
  have hsign : sign (d :: s) = (false, d :: s) := by simp [sign, hne]
  exact ⟨hsign, by simp [afterSpecial?, hsign, hne]⟩

/-- What begins with digits up to the end of the line is no numeral of another
base. -/
theorem exists_digits_cons {ds : List Char} (hds : ∀ c ∈ ds, c.isDigit = true)
    (hne : ds ≠ []) (rest : List Char) :
    ∃ d e s, ds ++ '\n' :: rest = d :: e :: s ∧ d.isDigit = true ∧
      e ∉ ['x', 'o', 'b'] := by
  cases ds with
  | nil => exact absurd rfl hne
  | cons d ds =>
    rw [List.forall_mem_cons] at hds
    cases ds with
    | nil => exact ⟨d, '\n', rest, rfl, hds.1, by decide⟩
    | cons e ds =>
      refine ⟨d, e, ds ++ '\n' :: rest, rfl, hds.1, fun hmark => ?_⟩
      have he := hds.2 e List.mem_cons_self
      simp only [List.mem_cons, List.not_mem_nil, or_false] at hmark
      rcases hmark with rfl | rfl | rfl <;> exact absurd he (by decide)

theorem readInteger_of_wholePart? {d e : Char} {ds s after : List Char}
    {v : Toml} (hd : d.isDigit = true) (he : e ∉ ['x', 'o', 'b'])
    (hwhole : wholePart? (d :: e :: s) = some (ds, after))
    (hv : integer? (numberOf 10 ds) = some v) :
    readInteger (d :: e :: s) = some (v, after) := by
  unfold readInteger
  split
  · next heq => cases heq; exact absurd (by decide) he
  · next heq => cases heq; exact absurd (by decide) he
  · next heq => cases heq; exact absurd (by decide) he
  · rw [(sign_digit hd (e :: s)).1]
    dsimp only
    rw [hwhole, Option.bind_eq_bind, Option.bind_some]
    dsimp only
    rw [if_neg Bool.false_ne_true, hv]
    rfl

/-- The digits of a number are read as this number. -/
theorem readNumeral_toDigits {n : Nat} (hn : n < 2 ^ 63) (rest : List Char) :
    readNumeral (Nat.toDigits 10 n ++ '\n' :: rest) =
      some (int n, '\n' :: rest) := by
  have hdigits : ∀ c ∈ Nat.toDigits 10 n, c.isDigit = true :=
    fun _ => isDigit_of_mem_toDigits
  have hwhole := wholePart?_toDigits n rest
  have htime : readTime (Nat.toDigits 10 n ++ '\n' :: rest) = none := by
    simp [readTime, afterDate?_digits hdigits, afterTime?_digits hdigits]
  have hvalue : integer? (numberOf 10 (Nat.toDigits 10 n)) = some (int n) := by
    have hfits : isInteger n := by
      unfold isInteger
      omega
    rw [numberOf_toDigits, integer?, if_pos hfits]
  obtain ⟨d, e, s, hds, hd, he⟩ :=
    exists_digits_cons hdigits Nat.toDigits_ne_nil rest
  obtain ⟨hsign, hspecial⟩ := sign_digit hd (e :: s)
  rw [hds] at hwhole htime ⊢
  have hfloat : readFloat (d :: e :: s) = none := by
    simp [readFloat, hspecial, hsign, hwhole, fraction?, exponent?]
  rw [readNumeral, htime, hfloat, readInteger_of_wholePart? hd he hwhole hvalue]
  rfl

/-- A whole number is written on one line. -/
theorem isInline_int {n : Nat} (hn : n < 2 ^ 63) : IsInline (int n) := by
  have hrender : renderValue (int n) = Nat.toDigits 10 n := by
    rw [renderValue]
    rfl
  have hdigits : ∀ c ∈ Nat.toDigits 10 n, c.isDigit = true :=
    fun _ => isDigit_of_mem_toDigits
  constructor
  · intro s
    obtain ⟨d, ds, hds, hd⟩ := Json.toDigits_append_eq_cons n s
    rw [hrender, hds]
    exact skipBlanks_cons
      (isBare_spec (by simp [isBare, Char.isAlphanum, hd])).1 ds
  · intro fuel s hfuel
    obtain ⟨fuel, rfl⟩ := Nat.exists_eq_add_of_le' hfuel
    have hread := readNumeral_toDigits hn s
    obtain ⟨d, ds, hds, hd⟩ := Json.toDigits_append_eq_cons n ('\n' :: s)
    obtain ⟨-, ht, hf, hquote, hbracket, -, hbrace, -, -⟩ := Json.digit_ne hd
    have hapostrophe : d ≠ '\'' := by
      rintro rfl
      exact absurd hd (by decide)
    rw [hrender]
    rw [hds] at hread ⊢
    rw [readValue, if_neg (by simp [hquote, hapostrophe]), hread]
    all_goals simp [ht, hf, hbracket, hbrace]

end Numerals

end CouncilLedger.Toml
