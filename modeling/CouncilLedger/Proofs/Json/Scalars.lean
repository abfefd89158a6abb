import CouncilLedger.Json.Printer
import CouncilLedger.Json.Reader

/-!
# Strings and numbers read back

What the printer writes for a string or a whole number of 64 bits is read back
as it was, whatever stands behind it: a string ends with its quote, and a number
ends where its digits do.
-/

namespace CouncilLedger.Json

/-! ## Strings -/

theorem hexNumber?_control :
    ∀ n < 0x20,
      Text.hexNumber?
          ['0', '0', Nat.digitChar (n / 16), Nat.digitChar (n % 16)] =
        some n := by
  decide

/-- An escape of two characters stands for one. -/
theorem stringPieces_shortEscape {e c : Char} (hu : e ≠ 'u')
    (h : shortEscape? e = some c) (rest : List Char) :
    stringPieces ('\\' :: e :: rest) =
      (stringPieces rest).map fun p => (.char c :: p.1, p.2) := by
  cases hr : stringPieces rest <;> simp [stringPieces, hu, h, hr]

/-- A control character as the four digits of its code. -/
theorem stringPieces_controlEscape {c : Char} (h : c.toNat < 0x20)
    (rest : List Char) :
    stringPieces ('\\' :: 'u' :: '0' :: '0' :: Nat.digitChar (c.toNat / 16) ::
        Nat.digitChar (c.toNat % 16) :: rest) =
      (stringPieces rest).map fun p => (.char c :: p.1, p.2) := by
  have hcode : StringPiece.ofCode c.toNat = .char c := by
    rw [StringPiece.ofCode, if_neg (by omega), Char.ofNat_toNat]
  cases hr : stringPieces rest <;> simp [stringPieces,
    hexNumber?_control _ h, hcode, hr]

/-- A character that needs no escape stands for itself. -/
theorem stringPieces_plain {c : Char} (hq : c ≠ '"') (hb : c ≠ '\\')
    (h : 0x20 ≤ c.toNat) (rest : List Char) :
    stringPieces (c :: rest) =
      (stringPieces rest).map fun p => (.char c :: p.1, p.2) := by
  have hc : ¬ c.toNat < 0x20 := by omega
  cases hr : stringPieces rest <;> simp [stringPieces, hb, hc, hr]

theorem stringPieces_escapeChar (c : Char) (rest : List Char) :
    stringPieces (escapeChar c ++ rest) =
      (stringPieces rest).map fun p => (.char c :: p.1, p.2) := by
  unfold escapeChar
  split
  · next h => subst h; exact stringPieces_shortEscape (by decide) rfl rest
  split
  · next h => subst h; exact stringPieces_shortEscape (by decide) rfl rest
  split
  · next h => subst h; exact stringPieces_shortEscape (by decide) rfl rest
  split
  · next h => subst h; exact stringPieces_shortEscape (by decide) rfl rest
  split
  · next h => subst h; exact stringPieces_shortEscape (by decide) rfl rest
  split
  · next h => subst h; exact stringPieces_shortEscape (by decide) rfl rest
  split
  · next h => subst h; exact stringPieces_shortEscape (by decide) rfl rest
  split
  · next h => exact stringPieces_controlEscape h rest
  · next hq hb _ _ _ _ _ h => exact stringPieces_plain hq hb (by omega) rest

theorem stringPieces_escaped (cs rest : List Char) :
    stringPieces (cs.flatMap escapeChar ++ '"' :: rest) =
      some (cs.map .char, rest) := by
  induction cs with
  | nil => rfl
  | cons c cs ih =>
    rw [List.flatMap_cons, List.append_assoc, stringPieces_escapeChar, ih]
    rfl

theorem joinPieces_map_char (cs : List Char) :
    joinPieces (cs.map .char) = some cs := by
  induction cs with
  | nil => rfl
  | cons c cs ih => simp [joinPieces, ih]

/-- A string behind its opening quote reads back. -/
theorem readString_escaped (s : String) (rest : List Char) :
    readString (s.toList.flatMap escapeChar ++ '"' :: rest) =
      some (some s, rest) := by
  simp [readString, stringPieces_escaped, joinPieces_map_char]

/-! ## Whole numbers -/

/-- Text that cannot belong to a number that ends before it. -/
def EndsNumber (rest : List Char) : Prop :=
  ∀ c, rest.head? = some c → c.isDigit = false ∧ c ≠ '.' ∧ c ≠ 'e' ∧ c ≠ 'E'

theorem endsNumber_nil : EndsNumber [] := by
  intro c h
  cases h

theorem endsNumber_cons {c : Char} {rest : List Char}
    (h : c.isDigit = false ∧ c ≠ '.' ∧ c ≠ 'e' ∧ c ≠ 'E') :
    EndsNumber (c :: rest) := by
  intro d hd
  cases hd
  exact h

theorem isDigit_of_mem_toDigits {n : Nat} {c : Char}
    (h : c ∈ Nat.toDigits 10 n) : c.isDigit = true :=
  Nat.isDigit_of_mem_toDigits (by decide) (by decide) h

theorem takeWhile_toDigits (n : Nat) {rest : List Char} (h : EndsNumber rest) :
    (Nat.toDigits 10 n ++ rest).takeWhile Char.isDigit = Nat.toDigits 10 n := by
  rw [List.takeWhile_append_of_pos fun c hc => isDigit_of_mem_toDigits hc]
  cases rest with
  | nil => simp
  | cons c rest => simp [(h c rfl).1]

theorem dropWhile_toDigits (n : Nat) {rest : List Char} (h : EndsNumber rest) :
    (Nat.toDigits 10 n ++ rest).dropWhile Char.isDigit = rest := by
  rw [List.dropWhile_append_of_pos fun c hc => isDigit_of_mem_toDigits hc]
  cases rest with
  | nil => rfl
  | cons c rest => simp [(h c rfl).1]

/-- Only zero is written with a leading zero. -/
theorem head?_toDigits_ne_zero {n : Nat} (h : 0 < n) :
    (Nat.toDigits 10 n).head? ≠ some '0' := by
  induction n using Nat.strongRecOn with
  | ind n ih =>
    by_cases hlt : n < 10
    · rw [Nat.toDigits_of_lt_base hlt]
      simp
      omega
    · rw [Nat.toDigits_of_base_le (by decide) (by omega), List.head?_append,
        Option.or_of_isSome (by simp [Nat.toDigits_ne_nil])]
      exact ih (n / 10) (by omega) (by omega)

theorem noLeadingZero_toDigits (n : Nat) :
    ((Nat.toDigits 10 n).head? == some '0' && (Nat.toDigits 10 n).length > 1) =
      false := by
  rcases Nat.eq_zero_or_pos n with rfl | h
  · rfl
  · simp [head?_toDigits_ne_zero h]

theorem readFraction_of_endsNumber {rest : List Char} (h : EndsNumber rest) :
    readFraction rest = some ([], rest) := by
  cases rest with
  | nil => rfl
  | cons c rest =>
    have hdot := (h c rfl).2.1
    unfold readFraction
    split
    · next heq => cases heq; exact absurd rfl hdot
    · rfl

theorem readExponent_of_endsNumber {rest : List Char} (h : EndsNumber rest) :
    readExponent rest = some (none, rest) := by
  cases rest with
  | nil => rfl
  | cons c rest =>
    obtain ⟨-, -, he, hE⟩ := h c rfl
    simp [readExponent, he, hE]

/-- The digits of a 64-bit word read back. -/
theorem readUnsigned_toDigits {n : Nat} (hn : n < UInt64.size)
    {rest : List Char} (h : EndsNumber rest) :
    readUnsigned false (Nat.toDigits 10 n ++ rest) = some (int n, rest) := by
  simp only [readUnsigned, takeWhile_toDigits n h, dropWhile_toDigits n h,
    noLeadingZero_toDigits n, readFraction_of_endsNumber h,
    Text.decimal_toDigits]
  simp [Nat.toDigits_ne_nil, readExponent_of_endsNumber h, hn]

/-- A text that starts with the digits of a number starts with a digit. -/
theorem toDigits_append_eq_cons (n : Nat) (rest : List Char) :
    ∃ d ds, Nat.toDigits 10 n ++ rest = d :: ds ∧ d.isDigit = true := by
  cases hds : Nat.toDigits 10 n with
  | nil => exact absurd hds Nat.toDigits_ne_nil
  | cons d ds =>
    exact ⟨d, ds ++ rest, rfl,
      isDigit_of_mem_toDigits (hds ▸ List.mem_cons_self)⟩

theorem readNumeral_toDigits {n : Nat} (hn : n < UInt64.size) {rest : List Char}
    (h : EndsNumber rest) :
    readNumeral (Nat.toDigits 10 n ++ rest) = some (int n, rest) := by
  rw [← readUnsigned_toDigits hn h]
  obtain ⟨d, ds, hds, hd⟩ := toDigits_append_eq_cons n rest
  rw [hds]
  unfold readNumeral
  split
  · next heq =>
    cases heq
    exact absurd hd (by decide)
  · rfl

end CouncilLedger.Json
