import CouncilLedger.Json.Record
import CouncilLedger.Proofs.Json.Layout

/-!
# What follows is not read

A string, an array or an object ends with its closing mark, and any other value
ends before the character behind it. So a reader that stops reads the same, and
stops at the same place, when the text goes on. What is cut off the text of an
object therefore leaves no value: the reader has not found the closing brace.
The main statements are `readValue_append` and `readAll_of_cut`.
-/

namespace CouncilLedger.Json

/-! ## Blanks and digits -/

section

variable {p : Char → Bool} {s : List Char}

theorem dropWhile_append_of_ne_nil (h : s.dropWhile p ≠ []) (more : List Char) :
    (s ++ more).dropWhile p = s.dropWhile p ++ more := by
  rw [List.dropWhile_append, if_neg (by simpa using h)]

theorem takeWhile_append_of_ne_nil (h : s.dropWhile p ≠ []) (more : List Char) :
    (s ++ more).takeWhile p = s.takeWhile p := by
  rw [List.takeWhile_append, if_neg]
  intro hlength
  have hall := List.takeWhile_append_dropWhile (p := p) (l := s)
  have hrest := congrArg List.length hall
  rw [List.length_append, hlength] at hrest
  exact h (List.eq_nil_of_length_eq_zero (by omega))

end

theorem skipSpace_append_of_eq {s t : List Char} {c : Char}
    (h : skipSpace s = c :: t) (more : List Char) :
    skipSpace (s ++ more) = c :: (t ++ more) := by
  have hne : s.dropWhile isSpace ≠ [] := by
    rw [show s.dropWhile isSpace = c :: t from h]
    nofun
  rw [skipSpace, dropWhile_append_of_ne_nil hne more]
  show skipSpace s ++ more = _
  rw [h]
  rfl

/-! ## Strings -/

theorem stringPieces_append {s rest : List Char} {ps : List StringPiece}
    (h : stringPieces s = some (ps, rest)) (more : List Char) :
    stringPieces (s ++ more) = some (ps, rest ++ more) := by
  fun_induction stringPieces s generalizing ps rest with
  | case1 => cases h
  | case2 rest' =>
    cases h
    rfl
  | case3 a b c d tail ih =>
    simp only [Option.bind_eq_bind, Option.bind_eq_some_iff,
      Option.pure_def] at h
    obtain ⟨n, hn, ⟨qs, after⟩, hqs, hp⟩ := h
    cases hp
    simp [stringPieces, hn, ih hqs]
  | case4 e tail hcode ih =>
    simp only [Option.bind_eq_bind, Option.bind_eq_some_iff,
      Option.pure_def] at h
    obtain ⟨c, hc, ⟨qs, after⟩, hqs, hp⟩ := h
    cases hp
    have hu : e ≠ 'u' := by
      rintro rfl
      cases hc
    rw [List.cons_append, List.cons_append,
      stringPieces_shortEscape hu hc, ih hqs]
    rfl
  | case5 => cases h
  | case6 c tail hquote hcode hescape _ hvisible =>
    rename_i ih
    obtain ⟨⟨qs, after⟩, hqs, hp⟩ := Option.bind_eq_some_iff.mp h
    cases hp
    have hb : c ≠ '\\' := by
      rintro rfl
      cases tail with
      | nil => cases hqs
      | cons e tail => exact hescape e tail rfl rfl
    rw [List.cons_append, stringPieces_plain hquote hb (by omega), ih hqs]
    rfl

theorem readString_append {s rest : List Char} {text : Option String}
    (h : readString s = some (text, rest)) (more : List Char) :
    readString (s ++ more) = some (text, rest ++ more) := by
  simp only [readString, Option.bind_eq_bind, Option.bind_eq_some_iff,
    Option.pure_def] at h ⊢
  obtain ⟨⟨ps, after⟩, hps, hp⟩ := h
  cases hp
  exact ⟨_, stringPieces_append hps more, rfl⟩

/-! ## Numerals -/

theorem readFraction_append {s rest ds : List Char}
    (h : readFraction s = some (ds, rest)) (hrest : rest ≠ [])
    (more : List Char) :
    readFraction (s ++ more) = some (ds, rest ++ more) := by
  unfold readFraction at h
  split at h
  · next tail =>
    dsimp only at h
    split at h
    · cases h
    · next hdigits =>
      cases h
      rw [List.cons_append, readFraction, takeWhile_append_of_ne_nil hrest,
        dropWhile_append_of_ne_nil hrest, if_neg hdigits]
  · next hdot =>
    cases h
    obtain ⟨c, tail, rfl⟩ := List.exists_cons_of_ne_nil hrest
    unfold readFraction
    split
    · next heq =>
      cases heq
      exact absurd rfl (hdot tail)
    · rfl

/-- The digits of an exponent behind its sign. -/
def exponentDigits (negative : Bool) (body : List Char) :
    Option (Option Int × List Char) :=
  let ds := body.takeWhile Char.isDigit
  if ds.isEmpty then none
  else
    let e : Int := Text.decimal ds
    some (some (if negative then -e else e), body.dropWhile Char.isDigit)

theorem exponentDigits_append {negative : Bool} {body rest : List Char}
    {e : Option Int} (h : exponentDigits negative body = some (e, rest))
    (hrest : rest ≠ []) (more : List Char) :
    exponentDigits negative (body ++ more) = some (e, rest ++ more) := by
  unfold exponentDigits at h
  dsimp only at h
  split at h
  · cases h
  · next hdigits =>
    cases h
    unfold exponentDigits
    rw [takeWhile_append_of_ne_nil hrest, dropWhile_append_of_ne_nil hrest]
    exact if_neg hdigits

theorem readExponent_minus {c : Char} (hmark : c = 'e' ∨ c = 'E')
    (body : List Char) :
    readExponent (c :: '-' :: body) = exponentDigits true body := by
  rw [readExponent, if_pos hmark]
  rfl

theorem readExponent_plus {c : Char} (hmark : c = 'e' ∨ c = 'E')
    (body : List Char) :
    readExponent (c :: '+' :: body) = exponentDigits false body := by
  rw [readExponent, if_pos hmark]
  rfl

theorem readExponent_unsigned {c d : Char} (hmark : c = 'e' ∨ c = 'E')
    (hminus : d ≠ '-') (hplus : d ≠ '+') (body : List Char) :
    readExponent (c :: d :: body) = exponentDigits false (d :: body) := by
  rw [readExponent, if_pos hmark]
  · rfl
  · exact fun _ heq => hminus (List.cons.inj heq).1
  · exact fun _ heq => hplus (List.cons.inj heq).1

theorem readExponent_append {s rest : List Char} {e : Option Int}
    (h : readExponent s = some (e, rest)) (hrest : rest ≠ [])
    (more : List Char) : readExponent (s ++ more) = some (e, rest ++ more) := by
  cases s with
  | nil =>
    cases h
    exact absurd rfl hrest
  | cons c tail =>
    by_cases hmark : c = 'e' ∨ c = 'E'
    · -- the sign, or the first digit, is there already
      cases tail with
      | nil => simp [readExponent, hmark] at h
      | cons d body =>
        simp only [List.cons_append]
        by_cases hminus : d = '-'
        · subst hminus
          rw [readExponent_minus hmark] at h ⊢
          exact exponentDigits_append h hrest more
        · by_cases hplus : d = '+'
          · subst hplus
            rw [readExponent_plus hmark] at h ⊢
            exact exponentDigits_append h hrest more
          · rw [readExponent_unsigned hmark hminus hplus] at h ⊢
            exact exponentDigits_append h hrest more
    · simp only [readExponent, if_neg hmark, List.cons_append] at h ⊢
      cases h
      rfl

/-- The value of a numeral of some digits, those of its fraction and its
exponent. -/
def numeralOf (negative : Bool) (ds fs : List Char) (e? : Option Int)
    (spelt : List Char) : Json :=
  let m := Text.decimal ds
  if fs.isEmpty && e?.isNone && !negative && m < UInt64.size then int m
  else if fs.isEmpty && e?.isNone && negative && 0 < m &&
    m ≤ 0x8000000000000000 then int (-m)
  else if !isFinite ds fs (e?.getD 0) then unreadable
  else fraction (String.ofList (if negative then '-' :: spelt else spelt))

/-- The digits that a numeral starts with. -/
def LeadingDigits (s ds : List Char) : Prop :=
  s.takeWhile Char.isDigit = ds ∧
    (ds.isEmpty || (ds.head? == some '0' && ds.length > 1)) = false

/-- A numeral is read in its parts. -/
theorem readUnsigned_eq_some_iff {negative : Bool} {s rest : List Char}
    {v : Json} :
    readUnsigned negative s = some (v, rest) ↔
      ∃ ds fs afterFraction e?, LeadingDigits s ds ∧
        readFraction (s.dropWhile Char.isDigit) = some (fs, afterFraction) ∧
        readExponent afterFraction = some (e?, rest) ∧
        v = numeralOf negative ds fs e? (s.take (s.length - rest.length)) := by
  have hparts : readUnsigned negative s =
      if (s.takeWhile Char.isDigit).isEmpty ||
        ((s.takeWhile Char.isDigit).head? == some '0' &&
          (s.takeWhile Char.isDigit).length > 1) then none
      else (readFraction (s.dropWhile Char.isDigit)).bind fun f =>
        (readExponent f.2).map fun e =>
          (numeralOf negative (s.takeWhile Char.isDigit) f.1 e.1
            (s.take (s.length - e.2.length)), e.2) := by
    unfold readUnsigned numeralOf
    dsimp only
    split
    · rfl
    · cases readFraction (s.dropWhile Char.isDigit) with
      | none => rfl
      | some f =>
        cases hexponent : readExponent f.2 with
        | none => simp [hexponent]
        | some e =>
          simp only [Option.bind_eq_bind, Option.bind_some, hexponent,
            Option.map_some]
          repeat' split
          all_goals rfl
  rw [hparts]
  constructor
  · intro h
    split at h
    · cases h
    · next hleading =>
      obtain ⟨⟨fs, afterFraction⟩, hfraction, h⟩ := Option.bind_eq_some_iff.mp h
      obtain ⟨⟨e?, after⟩, hexponent, hv⟩ := Option.map_eq_some_iff.mp h
      cases hv
      exact ⟨_, fs, afterFraction, e?, ⟨rfl, Bool.eq_false_iff.mpr hleading⟩,
        hfraction, hexponent, rfl⟩
  · rintro ⟨ds, fs, afterFraction, e?, ⟨rfl, hleading⟩, hfraction,
      hexponent, rfl⟩
    rw [if_neg (by simp [hleading]), hfraction, Option.bind_some, hexponent]
    rfl

theorem readUnsigned_append {negative : Bool} {s rest : List Char} {v : Json}
    (h : readUnsigned negative s = some (v, rest)) (hrest : rest ≠ [])
    (more : List Char) :
    readUnsigned negative (s ++ more) = some (v, rest ++ more) := by
  obtain ⟨ds, fs, afterFraction, e?, ⟨hds, hleading⟩, hfraction,
    hexponent, rfl⟩ :=
    readUnsigned_eq_some_iff.mp h
  have hafter : afterFraction ≠ [] := by
    rintro rfl
    cases hexponent
    exact hrest rfl
  have hdigits : s.dropWhile Char.isDigit ≠ [] := by
    intro hnil
    rw [hnil] at hfraction
    cases hfraction
    exact hafter rfl
  have hspelt : (s ++ more).take ((s ++ more).length - (rest ++ more).length) =
      s.take (s.length - rest.length) := by
    rw [List.length_append, List.length_append, Nat.add_sub_add_right]
    exact List.take_append_of_le_length (Nat.sub_le _ _)
  refine readUnsigned_eq_some_iff.mpr ⟨ds, fs, afterFraction ++ more, e?,
    ⟨?_, hleading⟩, ?_, ?_, ?_⟩
  · rw [takeWhile_append_of_ne_nil hdigits, hds]
  · rw [dropWhile_append_of_ne_nil hdigits]
    exact readFraction_append hfraction hafter more
  · exact readExponent_append hexponent hrest more
  · rw [hspelt]

/-- A numeral starts with its sign or a digit. -/
theorem readNumeral_eq_some {s rest : List Char} {v : Json}
    (h : readNumeral s = some (v, rest)) :
    ∃ c tail, s = c :: tail ∧ (c = '-' ∨ c.isDigit = true) := by
  unfold readNumeral at h
  split at h
  · exact ⟨_, _, rfl, .inl rfl⟩
  · obtain ⟨ds, -, -, -, ⟨hds, hleading⟩, -⟩ := readUnsigned_eq_some_iff.mp h
    cases s with
    | nil =>
      rw [← hds] at hleading
      cases hleading
    | cons c tail =>
      refine ⟨c, tail, rfl, .inr ?_⟩
      cases hdigit : c.isDigit with
      | true => rfl
      | false =>
        rw [← hds, List.takeWhile_cons_of_neg (by simp [hdigit])] at hleading
        cases hleading

theorem readNumeral_append {s rest : List Char} {v : Json}
    (h : readNumeral s = some (v, rest)) (hrest : rest ≠ [])
    (more : List Char) : readNumeral (s ++ more) = some (v, rest ++ more) := by
  obtain ⟨c, tail, rfl, -⟩ := readNumeral_eq_some h
  by_cases hminus : c = '-'
  · subst hminus
    rw [List.cons_append, readNumeral] at *
    exact readUnsigned_append h hrest more
  · have hunsigned :
        ∀ t, readNumeral (c :: t) = readUnsigned false (c :: t) := by
      intro t
      rw [readNumeral]
      exact fun body heq => hminus (List.cons.inj heq).1
    rw [hunsigned] at h
    rw [List.cons_append, hunsigned]
    exact readUnsigned_append h hrest more

/-! ## Values -/

theorem readValue_nil (fuel around : Nat) :
    readValue fuel around [] = none := by
  cases fuel <;> rfl

theorem readItems_nil (fuel around : Nat) :
    readItems fuel around [] = none := by
  cases fuel with
  | zero => rfl
  | succ fuel => simp [readItems, readValue_nil]

theorem readMembers_nil (fuel around : Nat) :
    readMembers fuel around [] = none := by
  cases fuel <;> rfl

/-- An array whose bracket is not closed at once has items. -/
theorem readValue_items {fuel around : Nat} {s items t rest : List Char}
    {c : Char} {vs : List Json} (hs : skipSpace s = '[' :: items)
    (hitems : skipSpace items = c :: t) (hc : c ≠ ']')
    (h : readItems fuel (around + 1) (c :: t) = some (vs, rest)) :
    readValue (fuel + 1) around s =
      some (if around < depthLimit then arr vs else unreadable, rest) := by
  simp [readValue, hs, hitems, hc, h]

/-- An object whose brace is not closed at once has members. -/
theorem readValue_members {fuel around : Nat} {s members t rest : List Char}
    {c : Char} {ms : List (Option String × Json)}
    (hs : skipSpace s = '\x7b' :: members)
    (hmembers : skipSpace members = c :: t) (hc : c ≠ '\x7d')
    (h : readMembers fuel (around + 1) (c :: t) = some (ms, rest)) :
    readValue (fuel + 1) around s =
      some
        (if around < depthLimit then ofMembers ms else unreadable, rest) := by
  simp [readValue, hs, hmembers, hc, h]

/-- What starts like a numeral is read as one. -/
theorem readValue_numeral {fuel around : Nat} {s t : List Char} {c : Char}
    (hs : skipSpace s = c :: t) (hc : c = '-' ∨ c.isDigit = true) :
    readValue (fuel + 1) around s = readNumeral (c :: t) := by
  have hne : c ≠ 'n' ∧ c ≠ 't' ∧ c ≠ 'f' ∧ c ≠ '"' ∧ c ≠ '[' ∧ c ≠ '\x7b' := by
    rcases hc with rfl | hdigit
    · decide
    · obtain ⟨h1, h2, h3, h4, h5, -, h6, -⟩ := digit_ne hdigit
      exact ⟨h1, h2, h3, h4, h5, h6⟩
  simp [readValue, hs, hne]

mutual
/-- **What is read does not depend on what follows**, unless a numeral may go
on. -/
theorem readValue_append {fuel fuel' around : Nat} {s rest : List Char}
    {v : Json} (h : readValue fuel around s = some (v, rest))
    (hfuel : fuel ≤ fuel')
    (hends : rest ≠ [] ∨
      ∀ c ∈ (skipSpace s).head?, ¬(c = '-' ∨ c.isDigit = true))
    (more : List Char) :
    readValue fuel' around (s ++ more) = some (v, rest ++ more) := by
  cases fuel with
  | zero => simp [readValue] at h
  | succ fuel =>
    obtain ⟨fuel', rfl⟩ : ∃ k, fuel' = k + 1 := ⟨fuel' - 1, by omega⟩
    have hless : fuel ≤ fuel' := Nat.le_of_succ_le_succ hfuel
    unfold readValue at h
    split at h
    · next hs =>
      cases h
      simp [readValue, skipSpace_append_of_eq hs]
    · next hs =>
      cases h
      simp [readValue, skipSpace_append_of_eq hs]
    · next hs =>
      cases h
      simp [readValue, skipSpace_append_of_eq hs]
    · next text hs =>
      simp only [Option.bind_eq_bind, Option.bind_eq_some_iff,
        Option.pure_def] at h
      obtain ⟨⟨s?, after⟩, hstring, hv⟩ := h
      cases hv
      simp [readValue, skipSpace_append_of_eq hs, readString_append hstring]
    · next items hs =>
      dsimp only at h
      split at h
      · next hs' =>
        cases h
        simp [readValue, skipSpace_append_of_eq hs, skipSpace_append_of_eq hs']
      · next hopen =>
        obtain ⟨⟨vs, after⟩, hread, hv⟩ := Option.bind_eq_some_iff.mp h
        cases hv
        cases hitems : skipSpace items with
        | nil => simp [hitems, readItems_nil] at hread
        | cons c t =>
          rw [hitems] at hread
          exact readValue_items (skipSpace_append_of_eq hs more)
            (skipSpace_append_of_eq hitems more) (fun hc =>
              hopen t (hc ▸ hitems)) (readItems_append hread hless more)
    · next members hs =>
      dsimp only at h
      split at h
      · next hs' =>
        cases h
        simp [readValue, skipSpace_append_of_eq hs, skipSpace_append_of_eq hs']
      · next hopen =>
        obtain ⟨⟨ms, after⟩, hread, hv⟩ := Option.bind_eq_some_iff.mp h
        cases hv
        cases hmembers : skipSpace members with
        | nil => simp [hmembers, readMembers_nil] at hread
        | cons c t =>
          rw [hmembers] at hread
          exact readValue_members (skipSpace_append_of_eq hs more)
            (skipSpace_append_of_eq hmembers more) (fun hc =>
              hopen t (hc ▸ hmembers)) (readMembers_append hread hless more)
    · obtain ⟨c, t, hs, hc⟩ := readNumeral_eq_some h
      have hrest : rest ≠ [] :=
        hends.resolve_right fun hhead => hhead c (by rw [hs]; rfl) hc
      rw [hs] at h
      rw [readValue_numeral (skipSpace_append_of_eq hs more) hc]
      exact readNumeral_append h hrest more
  termination_by fuel

/-- The items of an array end with its bracket. -/
theorem readItems_append {fuel fuel' around : Nat} {s rest : List Char}
    {vs : List Json} (h : readItems fuel around s = some (vs, rest))
    (hfuel : fuel ≤ fuel') (more : List Char) :
    readItems fuel' around (s ++ more) = some (vs, rest ++ more) := by
  cases fuel with
  | zero => simp [readItems] at h
  | succ fuel =>
    obtain ⟨fuel', rfl⟩ : ∃ k, fuel' = k + 1 := ⟨fuel' - 1, by omega⟩
    have hless : fuel ≤ fuel' := Nat.le_of_succ_le_succ hfuel
    unfold readItems at h
    obtain ⟨⟨v, after⟩, hv, h⟩ := Option.bind_eq_some_iff.mp h
    dsimp only at h
    -- a comma or the bracket stands behind the item
    have hvalue := fun hne => readValue_append hv hless (.inl hne) more
    split at h
    · next tail hafter =>
      obtain ⟨⟨ws, last⟩, hws, hp⟩ := Option.bind_eq_some_iff.mp h
      cases hp
      have hne : after ≠ [] := by
        rintro rfl
        cases hafter
      simp [readItems, hvalue hne, skipSpace_append_of_eq hafter,
        readItems_append hws hless more]
    · next hafter =>
      cases h
      have hne : after ≠ [] := by
        rintro rfl
        cases hafter
      simp [readItems, hvalue hne, skipSpace_append_of_eq hafter]
    · cases h
  termination_by fuel

/-- The members of an object end with its brace. -/
theorem readMembers_append {fuel fuel' around : Nat} {s rest : List Char}
    {ms : List (Option String × Json)}
    (h : readMembers fuel around s = some (ms, rest)) (hfuel : fuel ≤ fuel')
    (more : List Char) :
    readMembers fuel' around (s ++ more) = some (ms, rest ++ more) := by
  cases fuel with
  | zero => simp [readMembers] at h
  | succ fuel =>
    obtain ⟨fuel', rfl⟩ : ∃ k, fuel' = k + 1 := ⟨fuel' - 1, by omega⟩
    have hless : fuel ≤ fuel' := Nat.le_of_succ_le_succ hfuel
    unfold readMembers at h
    split at h
    · next keyed hs =>
      obtain ⟨⟨key, behind⟩, hkey, h⟩ := Option.bind_eq_some_iff.mp h
      dsimp only at h
      split at h
      · next valued hcolon =>
        obtain ⟨⟨v, after⟩, hv, h⟩ := Option.bind_eq_some_iff.mp h
        dsimp only at h
        -- a comma or the brace stands behind the value
        have hvalue := fun hne => readValue_append hv hless (.inl hne) more
        split at h
        · next tail hafter =>
          obtain ⟨⟨ws, last⟩, hws, hp⟩ := Option.bind_eq_some_iff.mp h
          cases hp
          have hne : after ≠ [] := by
            rintro rfl
            cases hafter
          simp [readMembers, skipSpace_append_of_eq hs, readString_append hkey,
            skipSpace_append_of_eq hcolon, hvalue hne,
            skipSpace_append_of_eq hafter, readMembers_append hws hless more]
        · next hafter =>
          cases h
          have hne : after ≠ [] := by
            rintro rfl
            cases hafter
          simp [readMembers, skipSpace_append_of_eq hs, readString_append hkey,
            skipSpace_append_of_eq hcolon, hvalue hne,
            skipSpace_append_of_eq hafter]
        · cases h
      · cases h
    · cases h
  termination_by fuel
end

/-! ## Whole texts -/

/-- Whether a value is an array or an object. -/
def IsCompound (v : Json) : Prop := (∃ vs, v = arr vs) ∨ ∃ ms, v = obj ms

/-- A record has parts. -/
theorem isCompound_of_record? {names : List String} {v : Json} {r : Record}
    (h : v.record? names = some r) : v.IsCompound := by
  cases v with
  | arr vs => exact .inl ⟨vs, rfl⟩
  | obj ms => exact .inr ⟨ms, rfl⟩
  | _ => cases h

/-- No numeral has parts. -/
theorem not_isCompound_of_readNumeral {s rest : List Char} {v : Json}
    (h : readNumeral s = some (v, rest)) : ¬ v.IsCompound := by
  have hnumeral : ∀ negative ds fs e? spelt,
      ¬ (numeralOf negative ds fs e? spelt).IsCompound := by
    intro negative ds fs e? spelt
    unfold numeralOf
    dsimp only
    repeat' split
    all_goals rintro (⟨_, heq⟩ | ⟨_, heq⟩) <;> cases heq
  unfold readNumeral at h
  split at h
  all_goals
    obtain ⟨ds, fs, -, e?, -, -, -, rfl⟩ := readUnsigned_eq_some_iff.mp h
    exact hnumeral _ _ _ _ _

theorem readAll_eq_some_iff {s : List Char} {v : Json} :
    readAll s = some v ↔ ∃ rest, readValue (fuelFor s) 0 s = some (v, rest) ∧
      skipSpace rest = [] := by
  unfold readAll
  cases readValue (fuelFor s) 0 s with
  | none => simp
  | some read => simp [Prod.ext_iff, and_comm, and_assoc]

theorem fuelFor_le_append (s more : List Char) :
    fuelFor s ≤ fuelFor (s ++ more) := by
  simp only [fuelFor, List.length_append]
  omega

/-- Blanks behind an array or an object are passed over. -/
theorem readAll_append_of_isCompound {s more : List Char} {v : Json}
    (h : readAll s = some v) (hv : v.IsCompound)
    (hmore : ∀ c ∈ more, isSpace c = true) : readAll (s ++ more) = some v := by
  obtain ⟨rest, hread, hrest⟩ := readAll_eq_some_iff.mp h
  have hhead : ∀ c ∈ (skipSpace s).head?, ¬(c = '-' ∨ c.isDigit = true) := by
    intro c hc hstart
    obtain ⟨t, ht⟩ := List.head?_eq_some_iff.mp hc
    rw [fuelFor, readValue_numeral ht hstart] at hread
    exact not_isCompound_of_readNumeral hread hv
  have hblank : skipSpace (rest ++ more) = [] := by
    have hskip := skipSpace_append hmore []
    rw [List.append_nil] at hskip
    rw [skipSpace] at hrest
    rw [skipSpace, List.dropWhile_append, hrest]
    exact hskip
  exact readAll_eq_some_iff.mpr ⟨_, readValue_append hread
      (fuelFor_le_append s more) (.inr hhead) more, hblank⟩

/-! ### Cut texts -/

/-- **A cut object is no value**: what is left of the text of an object without
its end is not read in whole. -/
theorem readAll_of_cut {levels : Nat} {m : String × Json}
    {ms : List (String × Json)} (h : isPlain levels (obj (m :: ms)) = true)
    (hdepth : levels ≤ depthLimit) {pre more : List Char}
    (htext : render (obj (m :: ms)) = pre ++ more) (hpre : pre ≠ [])
    (hmore : more ≠ []) : readAll pre = none := by
  cases hread : readAll pre with
  | none => rfl
  | some v =>
    obtain ⟨rest, hw, -⟩ := readAll_eq_some_iff.mp hread
    have hhead : ∀ c ∈ (skipSpace pre).head?, ¬(c = '-' ∨ c.isDigit = true) := by
      obtain ⟨c, t, rfl⟩ := List.exists_cons_of_ne_nil hpre
      obtain ⟨k, value⟩ := m
      rw [render, List.cons_append] at htext
      rw [← (List.cons.inj htext).1]
      rintro _ ⟨⟩
      decide
    -- read on, the cut text would end before the whole one does
    have hcut :=
      readValue_append hw (fuelFor_le_append pre more) (.inr hhead) more
    have hwhole :
        readValue (fuelFor (pre ++ more)) 0
            (Layout.compact.text 0 (obj (m :: ms)) ++ []) =
          some (obj (m :: ms), []) :=
      readValue_text h (by omega) endsNumber_nil
        (by rw [text_compact, htext, fuelFor]; omega)
    rw [text_compact, List.append_nil, htext, hcut] at hwhole
    have hnil : rest ++ more = [] := (Prod.mk.inj (Option.some.inj hwhole)).2
    exact absurd (List.append_eq_nil_iff.mp hnil).2 hmore

end CouncilLedger.Json
