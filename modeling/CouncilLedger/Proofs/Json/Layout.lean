import CouncilLedger.Proofs.Json.Scalars

/-!
# Values read back

Both layouts in which values are written, the compact one and the indented one,
put blanks at the same places: before each item and each closing bracket, and
after a colon. Whatever these blanks are, a value that holds nothing but words,
strings, arrays and objects and is not nested too deep is read back as it was.
The main statements are `readAll_render` and `readAll_renderAt`.
-/

namespace CouncilLedger.Json

/-! ## Plain values -/

mutual
/-- Whether a value holds only what records are written with, in at most
`levels` levels of arrays and objects. -/
def isPlain (levels : Nat) : Json → Bool
  | null => true
  | bool _ => true
  | int n => 0 ≤ n && n < UInt64.size
  | fraction _ => false
  | str _ => true
  | unreadable => false
  | arr items => 0 < levels && itemsPlain (levels - 1) items
  | obj members => 0 < levels && membersPlain (levels - 1) members

/-- Whether all of some values are plain. -/
def itemsPlain (levels : Nat) : List Json → Bool
  | [] => true
  | v :: rest => isPlain levels v && itemsPlain levels rest

/-- Whether the values of all of some members are plain. -/
def membersPlain (levels : Nat) : List (String × Json) → Bool
  | [] => true
  | (_, v) :: rest => isPlain levels v && membersPlain levels rest
end

theorem itemsPlain_iff {levels : Nat} {items : List Json} :
    itemsPlain levels items = true ↔ ∀ v ∈ items, isPlain levels v = true := by
  induction items with
  | nil => simp [itemsPlain]
  | cons v rest ih => simp [itemsPlain, ih]

theorem membersPlain_iff {levels : Nat} {members : List (String × Json)} :
    membersPlain levels members = true ↔
      ∀ m ∈ members, isPlain levels m.2 = true := by
  induction members with
  | nil => simp [membersPlain]
  | cons m rest ih => simp [membersPlain, ih]

mutual
/-- What is plain denotes something. -/
theorem denotes_of_isPlain :
    ∀ {v : Json} {levels : Nat}, isPlain levels v = true → denotes v = true
  | null, _, _ => rfl
  | bool _, _, _ => rfl
  | int _, _, _ => rfl
  | fraction _, _, h => by cases h
  | str _, _, _ => rfl
  | unreadable, _, h => by cases h
  | arr items, _, h => by
    simp only [isPlain, Bool.and_eq_true] at h
    exact itemsDenote_of_itemsPlain h.2
  | obj members, _, h => by
    simp only [isPlain, Bool.and_eq_true] at h
    exact membersDenote_of_membersPlain h.2

theorem itemsDenote_of_itemsPlain : ∀ {items : List Json} {levels : Nat},
    itemsPlain levels items = true → itemsDenote items = true
  | [], _, _ => rfl
  | v :: rest, _, h => by
    simp only [itemsPlain, Bool.and_eq_true] at h
    rw [itemsDenote, denotes_of_isPlain h.1, itemsDenote_of_itemsPlain h.2]
    rfl

theorem membersDenote_of_membersPlain :
    ∀ {members : List (String × Json)} {levels : Nat},
    membersPlain levels members = true → membersDenote members = true
  | [], _, _ => rfl
  | (_, v) :: rest, _, h => by
    simp only [membersPlain, Bool.and_eq_true] at h
    rw [membersDenote, denotes_of_isPlain h.1, membersDenote_of_membersPlain h.2]
    rfl
end

/-! ## Layouts -/

/-- The blanks with which arrays and objects are laid out. -/
structure Layout where
  /-- What stands before an item or a closing bracket of a level. -/
  gap : Nat → List Char
  /-- What stands after a colon. -/
  afterColon : List Char
  isSpace_gap : ∀ level, ∀ c ∈ gap level, isSpace c = true
  isSpace_afterColon : ∀ c ∈ afterColon, isSpace c = true

namespace Layout

variable (y : Layout)

mutual
/-- The text of a value at a level. -/
def text (level : Nat) : Json → List Char
  | arr (v :: rest) =>
    '[' :: (y.gap (level + 1) ++ (text (level + 1) v ++ itemsText level rest))
  | obj ((k, v) :: rest) =>
    '\x7b' :: (y.gap (level + 1) ++ (renderString k ++ ':' :: (y.afterColon ++
      (text (level + 1) v ++ membersText level rest))))
  | v => render v

/-- The items after the first one, and the bracket. -/
def itemsText (level : Nat) : List Json → List Char
  | [] => y.gap level ++ [']']
  | v :: rest =>
    ',' :: (y.gap (level + 1) ++ (text (level + 1) v ++ itemsText level rest))

/-- The members after the first one, and the brace. -/
def membersText (level : Nat) : List (String × Json) → List Char
  | [] => y.gap level ++ ['\x7d']
  | (k, v) :: rest =>
    ',' :: (y.gap (level + 1) ++ (renderString k ++ ':' :: (y.afterColon ++
      (text (level + 1) v ++ membersText level rest))))
end

end Layout

/-! ## Blanks -/

attribute [local simp] readValue readItems readMembers

theorem skipSpace_append {blanks : List Char}
    (h : ∀ c ∈ blanks, isSpace c = true) (s : List Char) :
    skipSpace (blanks ++ s) = skipSpace s :=
  List.dropWhile_append_of_pos h

theorem skipSpace_cons {c : Char} (h : isSpace c = false) (s : List Char) :
    skipSpace (c :: s) = c :: s := by
  simp [skipSpace, h]

theorem readValue_blanks {blanks : List Char}
    (h : ∀ c ∈ blanks, isSpace c = true) (fuel around : Nat) (s : List Char) :
    readValue fuel around (blanks ++ s) = readValue fuel around s := by
  cases fuel with
  | zero => simp
  | succ fuel => simp [skipSpace_append h]

theorem endsNumber_of_isSpace {c : Char} (h : isSpace c = true)
    (s : List Char) : EndsNumber (c :: s) := by
  simp only [isSpace, Bool.or_eq_true, beq_iff_eq] at h
  apply endsNumber_cons
  rcases h with ((rfl | rfl) | rfl) | rfl <;> decide

theorem endsNumber_append {blanks : List Char}
    (h : ∀ c ∈ blanks, isSpace c = true) {s : List Char} (hs : EndsNumber s) :
    EndsNumber (blanks ++ s) := by
  cases blanks with
  | nil => exact hs
  | cons c blanks => exact endsNumber_of_isSpace (h c List.mem_cons_self) _

/-- A digit is none of the characters that start a value of another kind. -/
theorem digit_ne {d : Char} (h : d.isDigit = true) :
    d ≠ 'n' ∧ d ≠ 't' ∧ d ≠ 'f' ∧ d ≠ '"' ∧ d ≠ '[' ∧ d ≠ ']' ∧ d ≠ '\x7b' ∧
      d ≠ ',' ∧ isSpace d = false := by
  have hb := Char.isDigit_iff_toNat.mp h
  refine ⟨?_, ?_, ?_, ?_, ?_, ?_, ?_, ?_, ?_⟩
  case refine_9 =>
    simp only [isSpace, Bool.or_eq_false_iff, beq_eq_false_iff_ne]
    refine ⟨⟨⟨?_, ?_⟩, ?_⟩, ?_⟩ <;> rintro rfl <;> revert h <;> decide
  all_goals rintro rfl; revert h; decide

/-! ## Reading the parts -/

variable {y : Layout}

/-- The text of a plain value starts with neither a blank nor a closing
bracket. -/
theorem text_eq_cons {levels : Nat} (level : Nat) {v : Json}
    (h : isPlain levels v = true) :
    ∃ c s, y.text level v = c :: s ∧ isSpace c = false ∧ c ≠ ']' := by
  cases v with
  | null => exact ⟨_, _, rfl, by decide, by decide⟩
  | bool b => cases b <;> exact ⟨_, _, rfl, by decide, by decide⟩
  | int n =>
    cases n with
    | ofNat n =>
      obtain ⟨d, ds, hds, hd⟩ := toDigits_append_eq_cons n []
      obtain ⟨-, -, -, -, -, hbracket, -, -, hspace⟩ := digit_ne hd
      exact ⟨d, ds, by rw [← hds, List.append_nil]; rfl, hspace, hbracket⟩
    | negSucc n => simp [isPlain] at h
  | fraction numeral => simp [isPlain] at h
  | str s => exact ⟨_, _, rfl, by decide, by decide⟩
  | unreadable => simp [isPlain] at h
  | arr items =>
    cases items with
    | nil => exact ⟨_, _, rfl, by decide, by decide⟩
    | cons v rest => exact ⟨_, _, by rw [Layout.text], by decide, by decide⟩
  | obj members =>
    cases members with
    | nil => exact ⟨_, _, rfl, by decide, by decide⟩
    | cons m rest => exact ⟨_, _, by rw [Layout.text], by decide, by decide⟩

theorem readValue_int {n : Nat} (hn : n < UInt64.size) (fuel around : Nat)
    {rest : List Char} (h : EndsNumber rest) :
    readValue (fuel + 1) around (Nat.toDigits 10 n ++ rest) =
      some (int n, rest) := by
  rw [← readNumeral_toDigits hn h]
  obtain ⟨d, ds, hds, hd⟩ := toDigits_append_eq_cons n rest
  obtain ⟨h1, h2, h3, h4, h5, -, h6, -, hspace⟩ := digit_ne hd
  simp [hds, skipSpace_cons hspace, h1, h2, h3, h4, h5, h6]

theorem readValue_str (s : String) (fuel around : Nat) (rest : List Char) :
    readValue (fuel + 1) around (renderString s ++ rest) =
      some (str s, rest) := by
  have hq : isSpace '"' = false := by decide
  simp [renderString, skipSpace_cons hq, readString_escaped]

theorem endsNumber_itemsText (level : Nat) (vs : List Json) (rest : List Char) :
    EndsNumber (y.itemsText level vs ++ rest) := by
  cases vs with
  | nil =>
    rw [Layout.itemsText, List.append_assoc]
    exact endsNumber_append (y.isSpace_gap level) (endsNumber_cons (by decide))
  | cons v vs => exact endsNumber_cons (by decide)

theorem endsNumber_membersText (level : Nat) (ms : List (String × Json))
    (rest : List Char) : EndsNumber (y.membersText level ms ++ rest) := by
  cases ms with
  | nil =>
    rw [Layout.membersText, List.append_assoc]
    exact endsNumber_append (y.isSpace_gap level) (endsNumber_cons (by decide))
  | cons m ms => exact endsNumber_cons (by decide)

/-- An array of at least one item reads as its items do. -/
theorem readValue_arr {levels level around fuel : Nat} {v : Json}
    {vs : List Json} {rest : List Char} (hv : isPlain levels v = true)
    (hlt : around < depthLimit)
    (h : readItems fuel (around + 1)
        (y.text (level + 1) v ++ (y.itemsText level vs ++ rest)) =
      some (v :: vs, rest)) :
    readValue (fuel + 1) around (y.text level (arr (v :: vs)) ++ rest) =
      some (arr (v :: vs), rest) := by
  obtain ⟨c, s, hc, hspace, hbracket⟩ := text_eq_cons (y := y) (level + 1) hv
  have hb : isSpace '[' = false := by decide
  rw [hc] at h
  simp only [Layout.text, List.cons_append, List.append_assoc] at h ⊢
  simp only [readValue, skipSpace_cons hb, skipSpace_append (y.isSpace_gap _),
    hc, List.cons_append, skipSpace_cons hspace]
  simp [h, hlt, hbracket]

/-- Members as the reader collects them, with keys that were all read. -/
def keyed (members : List (String × Json)) : List (Option String × Json) :=
  members.map fun m => (some m.1, m.2)

theorem ofMembers_keyed (members : List (String × Json)) :
    ofMembers (keyed members) = obj members := by
  have h : (keyed members).mapM (fun m : Option String × Json =>
      m.1.map (·, m.2)) = some members := by
    induction members with
    | nil => rfl
    | cons m rest ih =>
      simp only [keyed, List.map_cons, List.mapM_cons] at ih ⊢
      simp [ih]
  rw [ofMembers, h]

/-- An object of at least one member reads as its members do. -/
theorem readValue_obj {level around fuel : Nat} {k : String} {v : Json}
    {ms : List (String × Json)} {rest : List Char} (hlt : around < depthLimit)
    (h : readMembers fuel (around + 1) (renderString k ++ ':' :: (y.afterColon ++
      (y.text (level + 1) v ++ (y.membersText level ms ++ rest)))) =
        some (keyed ((k, v) :: ms), rest)) :
    readValue (fuel + 1) around (y.text level (obj ((k, v) :: ms)) ++ rest) =
      some (obj ((k, v) :: ms), rest) := by
  have hb : isSpace '\x7b' = false := by decide
  have hq : isSpace '"' = false := by decide
  simp only [Layout.text, renderString, List.cons_append, List.append_assoc,
    List.nil_append] at h ⊢
  simp only [readValue, skipSpace_cons hb, skipSpace_append (y.isSpace_gap _),
    skipSpace_cons hq]
  simp [h, hlt, ofMembers_keyed]

theorem skipSpace_itemsText_nil (level : Nat) (rest : List Char) :
    skipSpace (y.itemsText level [] ++ rest) = ']' :: rest := by
  rw [Layout.itemsText, List.append_assoc,
    skipSpace_append (y.isSpace_gap level)]
  exact skipSpace_cons (by decide) rest

theorem skipSpace_membersText_nil (level : Nat) (rest : List Char) :
    skipSpace (y.membersText level [] ++ rest) = '\x7d' :: rest := by
  rw [Layout.membersText, List.append_assoc,
    skipSpace_append (y.isSpace_gap level)]
  exact skipSpace_cons (by decide) rest

/-- The last item, and the bracket behind it. -/
theorem readItems_last {level around fuel : Nat} {v : Json} {rest : List Char}
    (h : readValue fuel around
        (y.text (level + 1) v ++ (y.itemsText level [] ++ rest)) =
      some (v, y.itemsText level [] ++ rest)) :
    readItems (fuel + 1) around
        (y.text (level + 1) v ++ (y.itemsText level [] ++ rest)) =
      some ([v], rest) := by
  simp [h, skipSpace_itemsText_nil]

/-- An item, and the items behind the comma that follows it. -/
theorem readItems_more {level around fuel : Nat} {v w : Json} {ws : List Json}
    {rest : List Char}
    (h : readValue fuel around
        (y.text (level + 1) v ++ (y.itemsText level (w :: ws) ++ rest)) =
      some (v, y.itemsText level (w :: ws) ++ rest))
    (hmore : readItems fuel around (y.gap (level + 1) ++
        (y.text (level + 1) w ++ (y.itemsText level ws ++ rest))) =
      some (w :: ws, rest)) :
    readItems (fuel + 1) around
        (y.text (level + 1) v ++ (y.itemsText level (w :: ws) ++ rest)) =
      some (v :: w :: ws, rest) := by
  have hc : isSpace ',' = false := by decide
  simp only [readItems, h]
  simp [Layout.itemsText, skipSpace_cons hc, hmore]

/-- The last member, and the brace behind it. -/
theorem readMembers_last {level around fuel : Nat} {k : String} {v : Json}
    {rest : List Char}
    (h : readValue fuel around (y.afterColon ++
        (y.text (level + 1) v ++ (y.membersText level [] ++ rest))) =
      some (v, y.membersText level [] ++ rest)) :
    readMembers (fuel + 1) around (renderString k ++ ':' ::
        (y.afterColon ++
          (y.text (level + 1) v ++ (y.membersText level [] ++ rest)))) =
      some (keyed [(k, v)], rest) := by
  have hq : isSpace '"' = false := by decide
  have hcolon : isSpace ':' = false := by decide
  simp [renderString, skipSpace_cons hq, readString_escaped,
    skipSpace_cons hcolon, h, skipSpace_membersText_nil, keyed]

/-- A member, and the members behind the comma that follows it. -/
theorem readMembers_more {level around fuel : Nat} {k q : String} {v w : Json}
    {ms : List (String × Json)} {rest : List Char}
    (h : readValue fuel around (y.afterColon ++
        (y.text (level + 1) v ++
          (y.membersText level ((q, w) :: ms) ++ rest))) =
      some (v, y.membersText level ((q, w) :: ms) ++ rest))
    (hmore : readMembers fuel around (y.gap (level + 1) ++
        (renderString q ++ ':' ::
          (y.afterColon ++
            (y.text (level + 1) w ++ (y.membersText level ms ++ rest))))) =
      some (keyed ((q, w) :: ms), rest)) :
    readMembers (fuel + 1) around (renderString k ++ ':' ::
        (y.afterColon ++
          (y.text (level + 1) v ++
            (y.membersText level ((q, w) :: ms) ++ rest)))) =
      some (keyed ((k, v) :: (q, w) :: ms), rest) := by
  have hq : isSpace '"' = false := by decide
  have hcolon : isSpace ':' = false := by decide
  have hc : isSpace ',' = false := by decide
  simp only [renderString, List.cons_append, List.append_assoc,
    List.nil_append] at hmore ⊢
  simp only [readMembers, skipSpace_cons hq, readString_escaped,
    skipSpace_cons hcolon, h, Option.bind_eq_bind, Option.bind_some]
  simp [Layout.membersText, renderString, skipSpace_cons hc, hmore, keyed]

theorem readItems_blanks {blanks : List Char}
    (h : ∀ c ∈ blanks, isSpace c = true) (fuel around : Nat) (s : List Char) :
    readItems fuel around (blanks ++ s) = readItems fuel around s := by
  cases fuel with
  | zero => simp
  | succ fuel => simp [readValue_blanks h]

theorem readMembers_blanks {blanks : List Char}
    (h : ∀ c ∈ blanks, isSpace c = true) (fuel around : Nat) (s : List Char) :
    readMembers fuel around (blanks ++ s) = readMembers fuel around s := by
  cases fuel with
  | zero => simp
  | succ fuel => simp [skipSpace_append h]

/-! ## Reading values -/

mutual
/-- **Reading inverts every layout**: the text of a plain value is read back. -/
theorem readValue_text {v : Json} {levels level around fuel : Nat}
    {rest : List Char} (h : isPlain levels v = true)
    (hdepth : around + levels ≤ depthLimit) (hrest : EndsNumber rest)
    (hfuel : 2 * (y.text level v).length ≤ fuel + 1) :
    readValue fuel around (y.text level v ++ rest) = some (v, rest) := by
  cases fuel with
  | zero =>
    obtain ⟨c, s, hc, -⟩ := text_eq_cons (y := y) level h
    rw [hc, List.length_cons] at hfuel
    omega
  | succ fuel =>
    cases v with
    | null => simp [Layout.text, render, skipSpace, isSpace]
    | bool b => cases b <;> simp [Layout.text, render, skipSpace, isSpace]
    | int n =>
      cases n with
      | ofNat n =>
        simp only [isPlain, Bool.and_eq_true, decide_eq_true_eq] at h
        exact readValue_int (Int.ofNat_lt.mp h.2) fuel around hrest
      | negSucc n => simp [isPlain] at h
    | fraction numeral => simp [isPlain] at h
    | str s => exact readValue_str s fuel around rest
    | unreadable => simp [isPlain] at h
    | arr items =>
      simp only [isPlain, Bool.and_eq_true, decide_eq_true_eq] at h
      have hlt : around < depthLimit := by omega
      cases items with
      | nil => simp [Layout.text, render, skipSpace, isSpace, hlt]
      | cons v vs =>
        simp only [itemsPlain, Bool.and_eq_true] at h
        simp only [Layout.text, List.length_cons, List.length_append] at hfuel
        exact readValue_arr h.2.1 hlt
          (readItems_text h.2.1 h.2.2 (by omega) (by omega))
    | obj members =>
      simp only [isPlain, Bool.and_eq_true, decide_eq_true_eq] at h
      have hlt : around < depthLimit := by omega
      cases members with
      | nil => simp [Layout.text, render, skipSpace, isSpace, hlt, ofMembers]
      | cons m ms =>
        obtain ⟨k, v⟩ := m
        simp only [membersPlain, Bool.and_eq_true] at h
        simp only [Layout.text, List.length_cons, List.length_append] at hfuel
        exact readValue_obj hlt
          (readMembers_text h.2.1 h.2.2 (by omega) (by omega))
  termination_by fuel

/-- The items of an array read back. -/
theorem readItems_text {v : Json} {vs : List Json}
    {levels level around fuel : Nat} {rest : List Char}
    (hv : isPlain levels v = true) (hvs : itemsPlain levels vs = true)
    (hdepth : around + levels ≤ depthLimit)
    (hfuel : 2 *
        ((y.text (level + 1) v).length + (y.itemsText level vs).length) ≤
      fuel) :
    readItems fuel around
        (y.text (level + 1) v ++ (y.itemsText level vs ++ rest)) =
      some (v :: vs, rest) := by
  cases fuel with
  | zero =>
    obtain ⟨c, s, hc, -⟩ := text_eq_cons (y := y) (level + 1) hv
    rw [hc, List.length_cons] at hfuel
    omega
  | succ fuel =>
    have hread : readValue fuel around
        (y.text (level + 1) v ++ (y.itemsText level vs ++ rest)) =
          some (v, y.itemsText level vs ++ rest) :=
      readValue_text hv hdepth (endsNumber_itemsText level vs rest) (by omega)
    cases vs with
    | nil => exact readItems_last hread
    | cons w ws =>
      simp only [itemsPlain, Bool.and_eq_true] at hvs
      simp only [Layout.itemsText, List.length_cons, List.length_append] at hfuel
      refine readItems_more hread ?_
      rw [readItems_blanks (y.isSpace_gap _)]
      exact readItems_text hvs.1 hvs.2 hdepth (by omega)
  termination_by fuel

/-- The members of an object read back. -/
theorem readMembers_text {k : String} {v : Json} {ms : List (String × Json)}
    {levels level around fuel : Nat} {rest : List Char}
    (hv : isPlain levels v = true) (hms : membersPlain levels ms = true)
    (hdepth : around + levels ≤ depthLimit)
    (hfuel : 2 *
        ((y.text (level + 1) v).length + (y.membersText level ms).length) ≤
      fuel) :
    readMembers fuel around (renderString k ++ ':' ::
        (y.afterColon ++
          (y.text (level + 1) v ++ (y.membersText level ms ++ rest)))) =
      some (keyed ((k, v) :: ms), rest) := by
  cases fuel with
  | zero =>
    obtain ⟨c, s, hc, -⟩ := text_eq_cons (y := y) (level + 1) hv
    rw [hc, List.length_cons] at hfuel
    omega
  | succ fuel =>
    have hread : readValue fuel around (y.afterColon ++
        (y.text (level + 1) v ++ (y.membersText level ms ++ rest))) =
          some (v, y.membersText level ms ++ rest) := by
      rw [readValue_blanks y.isSpace_afterColon]
      exact readValue_text hv hdepth
        (endsNumber_membersText level ms rest) (by omega)
    cases ms with
    | nil => exact readMembers_last hread
    | cons m ms =>
      obtain ⟨q, w⟩ := m
      simp only [membersPlain, Bool.and_eq_true] at hms
      simp only [Layout.membersText, List.length_cons,
        List.length_append] at hfuel
      refine readMembers_more hread ?_
      rw [readMembers_blanks (y.isSpace_gap _)]
      exact readMembers_text hms.1 hms.2 hdepth (by omega)
  termination_by fuel
end

/-! ## Whole texts -/

/-- A whole text, with blanks behind it. -/
theorem readAll_text {v : Json} {levels : Nat} (h : isPlain levels v = true)
    (hdepth : levels ≤ depthLimit) {blanks : List Char}
    (hblanks : ∀ c ∈ blanks, isSpace c = true) (level : Nat) :
    readAll (y.text level v ++ blanks) = some v := by
  have hread :
      readValue (fuelFor (y.text level v ++ blanks)) 0
          (y.text level v ++ blanks) =
        some (v, blanks) := by
    refine readValue_text h (by omega) ?_ (by simp [fuelFor]; omega)
    simpa using endsNumber_append hblanks endsNumber_nil
  have hrest : skipSpace blanks = [] := by
    have h := skipSpace_append hblanks []
    rwa [List.append_nil] at h
  simp [readAll, hread, hrest]

/-! ## The two layouts -/

/-- The layout on one line. -/
def Layout.compact : Layout where
  gap := fun _ => []
  afterColon := []
  isSpace_gap := by simp
  isSpace_afterColon := by simp

/-- The layout with an item a line. -/
def Layout.indented : Layout where
  gap := lineAt
  afterColon := [' ']
  isSpace_gap := by
    intro level c hc
    simp only [lineAt, List.mem_cons, List.mem_replicate] at hc
    rcases hc with rfl | ⟨-, rfl⟩ <;> decide
  isSpace_afterColon := by simp [isSpace]

mutual
theorem text_compact (level : Nat) :
    ∀ v : Json, Layout.compact.text level v = render v
  | null => rfl
  | bool _ => rfl
  | int _ => rfl
  | fraction _ => rfl
  | str _ => rfl
  | unreadable => rfl
  | arr [] => rfl
  | arr (v :: rest) => by
    rw [Layout.text, render, text_compact (level + 1) v,
      itemsText_compact level rest]
    rfl
  | obj [] => rfl
  | obj ((k, v) :: rest) => by
    rw [Layout.text, render, text_compact (level + 1) v,
      membersText_compact level rest]
    rfl

theorem itemsText_compact (level : Nat) :
    ∀ vs : List Json, Layout.compact.itemsText level vs = renderItems vs
  | [] => rfl
  | v :: rest => by
    rw [Layout.itemsText, renderItems, text_compact (level + 1) v,
      itemsText_compact level rest]
    rfl

theorem membersText_compact (level : Nat) : ∀ ms : List (String × Json),
    Layout.compact.membersText level ms = renderMembers ms
  | [] => rfl
  | (k, v) :: rest => by
    rw [Layout.membersText, renderMembers, text_compact (level + 1) v,
      membersText_compact level rest]
    rfl
end

mutual
theorem text_indented (level : Nat) :
    ∀ v : Json, Layout.indented.text level v = renderAt level v
  | null => rfl
  | bool _ => rfl
  | int _ => rfl
  | fraction _ => rfl
  | str _ => rfl
  | unreadable => rfl
  | arr [] => rfl
  | arr (v :: rest) => by
    rw [Layout.text, renderAt, text_indented (level + 1) v,
      itemsText_indented level rest, List.append_assoc]
    rfl
  | obj [] => rfl
  | obj ((k, v) :: rest) => by
    rw [Layout.text, renderAt, text_indented (level + 1) v,
      membersText_indented level rest]
    simp [Layout.indented]

theorem itemsText_indented (level : Nat) :
    ∀ vs : List Json, Layout.indented.itemsText level vs = renderItemsAt level vs
  | [] => rfl
  | v :: rest => by
    rw [Layout.itemsText, renderItemsAt, text_indented (level + 1) v,
      itemsText_indented level rest, List.append_assoc]
    rfl

theorem membersText_indented (level : Nat) : ∀ ms : List (String × Json),
    Layout.indented.membersText level ms = renderMembersAt level ms
  | [] => rfl
  | (k, v) :: rest => by
    rw [Layout.membersText, renderMembersAt, text_indented (level + 1) v,
      membersText_indented level rest]
    simp [Layout.indented]
end

/-- The compact text of a plain value reads back, with blanks behind it. -/
theorem readAll_render {v : Json} {levels : Nat} (h : isPlain levels v = true)
    (hdepth : levels ≤ depthLimit) {blanks : List Char}
    (hblanks : ∀ c ∈ blanks, isSpace c = true) :
    readAll (render v ++ blanks) = some v := by
  rw [← text_compact 0 v]
  exact readAll_text h hdepth hblanks 0

/-- The indented text of a plain value reads back. -/
theorem readAll_renderAt {v : Json} {levels : Nat} (h : isPlain levels v = true)
    (hdepth : levels ≤ depthLimit) : readAll (renderAt 0 v) = some v := by
  rw [← text_indented 0 v, ← List.append_nil (Layout.indented.text 0 v)]
  exact readAll_text h hdepth (by simp) 0

end CouncilLedger.Json
