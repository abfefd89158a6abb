import CouncilLedger.Proofs.Toml.Scalars

/-!
# TOML documents read back

A document has members that stand on one line each, tables and arrays of tables,
all under bare keys. It is read line by line, and `Place.Takes` says where some
lines lead whatever stands behind them: a member goes to the end of the table
that is open, a header opens a table behind all others, and a blank line changes
nothing. So a document is read back as it was written, except that the members
on one line now come first. The main statement is `read_render`.
-/

namespace CouncilLedger.Toml

/-! ## Members while they are read -/

namespace Members

variable {key : String} {e e' : Entry} {front : Members}

theorem lookup_of_fresh (h : key ∉ front.map (·.1)) :
    front.lookup key = none := by
  rw [List.lookup_eq_none_iff]
  intro p hp
  rw [bne_iff_ne]
  rintro rfl
  exact h (List.mem_map_of_mem hp)

theorem lookup_last (h : key ∉ front.map (·.1)) :
    (front ++ [(key, e)]).lookup key = some e := by
  rw [List.lookup_append, lookup_of_fresh h, Option.none_or,
    List.lookup_cons_self]

theorem put_of_fresh (h : key ∉ front.map (·.1)) :
    put key e front = front ++ [(key, e)] := by
  induction front with
  | nil => rfl
  | cons p front ih =>
    rw [List.map_cons, List.mem_cons, not_or] at h
    rw [put, if_neg fun heq => h.1 heq.symm, ih h.2]
    rfl

theorem put_last (h : key ∉ front.map (·.1)) :
    put key e' (front ++ [(key, e)]) = front ++ [(key, e')] := by
  induction front with
  | nil => exact if_pos rfl
  | cons p front ih =>
    rw [List.map_cons, List.mem_cons, not_or] at h
    rw [List.cons_append, put, if_neg fun heq => h.1 heq.symm, ih h.2]
    rfl

/-- A key without dots is added at the end of a table. -/
theorem addDotted_nil (h : key ∉ front.map (·.1)) (v : Toml) (origin : Origin) :
    addDotted [] key v origin front = some (front ++ [(key, .value v)]) := by
  rw [addDotted, change, addValue, if_neg (by simp), lookup_of_fresh h,
    put_of_fresh h]
  rfl

/-- Members that all are values. -/
def ofValues (ms : List (String × Toml)) : Members :=
  ms.map fun m => (m.1, .value m.2)

theorem keys_ofValues (ms : List (String × Toml)) :
    (ofValues ms).map (·.1) = ms.map (·.1) := by
  rw [ofValues, List.map_map]
  rfl

theorem ofValues_append (ms more : List (String × Toml)) :
    ofValues (ms ++ more) = ofValues ms ++ ofValues more := List.map_append

end Members

open Members (ofValues)

theorem membersToToml_eq_map : ∀ ms : Members,
    membersToToml ms = ms.map fun m => (m.1, m.2.toToml)
  | [] => by rw [membersToToml, List.map_nil]
  | (key, e) :: rest => by
    rw [membersToToml, membersToToml_eq_map rest, List.map_cons]

theorem membersToToml_append (ms more : Members) :
    membersToToml (ms ++ more) = membersToToml ms ++ membersToToml more := by
  simp only [membersToToml_eq_map, List.map_append]

theorem membersToToml_ofValues (ms : List (String × Toml)) :
    membersToToml (ofValues ms) = ms := by
  rw [membersToToml_eq_map, ofValues, List.map_map]
  refine (List.map_congr_left fun m _ => ?_).trans (List.map_id ms)
  rw [Function.comp, Entry.toToml]
  rfl

theorem tablesToToml_map : ∀ latestFirst : List (List (String × Toml)),
    tablesToToml (latestFirst.map ofValues) = latestFirst.map .table
  | [] => by rw [List.map_nil, tablesToToml, List.map_nil]
  | t :: rest => by
    rw [List.map_cons, tablesToToml, tablesToToml_map rest,
      membersToToml_ofValues, List.map_cons]

/-! ## Statements -/

namespace Place

/-- Places that differ in the members of the open table alone, to which keys can
be added. -/
def Opens (place : Members → Place) : Prop := ∀ ms key v, key ∉ ms.map (·.1) →
  (place ms).add [] key v = some (place (ms ++ [(key, .value v)]))

variable {key : String} {front : Members}

theorem opens_root : Opens fun ms => ⟨[], ms⟩ := by
  intro ms key v hfresh
  simp only [add, Members.change, Members.addDotted_nil hfresh]
  rfl

theorem opens_table (h : key ∉ front.map (·.1)) :
    Opens fun ms => ⟨[key], front ++ [(key, .table .header ms)]⟩ := by
  intro ms k v hfresh
  simp [add, Members.change, Members.lookup_last h, Members.addDotted_nil hfresh,
    Members.put_last h]

theorem opens_item (h : key ∉ front.map (·.1)) (earlier : List Members) :
    Opens fun ms => ⟨[key], front ++ [(key, .tables (ms :: earlier))]⟩ := by
  intro ms k v hfresh
  simp [add, Members.change, Members.lookup_last h, Members.addDotted_nil hfresh,
    Members.put_last h]

/-- The header of a new table opens it behind all others. -/
theorem header_table (h : key ∉ front.map (·.1)) (path : List String) :
    header ⟨path, front⟩ false [] key =
      some ⟨[key], front ++ [(key, .table .header [])]⟩ := by
  simp [header, Members.change, Members.openTable, Members.lookup_of_fresh h,
    Members.put_of_fresh h]

/-- The header of the first item opens an array behind all other members. -/
theorem header_first (h : key ∉ front.map (·.1)) (path : List String) :
    header ⟨path, front⟩ true [] key =
      some ⟨[key], front ++ [(key, .tables [[]])]⟩ := by
  simp [header, Members.change, Members.openItem, Members.lookup_of_fresh h,
    Members.put_of_fresh h]

/-- The header of an item opens it in the array that comes last. -/
theorem header_next (h : key ∉ front.map (·.1)) (path : List String)
    (items : List Members) :
    header ⟨path, front ++ [(key, .tables items)]⟩ true [] key =
      some ⟨[key], front ++ [(key, .tables ([] :: items))]⟩ := by
  simp [header, Members.change, Members.openItem, Members.lookup_last h,
    Members.put_last h]

end Place

variable {key : String}

theorem endLine_lineEnd (rest : List Char) :
    endLine ('\n' :: rest) = some rest := rfl

/-- The statement of a member on one line. -/
theorem readStatement_member {m : String × Toml} (hkey : IsBareKey m.1)
    (hv : IsInline m.2) (place : Place) (rest : List Char) :
    readStatement place (renderMember m ++ rest) =
      (place.add [] m.1 m.2).map (·, rest) := by
  have htext : renderMember m ++ rest =
      m.1.toList ++ ' ' :: '=' :: ' ' :: (renderValue m.2 ++ '\n' :: rest) := by
    simp [renderMember, renderKey_of_bare hkey]
  have hread :
      readKey (m.1.toList ++ ' ' :: '=' :: ' ' ::
          (renderValue m.2 ++ '\n' :: rest)) =
        some (([], m.1), '=' :: ' ' :: (renderValue m.2 ++ '\n' :: rest)) :=
    readKey_bare hkey (by decide) rfl (by decide)
  have hvalue :
      readValue (2 * (' ' :: (renderValue m.2 ++ '\n' :: rest)).length + 2)
          nestingLimit (skipBlanks (' ' :: (renderValue m.2 ++ '\n' :: rest))) =
        some (m.2, '\n' :: rest) := by
    rw [show skipBlanks (' ' :: (renderValue m.2 ++ '\n' :: rest)) =
      skipBlanks (renderValue m.2 ++ '\n' :: rest) from rfl, hv.unblank]
    exact hv.reads _ _ (by omega)
  obtain ⟨c, cs, hcs, hc⟩ := hkey.exists_cons
  have hbracket : c ≠ '[' := fun heq => (isBare_spec hc).2.1 (heq ▸ by decide)
  rw [htext]
  unfold readStatement
  split
  · next heq =>
    rw [hcs] at heq
    exact absurd (List.cons.inj heq).1 hbracket
  · next heq =>
    rw [hcs] at heq
    exact absurd (List.cons.inj heq).1 hbracket
  · simp only [hread, hvalue, endLine_lineEnd, Option.bind_eq_bind,
      Option.bind_some]
    cases place.add [] m.1 m.2 <;> rfl

/-- The statement of the header of a table. -/
theorem readStatement_header (hkey : IsBareKey key) (place : Place)
    (rest : List Char) :
    readStatement place (['['] ++ renderKey key ++ [']', '\n'] ++ rest) =
      (place.header false [] key).map (·, rest) := by
  have hread : readKey (key.toList ++ ']' :: '\n' :: rest) =
      some (([], key), ']' :: '\n' :: rest) :=
    readKey_bare hkey (by decide) rfl (by decide)
  obtain ⟨c, cs, hcs, hc⟩ := hkey.exists_cons
  have hbracket : c ≠ '[' := fun heq => (isBare_spec hc).2.1 (heq ▸ by decide)
  rw [show ['['] ++ renderKey key ++ [']', '\n'] ++ rest =
    '[' :: (key.toList ++ ']' :: '\n' :: rest) by simp [renderKey_of_bare hkey]]
  unfold readStatement
  split
  · next heq =>
    rw [hcs] at heq
    exact absurd (List.cons.inj (List.cons.inj heq).2).1 hbracket
  · next heq =>
    cases heq
    simp only [hread, endLine_lineEnd, Option.bind_eq_bind, Option.bind_some]
    cases place.header false [] key <;> rfl
  · next hother => exact absurd rfl (hother _)

/-- The statement of the header of an item. -/
theorem readStatement_item (hkey : IsBareKey key) (place : Place)
    (rest : List Char) :
    readStatement place
        (['[', '['] ++ renderKey key ++ [']', ']', '\n'] ++ rest) =
      (place.header true [] key).map (·, rest) := by
  have hread : readKey (key.toList ++ ']' :: ']' :: '\n' :: rest) =
      some (([], key), ']' :: ']' :: '\n' :: rest) :=
    readKey_bare hkey (by decide) rfl (by decide)
  rw [show ['[', '['] ++ renderKey key ++ [']', ']', '\n'] ++ rest =
    '[' :: '[' ::
    (key.toList ++ ']' :: ']' :: '\n' :: rest) by simp [renderKey_of_bare hkey]]
  unfold readStatement
  split
  · next heq =>
    cases heq
    simp only [hread, endLine_lineEnd, Option.bind_eq_bind, Option.bind_some]
    cases place.header true [] key <;> rfl
  · next hother heq => cases heq; exact absurd rfl (hother _)
  · next hother _ => exact absurd rfl (hother _)

/-! ## Lines -/

/-- Some lines lead from a place to another, whatever stands behind them, and
with no more steps than they have characters. They do not begin with a byte
order mark. -/
structure Place.Takes (before : Place) (lines : List Char) (after : Place) :
    Prop where
  unmarked : lines.head? ≠ some '\uFEFF'
  steps : ∃ n ≤ lines.length, ∀ fuel rest, readStatements (fuel + n) before
    (lines ++ rest) = readStatements fuel after rest

namespace Place.Takes

variable {before mid after : Place} {lines more : List Char}

theorem refl (place : Place) : place.Takes [] place :=
  ⟨nofun, 0, Nat.le_refl 0, fun _ _ => rfl⟩

theorem append (h : before.Takes lines mid) (h' : mid.Takes more after) :
    before.Takes (lines ++ more) after := by
  obtain ⟨n, hn, hlines⟩ := h.steps
  obtain ⟨k, hk, hmore⟩ := h'.steps
  refine ⟨?_, k + n, by rw [List.length_append]; omega, ?_⟩
  · cases lines with
    | nil => exact h'.unmarked
    | cons c lines => exact h.unmarked
  · intro fuel rest
    rw [← Nat.add_assoc, List.append_assoc, hlines, hmore]

/-- A blank line changes nothing. -/
theorem blank (place : Place) : place.Takes ['\n'] place :=
  ⟨by decide, 1, Nat.le_refl 1, fun _ _ => rfl⟩

/-- A line that is a statement. -/
theorem of_statement {c : Char} {line : List Char} (hblank : isBlank c = false)
    (hmark : c ∉ ['#', '\n', '\r', '\uFEFF'])
    (h : ∀ rest, readStatement before (c :: line ++ rest) = some (after, rest)) :
    before.Takes (c :: line) after := by
  simp only [List.mem_cons, List.not_mem_nil, or_false, not_or] at hmark
  obtain ⟨hcomment, hfeed, hreturn, hbom⟩ := hmark
  refine ⟨by simp [hbom], 1, by simp, ?_⟩
  intro fuel rest
  have hskip : skipBlanks (c :: (line ++ rest)) = c :: (line ++ rest) :=
    skipBlanks_cons hblank _
  have hend : endLine (c :: (line ++ rest)) = none := by
    simp [endLine, hskip, hcomment, afterLineEnd?, hfeed, hreturn]
  have hread := h rest
  rw [List.cons_append] at hread ⊢
  simp only [readStatements, hskip, hend, hread]
  rfl

/-- The lines of a whole text. -/
theorem read (h : (Place.mk [] []).Takes lines after) :
    Toml.read lines = some (membersToToml after.root) := by
  obtain ⟨n, hn, hsteps⟩ := h.steps
  have hmark : withoutMark lines = lines := by
    unfold withoutMark
    split
    · exact absurd rfl h.unmarked
    · rfl
  have hrun := hsteps (lines.length - n + 1) []
  rw [List.append_nil, show lines.length - n + 1 + n = lines.length +
    1 by omega] at hrun
  rw [Toml.read, hmark, hrun]
  rfl

end Place.Takes

/-! ### Members -/

/-- The members of a table that is written line by line. -/
structure IsSection (ms : List (String × Toml)) : Prop where
  bare : ∀ m ∈ ms, IsBareKey m.1
  distinct : (ms.map (·.1)).Nodup
  inline : ∀ m ∈ ms, IsInline m.2

theorem isSection_nil : IsSection [] := ⟨nofun, .nil, nofun⟩

theorem IsSection.cons {key : String} {v : Toml} {ms : List (String × Toml)}
    (hkey : IsBareKey key) (hfresh : key ∉ ms.map (·.1)) (hv : IsInline v)
    (h : IsSection ms) : IsSection ((key, v) :: ms) where
  bare := List.forall_mem_cons.mpr ⟨hkey, h.bare⟩
  distinct := List.nodup_cons.mpr ⟨hfresh, h.distinct⟩
  inline := List.forall_mem_cons.mpr ⟨hv, h.inline⟩

theorem takes_member {m : String × Toml} (hkey : IsBareKey m.1)
    (hv : IsInline m.2) {before after : Place}
    (hadd : before.add [] m.1 m.2 = some after) :
    before.Takes (renderMember m) after := by
  obtain ⟨c, cs, hcs, hc⟩ := hkey.exists_cons
  obtain ⟨hblank, hmarks, -⟩ := isBare_spec hc
  have hmember :
      renderMember m =
        c :: (cs ++ [' ', '=', ' '] ++ renderValue m.2 ++ ['\n']) := by
    rw [renderMember, renderKey_of_bare hkey, hcs]
    rfl
  rw [hmember]
  refine .of_statement hblank (fun hmem => hmarks ?_) fun rest => ?_
  · exact List.mem_of_mem_drop (i := 6) hmem
  · rw [← hmember, readStatement_member hkey hv, hadd]
    rfl

/-- The members of a section go behind those of the open table one after the
other. -/
theorem takes_more_members {place : Members → Place}
    (hplace : Place.Opens place) {ms : List (String × Toml)}
    (hbare : ∀ m ∈ ms, IsBareKey m.1) (hinline : ∀ m ∈ ms, IsInline m.2)
    (before : List (String × Toml))
    (hdistinct : ((before ++ ms).map (·.1)).Nodup) :
    (place (ofValues before)).Takes (ms.flatMap renderMember)
      (place (ofValues (before ++ ms))) := by
  induction ms generalizing before with
  | nil =>
    rw [List.append_nil]
    exact .refl _
  | cons m ms ih =>
    rw [List.forall_mem_cons] at hbare hinline
    have hfresh : m.1 ∉ (ofValues before).map (·.1) := by
      rw [Members.keys_ofValues]
      rw [List.map_append, List.nodup_append] at hdistinct
      exact fun hmem => hdistinct.2.2 _ hmem _ (by simp) rfl
    have hadd : (place (ofValues before)).add [] m.1 m.2 =
        some (place (ofValues (before ++ [m]))) := by
      rw [hplace _ _ _ hfresh, Members.ofValues_append]
      rfl
    rw [List.append_cons] at hdistinct ⊢
    rw [List.flatMap_cons]
    exact (takes_member hbare.1 hinline.1 hadd).append
      (ih hbare.2 hinline.2 _ hdistinct)

theorem takes_members {place : Members → Place} (hplace : Place.Opens place)
    {ms : List (String × Toml)} (hms : IsSection ms) :
    (place []).Takes (ms.flatMap renderMember) (place (ofValues ms)) :=
  takes_more_members hplace hms.bare hms.inline [] hms.distinct

/-! ### Blocks -/

/-- Some blocks of lines, one after the other, lead from a place to another. -/
inductive Place.TakesAll : Place → List (List Char) → Place → Prop
  | nil (place : Place) : TakesAll place [] place
  | cons {before mid after : Place} {block : List Char}
      {blocks : List (List Char)} :
      before.Takes block mid → TakesAll mid blocks after →
        TakesAll before (block :: blocks) after

namespace Place.TakesAll

variable {before mid after : Place} {blocks more : List (List Char)}

theorem append (h : before.TakesAll blocks mid) (h' : mid.TakesAll more after) :
    before.TakesAll (blocks ++ more) after := by
  induction h with
  | nil place => exact h'
  | cons hblock _ ih => exact .cons hblock (ih h')

/-- Blank lines may stand between the blocks. -/
theorem intercalate (h : before.TakesAll blocks after) :
    before.Takes (['\n'].intercalate blocks) after := by
  induction h with
  | nil place =>
    rw [List.intercalate_nil]
    exact .refl place
  | @cons before mid after block blocks hblock hblocks ih =>
    cases hblocks with
    | nil =>
      rw [List.intercalate_singleton]
      exact hblock
    | @cons _ next _ other others hother hothers =>
      rw [List.intercalate_cons_cons]
      exact (hblock.append (.blank mid)).append ih

end Place.TakesAll

/-- A table under its header. -/
def tableBlock (key : String) (ms : List (String × Toml)) : List Char :=
  ['['] ++ renderKey key ++ [']', '\n'] ++ ms.flatMap renderMember

/-- An item of an array of tables under its header. -/
def itemBlock (key : String) (ms : List (String × Toml)) : List Char :=
  ['[', '['] ++ renderKey key ++ [']', ']', '\n'] ++ ms.flatMap renderMember

/-- The tables of a value that is written under headers. -/
def sections : Toml → List (List (String × Toml))
  | table ms => [ms]
  | arr items => items.filterMap members?
  | _ => []

theorem eq_map_table_of_mapM {items : List Toml}
    {ts : List (List (String × Toml))} (h : items.mapM members? = some ts) :
    items = ts.map .table := by
  induction items generalizing ts with
  | nil =>
    cases h
    rfl
  | cons v items ih =>
    rw [List.mapM_cons] at h
    obtain ⟨t, ht, h⟩ := Option.bind_eq_some_iff.mp h
    obtain ⟨rest, hrest, h⟩ := Option.bind_eq_some_iff.mp h
    cases h
    unfold members? at ht
    split at ht
    · cases ht
      rw [ih hrest, List.map_cons]
    · cases ht

/-- What is written under headers is a table or an array of tables. -/
theorem blocks?_eq_some {m : String × Toml} {bs : List (List Char)}
    (h : blocks? m = some bs) :
    (∃ ms, m.2 = table ms ∧ bs = [tableBlock m.1 ms]) ∨
      ∃ t ts, m.2 = arr ((t :: ts).map .table) ∧
        bs = (t :: ts).map (itemBlock m.1) := by
  unfold blocks? at h
  split at h
  · next ms heq =>
    cases h
    exact .inl ⟨ms, heq, rfl⟩
  · next v rest heq =>
    obtain ⟨ts, hts, rfl⟩ := Option.map_eq_some_iff.mp h
    have hitems := eq_map_table_of_mapM hts
    cases ts with
    | nil => cases hitems
    | cons t ts => exact .inr ⟨t, ts, by rw [heq, hitems], rfl⟩
  · cases h

section Blocks

variable {key : String} {front : Members} (hkey : IsBareKey key)
    (hfresh : key ∉ front.map (·.1))
include hkey hfresh

/-- A table under its header comes behind all others. -/
theorem takes_table {ms : List (String × Toml)} (hms : IsSection ms)
    (path : List String) :
    (Place.mk path front).Takes (tableBlock key ms)
      ⟨[key], front ++ [(key, .table .header (ofValues ms))]⟩ := by
  have hheader :
      (Place.mk path front).Takes (['['] ++ renderKey key ++ [']', '\n'])
        ⟨[key], front ++ [(key, .table .header [])]⟩ := by
    refine .of_statement (by decide) (by decide) fun rest => ?_
    have hread := readStatement_header hkey ⟨path, front⟩ rest
    rw [Place.header_table hfresh] at hread
    exact hread
  exact hheader.append (takes_members (Place.opens_table hfresh) hms)

/-- An item under its header becomes the latest of its array. -/
theorem takes_item {ms : List (String × Toml)} (hms : IsSection ms)
    {before : Place} {items : List Members}
    (hopen : before.header true [] key =
      some ⟨[key], front ++ [(key, .tables ([] :: items))]⟩) :
    before.Takes (itemBlock key ms)
      ⟨[key], front ++ [(key, .tables (ofValues ms :: items))]⟩ := by
  have hheader : before.Takes (['[', '['] ++ renderKey key ++ [']', ']', '\n'])
      ⟨[key], front ++ [(key, .tables ([] :: items))]⟩ := by
    refine .of_statement (by decide) (by decide) fun rest => ?_
    have hread := readStatement_item hkey before rest
    rw [hopen] at hread
    exact hread
  exact hheader.append (takes_members (Place.opens_item hfresh items) hms)

/-- The items of an array come one after the other. -/
theorem takesAll_items {ts : List (List (String × Toml))}
    (hts : ∀ t ∈ ts, IsSection t) (items : List Members) :
    (Place.mk [key] (front ++ [(key, .tables items)])).TakesAll
      (ts.map (itemBlock key)) ⟨[key],
                                front ++
                                  [(key,
                                    .tables ((ts.map ofValues).reverse ++
                                      items))]⟩ := by
  induction ts generalizing items with
  | nil => exact .nil _
  | cons t ts ih =>
    rw [List.forall_mem_cons] at hts
    rw [List.map_cons, List.map_cons, List.reverse_cons, List.append_assoc]
    exact .cons (takes_item hkey hfresh hts.1
      (Place.header_next hfresh _ items)) (ih hts.2 _)

/-- What is written under headers comes behind all other members. -/
theorem takesAll_blocks {m : String × Toml} (hm : m.1 = key)
    {bs : List (List Char)} (hblocks : blocks? m = some bs)
    (hsections : ∀ t ∈ sections m.2, IsSection t) (path : List String) :
    ∃ e : Entry, e.toToml = m.2 ∧
      (Place.mk path front).TakesAll bs ⟨[key], front ++ [(key, e)]⟩ := by
  subst hm
  rcases blocks?_eq_some hblocks with ⟨ms, hms, rfl⟩ | ⟨t, ts, hts, rfl⟩
  · refine ⟨.table .header (ofValues ms), ?_,
      .cons (takes_table hkey hfresh ?_ path) (.nil _)⟩
    · rw [Entry.toToml, membersToToml_ofValues, hms]
    · exact hsections ms (hms ▸ List.mem_singleton_self ms)
  · have hall : ∀ u ∈ t :: ts, IsSection u := by
      intro u hu
      refine hsections u ?_
      rw [hts, sections, List.filterMap_map]
      exact List.mem_filterMap.mpr ⟨u, hu, rfl⟩
    rw [List.forall_mem_cons] at hall
    refine ⟨.tables ((ts.map ofValues).reverse ++ [ofValues t]), ?_, ?_⟩
    -- the latest item is at the head while an array is read
    · have hitems : (ts.map ofValues).reverse ++ [ofValues t] =
          ((t :: ts).map ofValues).reverse := by
        rw [List.map_cons, List.reverse_cons]
      rw [Entry.toToml, hitems, ← List.map_reverse,
        tablesToToml_map, ← List.map_reverse, List.reverse_reverse, hts]
    · exact .cons (takes_item hkey hfresh hall.1
        (Place.header_first hfresh path)) (takesAll_items hkey hfresh hall.2 _)

end Blocks

/-! ## Documents -/

/-- The members of a whole table that is written line by line. -/
structure IsDocument (ms : List (String × Toml)) : Prop where
  bare : ∀ m ∈ ms, IsBareKey m.1
  distinct : (ms.map (·.1)).Nodup
  inline : ∀ m ∈ ms, blocks? m = none → IsInline m.2
  sections : ∀ m ∈ ms, blocks? m ≠ none → ∀ t ∈ sections m.2, IsSection t

/-- What is written under headers comes one after the other. -/
theorem takesAll_tables {ms : List (String × Toml)}
    (hbare : ∀ m ∈ ms, IsBareKey m.1)
    (hsections : ∀ m ∈ ms, blocks? m ≠ none → ∀ t ∈ sections m.2, IsSection t)
    (path : List String) (front : Members)
    (hdistinct : (front.map (·.1) ++
      (ms.filter fun m => (blocks? m).isSome).map (·.1)).Nodup) :
    ∃ after : Place,
      (Place.mk path front).TakesAll (ms.filterMap blocks?).flatten after ∧
      membersToToml after.root =
        membersToToml front ++ ms.filter fun m => (blocks? m).isSome := by
  -- the keys already taken grow by those of the tables; members on one line are
  -- passed over
  induction ms generalizing path front with
  | nil => exact ⟨⟨path, front⟩, .nil _, (List.append_nil _).symm⟩
  | cons m ms ih =>
    rw [List.forall_mem_cons] at hbare hsections
    cases hblocks : blocks? m with
    | none =>
      rw [List.filter_cons_of_neg (by simp [hblocks])] at hdistinct ⊢
      rw [List.filterMap_cons_none hblocks]
      exact ih hbare.2 hsections.2 path front hdistinct
    | some bs =>
      rw [List.filter_cons_of_pos (by simp [hblocks])] at hdistinct ⊢
      rw [List.filterMap_cons_some hblocks, List.flatten_cons]
      have hfresh : m.1 ∉ front.map (·.1) := by
        rw [List.nodup_append] at hdistinct
        exact fun hmem => hdistinct.2.2 _ hmem _ (by simp) rfl
      obtain ⟨e, he, htakes⟩ := takesAll_blocks hbare.1 hfresh rfl hblocks
        (hsections.1 (by simp [hblocks])) path
      obtain ⟨after, htables, hroot⟩ := ih hbare.2 hsections.2 [m.1]
        (front ++ [(m.1, e)]) (by simpa using hdistinct)
      refine ⟨after, htakes.append htables, ?_⟩
      rw [hroot, membersToToml_append, List.append_assoc]
      simp [membersToToml_eq_map, he]

/-- The members as they are read back. -/
def lineMembersFirst (ms : List (String × Toml)) : List (String × Toml) :=
  (ms.filter fun m => (blocks? m).isNone) ++
    ms.filter fun m => (blocks? m).isSome

theorem perm_lineMembersFirst (ms : List (String × Toml)) :
    (lineMembersFirst ms).Perm ms := by
  simpa [lineMembersFirst] using List.filter_append_perm
    (fun m => (blocks? m).isNone) ms

/-- **A document is read back as it was written**, with the members on one line
in front. -/
theorem read_render {ms : List (String × Toml)} (hms : IsDocument ms) :
    Toml.read (render ms) = some (lineMembersFirst ms) := by
  have hdistinct :=
    ((perm_lineMembersFirst ms).map (·.1)).nodup_iff.mpr hms.distinct
  rw [lineMembersFirst, List.map_append] at hdistinct
  have hplain : IsSection (ms.filter fun m => (blocks? m).isNone) := by
    refine ⟨fun m hm => ?_, (List.nodup_append.mp hdistinct).1, fun m hm => ?_⟩
    · exact hms.bare m (List.mem_of_mem_filter hm)
    · obtain ⟨hmem, hnone⟩ := List.mem_filter.mp hm
      exact hms.inline m hmem (Option.isNone_iff_eq_none.mp hnone)
  -- no member on one line leaves no block at all, not an empty one
  have hlines : (Place.mk [] []).TakesAll (plainBlock ms)
      ⟨[], ofValues (ms.filter fun m => (blocks? m).isNone)⟩ := by
    have htakes := takes_members Place.opens_root hplain
    unfold plainBlock
    dsimp only
    split
    · next hempty =>
      have hnil : (ms.filter fun m => (blocks? m).isNone) = [] := by
        rw [List.isEmpty_iff, List.flatMap_eq_nil_iff] at hempty
        refine List.eq_nil_iff_forall_not_mem.mpr fun m hm => ?_
        have hmember := hempty m hm
        simp [renderMember] at hmember
      rw [hnil]
      exact .nil _
    · exact .cons htakes (.nil _)
  obtain ⟨after, htables, hroot⟩ := takesAll_tables hms.bare hms.sections []
    (ofValues (ms.filter fun m => (blocks? m).isNone))
    (by rw [Members.keys_ofValues]; exact hdistinct)
  rw [render, (hlines.append htables).intercalate.read, hroot,
    membersToToml_ofValues, lineMembersFirst]

theorem lookup_of_perm {ms ns : List (String × Toml)} (h : ms.Perm ns)
    (hdistinct : (ms.map (·.1)).Nodup) (key : String) :
    ms.lookup key = ns.lookup key := by
  induction h with
  | nil => rfl
  | cons m _ ih =>
    rw [List.lookup_cons, List.lookup_cons, ih (List.nodup_cons.mp hdistinct).2]
  | swap m n ms =>
    have hne : n.1 ≠ m.1 :=
      fun heq => (List.nodup_cons.mp hdistinct).1 (by simp [heq])
    rw [List.lookup_cons, List.lookup_cons, List.lookup_cons, List.lookup_cons]
    split
    · next hn =>
      have hm : (key == m.1) = false := by
        rw [eq_of_beq hn]
        exact beq_false_of_ne hne
      rw [hm]
    · rfl
  | trans hperm _ ih ih' =>
    rw [ih hdistinct, ih' ((hperm.map (·.1)).nodup_iff.mp hdistinct)]

/-- What is read back of a document has under each key what was written. -/
theorem lookup_lineMembersFirst {ms : List (String × Toml)}
    (hms : IsDocument ms) (key : String) :
    (lineMembersFirst ms).lookup key = ms.lookup key :=
  (lookup_of_perm (perm_lineMembersFirst ms).symm hms.distinct key).symm

end CouncilLedger.Toml
