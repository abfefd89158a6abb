import CouncilLedger.BlockLog
import CouncilLedger.Proofs.Json.Records

/-!
# What is on disk reads back

A log that consists of the lines of some blocks is read as these blocks and left
alone, and appending a block to it makes it the log of one block more, or leaves
it as it was. A checkpoint that was written is the one that is loaded. The main
statements are `BlockLog.read_of_file?`, `BlockLog.append_taken` and
`Checkpoint.load?_save`.
-/

namespace CouncilLedger

/-! ## Files -/

namespace DataDir

theorem isDirectory_of_file? {d : DataDir} {name : String} {bytes : List UInt8}
    (h : d.file? name = some bytes) : d.isDirectory name = false := by
  unfold file? at h
  cases hitem : d.items.get? name with
  | none => simp [isDirectory, hitem]
  | some item =>
    rw [hitem, Option.join_some] at h
    simp [isDirectory, hitem, h]

theorem contains_of_file? {d : DataDir} {name : String} {bytes : List UInt8}
    (h : d.file? name = some bytes) : d.contains name = true := by
  unfold file? at h
  cases hitem : d.items.get? name with
  | none => simp [hitem] at h
  | some item => simp [contains, SortedMap.contains, hitem]

theorem file?_put (d : DataDir) (name other : String) (bytes : List UInt8) :
    (d.put name bytes).file? other =
      if other = name then some bytes else d.file? other := by
  rw [file?, put, SortedMap.get?_insert]
  split <;> rfl

theorem file?_put_self (d : DataDir) (name : String) (bytes : List UInt8) :
    (d.put name bytes).file? name = some bytes := by
  rw [file?_put, if_pos rfl]

/-- A file that is given the bytes it has stays as it is. -/
theorem put_of_file? {d : DataDir} {name : String} {bytes : List UInt8}
    (h : d.file? name = some bytes) : d.put name bytes = d := by
  rw [put, SortedMap.insert_of_get? (Option.join_eq_some_iff.mp h)]

theorem file?_remove (d : DataDir) (name other : String) :
    (d.remove name).file? other =
      if other = name then none else d.file? other := by
  rw [file?, remove, SortedMap.get?_erase]
  split <;> rfl

/-- Only a directory that is made is one. -/
theorem isDirectory_put {d : DataDir} {other : String}
    (h : d.isDirectory other = false) (name : String) (bytes : List UInt8) :
    (d.put name bytes).isDirectory other = false := by
  rw [isDirectory, put, SortedMap.get?_insert]
  split
  · rfl
  · exact h

theorem isDirectory_remove {d : DataDir} {other : String}
    (h : d.isDirectory other = false) (name : String) :
    (d.remove name).isDirectory other = false := by
  rw [isDirectory, remove, SortedMap.get?_erase]
  split
  · rfl
  · exact h

theorem isDirectory_replace {d : DataDir} {other : String}
    (h : d.isDirectory other = false) (name temporary : String)
    (bytes : List UInt8) :
    (d.replace name temporary bytes).2.isDirectory other = false := by
  unfold replace
  split
  · exact h
  · dsimp only
    split
    · exact isDirectory_put h _ _
    · exact isDirectory_put (isDirectory_remove (isDirectory_put h _ _) _) _ _

/-- Replacing a file changes no third one. -/
theorem file?_replace_of_ne {d : DataDir} {name temporary other : String}
    {bytes : List UInt8} (hname : other ≠ name)
    (htemporary : other ≠ temporary) :
    (d.replace name temporary bytes).2.file? other = d.file? other := by
  unfold replace
  split
  · rfl
  · dsimp only
    split
    · simp [file?_put, htemporary]
    · simp [file?_put, file?_remove, hname, htemporary]

/-- Replacing a file gives it its new bytes, or leaves it as it was. -/
theorem file?_replace (d : DataDir) {name temporary : String}
    (bytes : List UInt8) (h : name ≠ temporary) :
    (d.replace name temporary bytes).2.file? name = some bytes ∨
      (d.replace name temporary bytes).2.file? name = d.file? name := by
  unfold replace
  split
  · exact .inr rfl
  · dsimp only
    split
    · exact .inr (by simp [file?_put, h])
    · exact .inl (by simp [file?_put])

end DataDir

/-! ## Compact text

The compact text of a plain value holds no control characters, so that it stays
on one line. -/

namespace Json

/-- No control character. -/
def Visible (cs : List Char) : Prop := ∀ c ∈ cs, 0x20 ≤ c.toNat

@[simp] theorem visible_nil : Visible [] := nofun

@[simp] theorem visible_cons {c : Char} {cs : List Char} :
    Visible (c :: cs) ↔ 0x20 ≤ c.toNat ∧ Visible cs :=
  List.forall_mem_cons

@[simp] theorem visible_append {cs ds : List Char} :
    Visible (cs ++ ds) ↔ Visible cs ∧ Visible ds :=
  List.forall_mem_append

theorem visible_digits :
    ∀ n < 0x20, 0x20 ≤ (Nat.digitChar (n / 16)).toNat ∧
      0x20 ≤ (Nat.digitChar (n % 16)).toNat := by
  decide

theorem visible_escapeChar (c : Char) : Visible (escapeChar c) := by
  have hdigits := visible_digits c.toNat
  unfold escapeChar
  repeat' split
  all_goals simp_all

theorem visible_renderString (s : String) : Visible (renderString s) := by
  have hescaped : Visible (s.toList.flatMap escapeChar) := by
    intro c hc
    obtain ⟨e, -, hc⟩ := List.mem_flatMap.mp hc
    exact visible_escapeChar e c hc
  simp [renderString, hescaped]

theorem visible_toDigits (n : Nat) : Visible (Nat.toDigits 10 n) := by
  intro c hc
  have hdigit := isDigit_of_mem_toDigits hc
  simp only [Char.isDigit, Bool.and_eq_true, decide_eq_true_eq] at hdigit
  have h := UInt32.le_iff_toNat_le.mp hdigit.1
  exact Nat.le_trans (by decide) h

mutual
theorem visible_render :
    ∀ {v : Json} {levels : Nat}, isPlain levels v = true → Visible (render v)
  | null, _, _ => by simp [render]
  | bool true, _, _ => by simp [render]
  | bool false, _, _ => by simp [render]
  | int n, _, h => by
    simp only [isPlain, Bool.and_eq_true, decide_eq_true_eq] at h
    obtain ⟨n, rfl⟩ := Int.eq_ofNat_of_zero_le h.1
    rw [render]
    exact visible_toDigits n
  | fraction _, _, h => by cases h
  | str s, _, _ => by
    rw [render]
    exact visible_renderString s
  | unreadable, _, h => by cases h
  | arr [], _, _ => by simp [render]
  | arr (v :: rest), _, h => by
    simp only [isPlain, itemsPlain, Bool.and_eq_true] at h
    simp [render, visible_render h.2.1, visible_renderItems h.2.2]
  | obj [], _, _ => by simp [render]
  | obj ((k, v) :: rest), _, h => by
    simp only [isPlain, membersPlain, Bool.and_eq_true] at h
    simp [render, visible_renderString k, visible_render h.2.1,
      visible_renderMembers h.2.2]

theorem visible_renderItems :
    ∀ {vs : List Json} {levels : Nat}, itemsPlain levels vs = true →
    Visible (renderItems vs)
  | [], _, _ => by simp [renderItems]
  | v :: rest, _, h => by
    simp only [itemsPlain, Bool.and_eq_true] at h
    simp [renderItems, visible_render h.1, visible_renderItems h.2]

theorem visible_renderMembers : ∀ {ms : List (String × Json)} {levels : Nat},
    membersPlain levels ms = true → Visible (renderMembers ms)
  | [], _, _ => by simp [renderMembers]
  | (k, v) :: rest, _, h => by
    simp only [membersPlain, Bool.and_eq_true] at h
    simp [renderMembers, visible_renderString k, visible_render h.1,
      visible_renderMembers h.2]
end

end Json

/-! ## The block log -/

namespace BlockLog

theorem newline_notMem_render (b : Block) : '\n' ∉ b.toJson.render := by
  intro h
  exact absurd (Json.visible_render (b.isPlain_toJson 0) _ h) (by decide)

theorem block?_line (b : Block) : block? (line b) = some b := by
  have hread : Json.readAll (line b) = some b.toJson :=
    Json.readAll_render (b.isPlain_toJson 0) (by decide) (by simp [Json.isSpace])
  simp [block?, hread, b.ofJson?_toJson]

theorem isBlank_line (b : Block) : Text.isBlank (line b) = false := by
  simp [line, Block.toJson, Json.render, Text.isBlank, Text.isBlankChar]

theorem getLast?_line (b : Block) : (line b).getLast? = some '\n' := by
  simp [line]

/-- A line ends at its first line end. -/
theorem lines_append {cs : List Char} (h : '\n' ∉ cs) (rest : List Char) :
    lines (cs ++ '\n' :: rest) = (cs ++ ['\n']) :: lines rest := by
  induction cs with
  | nil => simp [lines]
  | cons c cs ih =>
    simp only [List.mem_cons, not_or] at h
    rw [List.cons_append, lines, if_neg (Ne.symm h.1), ih h.2]
    rfl

theorem lines_flatMap_line (blocks : List Block) :
    lines (blocks.flatMap line) = blocks.map line := by
  induction blocks with
  | nil => rfl
  | cons b rest ih =>
    have hline : line b ++ rest.flatMap line =
        b.toJson.render ++ '\n' :: rest.flatMap line := by
      simp [line]
    rw [List.flatMap_cons, hline, lines_append (newline_notMem_render b), ih]
    rfl

theorem findings_map_line (blocks : List Block) :
    findings (blocks.map line) = ⟨blocks, blocks.flatMap line, true⟩ := by
  induction blocks with
  | nil => rfl
  | cons b rest ih =>
    simp [findings, isBlank_line, block?_line, getLast?_line, ih]

/-- **A log reads back**: what is read is the blocks whose lines it consists of,
and the directory stays as it is. -/
theorem read_of_file? {d : DataDir} {blocks : List Block}
    (h : d.file? name = some (bytesOf blocks)) : read d = (.ok blocks, d) := by
  have hcontains := DataDir.contains_of_file? h
  have htext : Text.decode? (bytesOf blocks) = some (blocks.flatMap line) :=
    Text.decode?_encode _
  simp [read, hcontains, h, htext, lines_flatMap_line, findings_map_line]

/-! ### Appending -/

theorem bytesOf_append (blocks : List Block) (b : Block) :
    bytesOf (blocks ++ [b]) = bytesOf blocks ++ Text.encode (line b) := by
  simp [bytesOf, Text.encode_append]

theorem encode_line (b : Block) :
    Text.encode (line b) = Text.encode b.toJson.render ++ [10] := by
  rw [line, Text.encode_append]
  rfl

theorem bytesOf_ne_nil {blocks : List Block} (h : blocks ≠ []) :
    bytesOf blocks ≠ [] := by
  obtain ⟨before, b, rfl⟩ := (List.eq_nil_or_concat blocks).resolve_left h
  rw [List.concat_eq_append, bytesOf_append, encode_line]
  simp

/-- A line end is kept, and what follows it is cut by itself. -/
theorem wholeLines_append_cons (before after : List UInt8) :
    wholeLines (before ++ 10 :: after) = before ++ 10 :: wholeLines after := by
  have hreverse : (before ++ 10 :: after).reverse = after.reverse ++ 10 ::
      before.reverse := by simp
  rw [wholeLines, wholeLines, hreverse, List.dropWhile_append]
  cases hdrop : after.reverse.dropWhile (· != 10) <;> simp

/-- Nothing is cut off a log of whole lines. -/
theorem wholeLines_bytesOf (blocks : List Block) :
    wholeLines (bytesOf blocks) = bytesOf blocks := by
  rcases List.eq_nil_or_concat blocks with rfl | ⟨before, b, rfl⟩
  · rfl
  · rw [List.concat_eq_append, bytesOf_append, encode_line, ← List.append_assoc,
      wholeLines_append_cons]
    rfl

variable {d : DataDir} {blocks : List Block}

/-- A line that the disk takes makes the log that of one block more. -/
theorem append_taken (hdir : d.isDirectory name = false)
    (h : (d.file? name).getD [] = bytesOf blocks) (b : Block) :
    append d true b = (.ok (), d.put name (bytesOf (blocks ++ [b]))) := by
  simp [append, hdir, h, wholeLines_bytesOf, bytesOf_append]

/-- A line that the disk does not take leaves no trace. -/
theorem append_refused (hdir : d.isDirectory name = false)
    (h : (d.file? name).getD [] = bytesOf blocks) (b : Block) :
    append d false b = (.error .appendFailed, d.put name (bytesOf blocks)) := by
  simp [append, hdir, h, wholeLines_bytesOf]

theorem isDirectory_append {other : String} (h : d.isDirectory other = false)
    (takes : Bool) (b : Block) :
    (append d takes b).2.isDirectory other = false := by
  unfold append
  split
  · exact h
  · dsimp only
    split <;> exact DataDir.isDirectory_put h _ _

end BlockLog

/-! ## Checkpoints -/

namespace Checkpoint

/-- The bytes of a checkpoint. -/
def bytes (c : Checkpoint) : List UInt8 := Text.encode (c.toJson.renderAt 0)

/-- **A checkpoint reads back**: the bytes of one are loaded as what they were
written from. -/
theorem load?_of_file? {d : DataDir} {c : Checkpoint}
    (h : d.file? name = some c.bytes) : load? d = some c := by
  have htext : Text.decode? c.bytes = some (c.toJson.renderAt 0) :=
    Text.decode?_encode _
  have hread : Json.readAll (c.toJson.renderAt 0) = some c.toJson :=
    Json.readAll_renderAt (c.isPlain_toJson 0) (by decide)
  simp [load?, h, htext, hread, c.ofJson?_toJson]

theorem load?_of_file?_eq_none {d : DataDir} (h : d.file? name = none) :
    load? d = none := by
  simp [load?, h]

/-- Writing a checkpoint makes it the one of the directory, or leaves that as it
was. -/
theorem file?_save (c : Checkpoint) (d : DataDir) :
    (c.save d).2.file? name = some c.bytes ∨
      (c.save d).2.file? name = d.file? name :=
  d.file?_replace _ (by decide)

theorem file?_save_log (c : Checkpoint) (d : DataDir) :
    (c.save d).2.file? BlockLog.name = d.file? BlockLog.name :=
  DataDir.file?_replace_of_ne (by decide) (by decide)

end Checkpoint
end CouncilLedger
