import CouncilLedger.Proofs.Repair
import CouncilLedger.Proofs.Run

/-!
# Writing a log and reading it

A log that was empty holds what was written to it, be it block by block or all
at once: one line for each block, and reading it gives the blocks and changes
nothing. Nor does it matter what an unfinished write left behind the last line
end before a block was appended. The main statement is
`BlockLog.written_log_reads_back`.
-/

namespace CouncilLedger.BlockLog

variable {d : DataDir} {blocks : List Block} {tail : List UInt8}

/-! ## Writing -/

/-- The directory with some bytes behind the end of the log. -/
def withTail (d : DataDir) (tail : List UInt8) : DataDir :=
  if tail.isEmpty then d else d.put name ((d.file? name).getD [] ++ tail)

/-- Append some blocks in order, each one after its bytes were left at the end
of the log. -/
def appendAll (d : DataDir) : List (List UInt8 × Block) → DataDir.Outcome Unit
  | [] => (.ok (), d)
  | (tail, b) :: rest =>
    match append (withTail d tail) true b with
    | (.ok (), appended) => appendAll appended rest
    | (.error fault, left) => (.error fault, left)

/-- No log yet, or an empty one, and no directory in its place or in that of a
new log. -/
structure IsEmpty (d : DataDir) : Prop where
  file : (d.file? name).getD [] = []
  log : d.isDirectory name = false
  temporary : d.isDirectory temporary = false

/-- The log is some blocks, one line each, and reading it gives them and changes
nothing. -/
structure Holds (d : DataDir) (blocks : List Block) : Prop where
  file : (d.file? name).getD [] = blocks.flatMap fun b =>
    Text.encode b.toJson.render ++ [10]
  oneLine : ∀ b ∈ blocks, 10 ∉ Text.encode b.toJson.render
  read : read d = (.ok blocks, d)

/-! ## What a log holds -/

theorem bytesOf_eq_flatMap (blocks : List Block) :
    bytesOf blocks =
      blocks.flatMap fun b => Text.encode b.toJson.render ++ [10] := by
  rw [bytesOf, Text.encode, List.flatMap_assoc]
  exact List.flatMap_congr fun b _ => encode_line b

/-- A log of no blocks need not be there. -/
theorem isWhole_of_getD (hlog : d.isDirectory name = false)
    (hfile : (d.file? name).getD [] = bytesOf blocks) : IsWhole d blocks := by
  cases hitem : d.items.get? name with
  | none =>
    have hnone : d.file? name = none := by rw [DataDir.file?, hitem]; rfl
    have hblocks : blocks = [] := by
      by_contra hne
      rw [hnone] at hfile
      exact bytesOf_ne_nil hne hfile.symm
    rw [hblocks]
    exact .absent (by simp [DataDir.contains, SortedMap.contains, hitem])
  | some item =>
    cases item with
    | none => simp [DataDir.isDirectory, hitem] at hlog
    | some bytes =>
      have hsome : d.file? name = some bytes := by rw [DataDir.file?, hitem]; rfl
      rw [hsome, Option.getD_some] at hfile
      exact .of_file? (hsome.trans (congrArg some hfile))

theorem holds_of_getD (hlog : d.isDirectory name = false)
    (hfile : (d.file? name).getD [] = bytesOf blocks) : Holds d blocks where
  file := hfile.trans (bytesOf_eq_flatMap blocks)
  oneLine b _ := Text.newline_notMem_encode (newline_notMem_render b)
  read := (isWhole_of_getD hlog hfile).read

/-! ## What is left of an unfinished write -/

theorem isDirectory_withTail (h : d.isDirectory name = false)
    (tail : List UInt8) : (withTail d tail).isDirectory name = false := by
  unfold withTail
  split
  · exact h
  · exact DataDir.isDirectory_put h _ _

theorem file?_withTail (d : DataDir) (tail : List UInt8) :
    ((withTail d tail).file? name).getD [] = (d.file? name).getD [] ++ tail := by
  unfold withTail
  split
  · next hempty => rw [List.isEmpty_iff.mp hempty, List.append_nil]
  · rw [DataDir.file?_put_self, Option.getD_some]

/-- What is left behind whole lines is cut off, whatever it is. -/
theorem wholeLines_bytesOf_append (blocks : List Block) (htail : 10 ∉ tail) :
    wholeLines (bytesOf blocks ++ tail) = bytesOf blocks := by
  rcases List.eq_nil_or_concat blocks with rfl | ⟨before, b, rfl⟩
  · exact wholeLines_of_notMem htail
  · have hbytes : bytesOf (before ++ [b]) =
        bytesOf before ++ Text.encode b.toJson.render ++ [10] := by
      rw [bytesOf_append, encode_line, List.append_assoc]
    rw [List.concat_eq_append, hbytes, List.append_assoc, List.singleton_append,
      wholeLines_append_cons, wholeLines_of_notMem htail]

/-- **An append mends the log**: what was left behind it is gone, and it is that
of one block more. -/
theorem append_withTail (hlog : d.isDirectory name = false)
    (hfile : (d.file? name).getD [] = bytesOf blocks) (htail : 10 ∉ tail)
    (b : Block) :
    append (withTail d tail) true b =
      (.ok (), (withTail d tail).put name (bytesOf (blocks ++ [b]))) := by
  simp [append, isDirectory_withTail hlog, file?_withTail, hfile,
    wholeLines_bytesOf_append blocks htail, bytesOf_append]

/-! ## Round trips -/

/-- Appending some blocks to the log of others makes it the log of all of
them. -/
theorem appendAll_ok (entries : List (List UInt8 × Block)) {d : DataDir}
    {blocks : List Block} (hlog : d.isDirectory name = false)
    (hfile : (d.file? name).getD [] = bytesOf blocks)
    (htails : ∀ entry ∈ entries, 10 ∉ entry.1) :
    ∃ d', appendAll d entries = (.ok (), d') ∧ d'.isDirectory name = false ∧
      (d'.file? name).getD [] = bytesOf (blocks ++ entries.map Prod.snd) := by
  induction entries generalizing d blocks with
  | nil => exact ⟨d, rfl, hlog, by rw [hfile, List.map_nil, List.append_nil]⟩
  | cons entry rest ih =>
    obtain ⟨tail, b⟩ := entry
    rw [List.forall_mem_cons] at htails
    have happend := append_withTail hlog hfile htails.1 b
    have hfile' :
        (((withTail d tail).put name (bytesOf (blocks ++ [b]))).file? name).getD
            [] =
          bytesOf (blocks ++ [b]) := by
      rw [DataDir.file?_put_self, Option.getD_some]
    obtain ⟨d', hrest, hlog', hall⟩ :=
      ih (DataDir.isDirectory_put (isDirectory_withTail hlog tail) _ _)
        hfile' htails.2
    refine ⟨d', ?_, hlog', by rw [hall, List.map_cons, List.append_assoc]; rfl⟩
    simp only [appendAll, happend, hrest]

/-- **A written log reads back.** An empty log to which some blocks are
appended, behind whatever bytes without a line end were left there before each
of them, or of which they are made all at once, holds exactly these blocks,
whatever is in them. -/
theorem written_log_reads_back (h : IsEmpty d) :
    (∀ entries : List (List UInt8 × Block), (∀ entry ∈ entries, 10 ∉ entry.1) →
        ∃ d', appendAll d entries = (.ok (), d') ∧
          Holds d' (entries.map Prod.snd)) ∧
      ∀ blocks : List Block, ∃ d', overwrite d blocks = (.ok (), d') ∧
        Holds d' blocks := by
  refine ⟨fun entries htails => ?_, fun blocks => ?_⟩
  · have hempty : (d.file? name).getD [] = bytesOf [] := h.file
    obtain ⟨d', happend, hlog, hfile⟩ :=
      appendAll_ok entries h.log hempty htails
    exact ⟨d', happend, holds_of_getD hlog hfile⟩
  · have hfile := file?_rewritten d (bytesOf blocks)
    refine ⟨rewritten d (bytesOf blocks), ?_,
      holds_of_getD (DataDir.isDirectory_of_file? hfile) ?_⟩
    · rw [overwrite, replace_eq h.log, h.temporary, if_neg Bool.false_ne_true]
    · rw [hfile, Option.getD_some]

/-- The second block is appended behind a brace and a byte that is no text. -/
theorem written_log_reads_back_torn :
    ∃ d',
      appendAll (.empty "data") [([], Config.twoHolders.genesisBlock),
                                 ([0x7b, 0xff],
                                  .firstVote (some
                                    Config.twoHolders.genesisBlock.hash))] =
        (.ok (), d') ∧
      Holds d' [Config.twoHolders.genesisBlock,
                .firstVote (some Config.twoHolders.genesisBlock.hash)] :=
  (written_log_reads_back ⟨rfl, rfl, rfl⟩).1 _ (by simp)

end CouncilLedger.BlockLog
