import CouncilLedger.Proofs.Durability
import CouncilLedger.Proofs.Repair

/-!
# Lines that were not written in whole

A crash may leave the first bytes of a line behind the log. Where these bytes
end with a character, the log is read as its whole lines, with the last record
if no more than its line end is missing, and is repaired; a node that starts on
it has the chain of these blocks. Where they end within a character the log is
no text, and the node does not start. The main statements are
`BlockLog.read_torn` and `Node.torn_append_recovered`.
-/

namespace CouncilLedger

/-! ## Cutting the bytes of a text -/

namespace Text

/-- Whether the first `k` bytes of a text are those of its first characters. -/
def IsBoundary (cs : List Char) (k : Nat) : Prop :=
  ∃ pre, pre <+: cs ∧ (encode pre).length = k

variable {cs ds : List Char} {bytes : List UInt8} {k : Nat}

/-- The bytes of a character tell it, whatever follows them. -/
theorem char_eq_of_encode_append {c d : Char} {x y : List UInt8}
    (h : String.utf8EncodeChar c ++ x = String.utf8EncodeChar d ++ y) :
    c = d := by
  have hfirst :
      ∀ (e : Char) (z : List UInt8),
        (String.utf8EncodeChar e ++ z).toByteArray.utf8DecodeChar? 0 =
          some e := by
    intro e z
    rw [List.toByteArray_append]
    exact ByteArray.utf8DecodeChar?_utf8EncodeChar_append
  have hc := hfirst c x
  rw [h, hfirst d y] at hc
  exact (Option.some.inj hc).symm

/-- The bytes of a text start those of another only if the text starts the
other. -/
theorem prefix_of_encode_prefix (h : encode cs <+: encode ds) : cs <+: ds := by
  induction cs generalizing ds with
  | nil => exact List.nil_prefix
  | cons c cs ih =>
    obtain ⟨more, hmore⟩ := h
    rw [encode, List.flatMap_cons, List.append_assoc] at hmore
    cases ds with
    | nil => simp [encode, String.utf8EncodeChar_ne_nil] at hmore
    | cons d ds =>
      rw [encode, List.flatMap_cons] at hmore
      cases char_eq_of_encode_append hmore
      exact List.cons_prefix_cons.mpr
        ⟨rfl, ih ⟨more, List.append_cancel_left hmore⟩⟩

/-- Fewer characters have fewer bytes. -/
theorem length_encode_lt (h : cs <+: ds) (hne : cs ≠ ds) :
    (encode cs).length < (encode ds).length := by
  obtain ⟨rest, rfl⟩ := h
  cases rest with
  | nil => exact absurd (List.append_nil cs).symm hne
  | cons c rest =>
    have hc : 0 < (String.utf8EncodeChar c).length :=
      List.length_pos_iff.mpr String.utf8EncodeChar_ne_nil
    rw [encode_append, List.length_append, encode, encode, List.flatMap_cons,
      List.length_append]
    omega

/-- Within a character of more than one byte there is no boundary. -/
theorem exists_not_isBoundary {c : Char} (hc : c ∈ cs)
    (hsize : 1 < c.utf8Size) : ∃ k ≤ (encode cs).length, ¬ IsBoundary cs k := by
  obtain ⟨before, after, rfl⟩ := List.append_of_mem hc
  have hchar :
      (encode (before ++ [c])).length =
        (encode before).length + c.utf8Size := by
    simp [encode, String.length_utf8EncodeChar]
  have hsplit : before ++ c :: after = before ++ [c] ++ after := by simp
  refine ⟨(encode before).length + 1, ?_, ?_⟩
  · rw [hsplit, encode_append, List.length_append, hchar]
    omega
  · rintro ⟨pre, hpre, hlength⟩
    rw [hsplit] at hpre
    rcases List.prefix_or_prefix_of_prefix hpre
      (List.prefix_append _ after) with hpre | hpre
    · rcases List.prefix_concat_iff.mp hpre with rfl | hpre
      · omega
      · obtain ⟨rest, rfl⟩ := hpre
        rw [encode_append, List.length_append] at hlength
        omega
    · obtain ⟨rest, rfl⟩ := hpre
      rw [encode_append, List.length_append, hchar] at hlength
      omega

/-- What is cut off within a character is no text, whatever text stands before
it. -/
theorem decode?_of_not_isBoundary (hk : k ≤ (encode cs).length)
    (h : ¬ IsBoundary cs k) (ds : List Char) :
    decode? (encode ds ++ (encode cs).take k) = none := by
  cases hdecode : decode? (encode ds ++ (encode cs).take k) with
  | none => rfl
  | some es =>
    have hes := encode_of_decode? hdecode
    -- the text goes on from the one before it with first characters of the cut
    -- one
    obtain ⟨pre, rfl⟩ := prefix_of_encode_prefix ⟨_, hes.symm⟩
    rw [encode_append] at hes
    have hpre := List.append_cancel_left hes
    refine absurd ⟨pre, prefix_of_encode_prefix ?_, ?_⟩ h
    · rw [hpre]
      exact List.take_prefix k _
    · rw [hpre, List.length_take, Nat.min_eq_left hk]

end Text

/-! ## Lines -/

namespace BlockLog

variable {d : DataDir} {blocks : List Block} {b : Block} {pre : List Char}

/-- The text of a record starts with its brace. -/
theorem exists_render_eq (b : Block) :
    ∃ text, b.toJson.render = '\x7b' :: text := ⟨_, rfl⟩

/-- The first characters of a record are one line, which is not blank. -/
theorem exists_of_prefix_render (hpre : pre <+: b.toJson.render)
    (hne : pre ≠ []) : lines pre = [pre] ∧ Text.isBlank pre = false := by
  refine ⟨lines_of_notMem
    (fun hmem => newline_notMem_render b (hpre.subset hmem)) hne, ?_⟩
  obtain ⟨c, cs, rfl⟩ := List.exists_cons_of_ne_nil hne
  obtain ⟨text, htext⟩ := exists_render_eq b
  rw [htext] at hpre
  cases (List.cons_prefix_cons.mp hpre).1
  rfl

/-- A record that lacks its end is no block. -/
theorem block?_of_cut (hpre : pre <+: b.toJson.render) (hne : pre ≠ [])
    (hcut : pre ≠ b.toJson.render) : block? pre = none := by
  obtain ⟨more, hmore⟩ := hpre
  have hnone : Json.readAll pre = none := by
    refine Json.readAll_of_cut (b.isPlain_toJson 0) (by decide) hmore.symm hne ?_
    rintro rfl
    exact hcut (by simpa using hmore)
  rw [block?, hnone]
  rfl

/-! ## Reading -/

/-- What is found in a damaged log are the lines of some blocks. -/
theorem read_of_findings {text : List Char} {found : List Block}
    (hfile : d.file? name = some (Text.encode text))
    (htemporary : d.isDirectory temporary = false)
    (hwhole : (findings (lines text)).isWhole = false)
    (hfound : (findings (lines text)).blocks = found)
    (hclean : ended (findings (lines text)).clean = found.flatMap line) :
    read d = (.ok found, rewritten d (bytesOf found)) := by
  have hread := read_of_damaged hfile hwhole
  rw [htemporary, hfound, hclean] at hread
  exact hread

/-- Behind the lines of some blocks stands a record without its line end. -/
theorem read_of_unended
    (hfile : d.file? name =
      some (Text.encode (blocks.flatMap line ++ b.toJson.render)))
    (htemporary : d.isDirectory temporary = false) :
    read d = (.ok (blocks ++ [b]), rewritten d (bytesOf (blocks ++ [b]))) := by
  have hne : b.toJson.render ≠ [] := List.cons_ne_nil _ _
  obtain ⟨hlines, hblank⟩ := exists_of_prefix_render (b := b) List.prefix_rfl hne
  have hblock : block? b.toJson.render = some b := by
    have hread : Json.readAll (b.toJson.render ++ []) = some b.toJson :=
      Json.readAll_render (b.isPlain_toJson 0) (by decide) (by simp)
    rw [List.append_nil] at hread
    simp [block?, hread, b.ofJson?_toJson]
  have hend : b.toJson.render.getLast? ≠ some '\n' := fun hlast =>
    newline_notMem_render b (List.mem_of_getLast? hlast)
  have hfindings : findings (lines (blocks.flatMap line ++ b.toJson.render)) =
      ⟨blocks ++ [b], blocks.flatMap line ++ b.toJson.render, false⟩ := by
    rw [lines_flatMap_line_append, hlines, findings_map_line_append]
    simp [findings, hblank, hblock, hend]
  refine read_of_findings hfile htemporary ?_ ?_ ?_ <;> rw [hfindings]
  simp [ended, List.getLast?_append, hne, hend, line]

/-- Behind the lines of some blocks stands a record that lacks its end. -/
theorem read_of_cut
    (hfile : d.file? name = some (Text.encode (blocks.flatMap line ++ pre)))
    (hpre : pre <+: b.toJson.render) (hne : pre ≠ [])
    (hcut : pre ≠ b.toJson.render)
    (htemporary : d.isDirectory temporary = false) :
    read d = (.ok blocks, rewritten d (bytesOf blocks)) := by
  obtain ⟨hlines, hblank⟩ := exists_of_prefix_render hpre hne
  have hfindings : findings (lines (blocks.flatMap line ++ pre)) =
      ⟨blocks, blocks.flatMap line, false⟩ := by
    rw [lines_flatMap_line_append, hlines, findings_map_line_append]
    simp [findings, hblank, block?_of_cut hpre hne hcut]
  refine read_of_findings hfile htemporary ?_ ?_ ?_ <;> rw [hfindings]
  exact ended_flatMap_line blocks

/-- **A torn log is read up to its last record**: behind the lines of some
blocks stand the first bytes of one more line, which end with a character. -/
theorem read_torn {k : Nat}
    (hfile : d.file? name =
      some (bytesOf blocks ++ (Text.encode (line b)).take k))
    (hk : Text.IsBoundary (line b) k)
    (htemporary : d.isDirectory temporary = false) :
    ∃ kept d',
      kept =
        (if k < (Text.encode b.toJson.render).length then blocks
         else blocks ++ [b]) ∧ read d = (.ok kept, d') ∧
      d'.file? name = some (bytesOf kept) ∧
      d'.file? Checkpoint.name = d.file? Checkpoint.name := by
  obtain ⟨pre, hpre, hlength⟩ := hk
  have htake : (Text.encode (line b)).take k = Text.encode pre := by
    obtain ⟨rest, hrest⟩ := hpre
    rw [← hrest, Text.encode_append, ← hlength, List.take_left]
  rw [htake] at hfile
  have hbytes :
      bytesOf blocks ++ Text.encode pre =
        Text.encode (blocks.flatMap line ++ pre) :=
    (Text.encode_append _ _).symm
  rcases List.prefix_concat_iff.mp hpre with rfl | hrecord
  · -- the line is there in whole
    rw [← line, ← bytesOf_append] at hfile
    refine ⟨blocks ++ [b], d, ?_, read_of_file? hfile, hfile, rfl⟩
    rw [if_neg]
    rw [← hlength, Text.encode_append, List.length_append]
    omega
  · by_cases hne : pre = []
    · subst hne
      refine ⟨blocks, d, ?_, read_of_file? ?_, ?_, rfl⟩
      · rw [if_pos]
        rw [← hlength]
        exact Text.length_encode_lt List.nil_prefix (List.cons_ne_nil _ _).symm
      · simpa [Text.encode] using hfile
      · simpa [Text.encode] using hfile
    · by_cases hcut : pre = b.toJson.render
      · subst hcut
        rw [hbytes] at hfile
        refine ⟨blocks ++ [b], _, ?_, read_of_unended hfile htemporary,
          file?_rewritten _ _, file?_rewritten_checkpoint _ _⟩
        rw [if_neg (by omega)]
      · rw [hbytes] at hfile
        refine ⟨blocks, _, ?_, read_of_cut hfile hrecord hne hcut htemporary,
          file?_rewritten _ _, file?_rewritten_checkpoint _ _⟩
        rw [if_pos]
        rw [← hlength]
        exact Text.length_encode_lt hrecord hcut

end BlockLog

/-! ## Starting -/

/-- A block with a proposal whose title is not of ASCII characters alone. -/
def Block.accented (parent : Option Digest) : Block :=
  .build 1 parent 0 [.ofAction "ada" 0 0 (.propose
    { title := "é", description := "More", kind := .general
      mode := .simple, duration := 60, threshold := 50, funding := none })]

theorem Block.isMade_accented (parent : Option Digest) :
    (accented parent).IsMade :=
  isMade_build (by simp)

namespace Node

/-- A run reaches a node on disk whose next block may be the one with the
title. -/
theorem exists_accented :
    ∃ n d b after, Reachable .twoHolders n ∧ n.dir = some d ∧
      (∀ name, d.isDirectory name = false) ∧ n.chain.validate b = .ok after ∧
      'é' ∈ BlockLog.line b := by
  have hrun : ((Chain.empty Config.twoHolders.rules).grow
      Config.twoHolders.genesisBlock).toOption.any (fun c =>
        (c.grow (.accented (c.tip.map (·.hash)))).toOption.any fun _ =>
          'é' ∈ BlockLog.line (.accented (c.tip.map (·.hash)))) = true := by
    decide +kernel
  obtain ⟨c, hc, hrun⟩ := Outcome.exists_of_any_toOption hrun
  obtain ⟨next, hnext, hline⟩ := Outcome.exists_of_any_toOption hrun
  obtain ⟨n, d, hbegins, rfl, hdir, hfree⟩ := exists_onDisk hc "data"
  obtain ⟨after, hvalid, -⟩ :=
    (Chain.grow_eq_ok (Block.isMade_accented _)).mp hnext
  exact ⟨n, d, _, after, ⟨n, hbegins, .refl⟩, hdir, hfree, hvalid,
    of_decide_eq_true hline⟩

variable {config : Config} {n : Node}

/-- No node starts on a log that ends within a character. -/
theorem start_of_not_isBoundary {d torn : DataDir} {blocks : List Block}
    {b : Block} {k : Nat} (hk : k ≤ (Text.encode (BlockLog.line b)).length)
    (hcut : ¬ Text.IsBoundary (BlockLog.line b) k)
    (htorn : torn =
      d.put BlockLog.name
        (BlockLog.bytesOf blocks ++ (Text.encode (BlockLog.line b)).take k))
    (m : Moment) :
    start config torn m =
      (.error (.storage (.readFailed (d.pathOf BlockLog.name))), torn) := by
  have hfile :
      torn.file? BlockLog.name =
        some (BlockLog.bytesOf blocks ++
          (Text.encode (BlockLog.line b)).take k) := by
    rw [htorn, DataDir.file?_put, if_pos rfl]
  have hread := BlockLog.read_of_decode?_eq_none hfile
    (Text.decode?_of_not_isBoundary hk hcut (blocks.flatMap BlockLog.line))
  have hpath : torn.pathOf BlockLog.name = d.pathOf BlockLog.name := by
    rw [htorn]; rfl
  rw [start, hread, hpath]

/-- The blocks of a node, with a valid one more or without, lead to a chain. -/
theorem Tracks.exists_chain_of_cut {blocks : List Block}
    (h : n.Tracks config blocks) {b : Block} {after : Ledger}
    (hvalid : n.chain.validate b = .ok after) (cut : Prop) [Decidable cut] :
    ∃ more c, (if cut then blocks else blocks ++ [b]) = blocks ++ more ∧
      c = (if cut then n.chain else n.chain.extended b after) ∧
      Chain.ofBlocks config.rules (blocks ++ more) = .ok c := by
  by_cases hcut : cut
  · rw [if_pos hcut, if_pos hcut]
    exact ⟨[], n.chain, (List.append_nil _).symm, rfl, by simpa using h.history⟩
  · rw [if_neg hcut, if_neg hcut]
    have hcommit := Chain.commit_of_validate h.records.inStep hvalid
    exact ⟨[b], _, rfl, rfl, Chain.ofBlocks_snoc.mpr ⟨_, h.history, hcommit⟩⟩

/-- **An append that was cut short is recovered**, unless it was cut within a
character. Where the first bytes of the line of a valid block stand behind the
log of a node, the node starts again: as it was before the block while its
record lacks an end, and as it is after the block once the record is there. What
further runs append is read back. Where the bytes end within a character the
node does not start, and the directory stays as it is. -/
theorem torn_append_recovered (h : n.Reachable config) {d : DataDir}
    (hdir : n.dir = some d) {b : Block} {after : Ledger}
    (hvalid : n.chain.validate b = .ok after) {k : Nat}
    (hk : k ≤ (Text.encode (BlockLog.line b)).length) {torn : DataDir}
    (htorn : torn =
      d.put BlockLog.name (BlockLog.bytesOf n.chain.blocks ++
        (Text.encode (BlockLog.line b)).take k)) (m : Moment) :
    (Text.IsBoundary (BlockLog.line b) k →
        d.isDirectory BlockLog.temporary = false →
        ∃ next d', start config torn m = (.ok next, d') ∧ next.dir = some d' ∧
          next.chain =
            (if k < (Text.encode b.toJson.render).length then n.chain
             else n.chain.extended b after) ∧
          ∀ last, Run config next last →
            next.chain.blocks <+: last.chain.blocks ∧
              ∀ d'' ∈ last.dir,
                BlockLog.read d'' = (.ok last.chain.blocks, d'')) ∧
      (¬ Text.IsBoundary (BlockLog.line b) k →
        start config torn m =
          (.error (.storage (.readFailed (d.pathOf BlockLog.name))),
           torn)) := by
  obtain ⟨rest, htracks⟩ := h.tracks
  rw [htracks.blocks_eq] at htorn
  have hfile :
      torn.file? BlockLog.name =
        some (BlockLog.bytesOf (config.genesisBlock :: rest) ++
          (Text.encode (BlockLog.line b)).take k) := by
    rw [htorn, DataDir.file?_put, if_pos rfl]
  have hsame : torn.file? Checkpoint.name = d.file? Checkpoint.name := by
    rw [htorn, DataDir.file?_put, if_neg (by decide)]
  refine ⟨?_, ?_⟩
  · intro hboundary htemporary
    have hfree : torn.isDirectory BlockLog.temporary = false :=
      htorn ▸ DataDir.isDirectory_put htemporary _ _
    obtain ⟨kept, d', hkept, hread, hlog, hcheckpoint⟩ :=
      BlockLog.read_torn hfile hboundary hfree
    obtain ⟨more, c, hmore, hc, hchain⟩ :=
      htracks.exists_chain_of_cut hvalid
        (k < (Text.encode b.toJson.render).length)
    rw [← hkept] at hmore
    rw [hmore] at hread hlog
    have hkeeps := (htracks.disk d hdir).of_log hlog (hcheckpoint.trans hsame)
    have hnext : Tracks config ⟨c, some d', config.chain.checkpointInterval⟩
        (config.genesisBlock :: rest ++ more) :=
      ⟨hchain, rfl, fun _ h' => Option.some.inj h' ▸ hkeeps⟩
    refine ⟨_, d',
      start_of_read hread (by simp) hchain hkeeps.load? m, rfl, hc, ?_⟩
    intro last hrun
    obtain ⟨added, hlast⟩ := hnext.run (by simp) hrun
    refine ⟨?_, fun d'' hd'' => hlast.read_log (by simp) hd''⟩
    rw [hnext.blocks_eq, hlast.blocks_eq]
    exact List.prefix_append _ _
  · exact fun hcut => start_of_not_isBoundary hk hcut htorn m

/-- A record with the title that lacks nothing but its line end is recovered. -/
theorem torn_append_recovered_accented :
    ∃ n d b after next d', Reachable .twoHolders n ∧ n.dir = some d ∧
      'é' ∈ BlockLog.line b ∧ n.chain.validate b = .ok after ∧
      start .twoHolders (d.put BlockLog.name
          (BlockLog.bytesOf n.chain.blocks ++ Text.encode b.toJson.render))
          ⟨0, true⟩ =
        (.ok next, d') ∧
      next.chain = n.chain.extended b after := by
  obtain ⟨n, d, b, after, hn, hdir, hfree, hvalid, hline⟩ := exists_accented
  have hrecord :
      (Text.encode (BlockLog.line b)).take
          (Text.encode b.toJson.render).length =
        Text.encode b.toJson.render := by
    rw [BlockLog.encode_line, List.take_left]
  have hk :
      (Text.encode b.toJson.render).length ≤
        (Text.encode (BlockLog.line b)).length := by
    simp [BlockLog.encode_line]
  obtain ⟨hrecovered, -⟩ := torn_append_recovered hn hdir hvalid hk rfl ⟨0, true⟩
  obtain ⟨next, d', hstart, -, hchain, -⟩ :=
    hrecovered ⟨_, List.prefix_append _ _, rfl⟩ (hfree BlockLog.temporary)
  rw [hrecord] at hstart
  rw [if_neg (Nat.lt_irrefl _)] at hchain
  exact ⟨n, d, b, after, next, d', hn, hdir, hline, hvalid, hstart, hchain⟩

/-- Cut within its title, the record is not recovered: no node starts. -/
theorem torn_append_lost :
    ∃ n d b after k, Reachable .twoHolders n ∧ n.dir = some d ∧
      (∀ name, d.isDirectory name = false) ∧ n.chain.validate b = .ok after ∧
      k ≤ (Text.encode (BlockLog.line b)).length ∧
      ∀ m next d',
        start .twoHolders (d.put BlockLog.name (BlockLog.bytesOf
              n.chain.blocks ++
            (Text.encode (BlockLog.line b)).take k)) m ≠
          (.ok next, d') := by
  obtain ⟨n, d, b, after, hn, hdir, hfree, hvalid, hline⟩ := exists_accented
  obtain ⟨k, hk, hcut⟩ := Text.exists_not_isBoundary hline (by decide)
  refine ⟨n, d, b, after, k, hn, hdir, hfree, hvalid, hk, ?_⟩
  intro m next d' hstart
  rw [start_of_not_isBoundary hk hcut rfl] at hstart
  cases hstart

end Node
end CouncilLedger
