import CouncilLedger.Proofs.FailedStart

/-!
# The longest valid prefix

Without a checkpoint, a node starts with the longest run of first blocks of its
log that commit one after the other, where the log counts up to the first line
that is neither blank nor a block. What the start leaves on disk is the log of
exactly these blocks, so the next start gives the same node. The main statement
is `Node.start_keeps_longest_prefix`.
-/

namespace CouncilLedger

open Outcome

/-! ## The blocks that a log begins with -/

namespace BlockLog

/-- The blocks of the first lines that are blank or hold a block. -/
def leading (text : List Char) : List Block :=
  ((lines text).takeWhile fun l => Text.isBlank l ||
    (block? l).isSome).filterMap fun l =>
    if Text.isBlank l then none else block? l

theorem blocks_findings (ls : List (List Char)) :
    (findings ls).blocks =
      (ls.takeWhile fun l => Text.isBlank l || (block? l).isSome).filterMap
        fun l => if Text.isBlank l then none else block? l := by
  induction ls with
  | nil => rfl
  | cons l rest ih =>
    cases hblank : Text.isBlank l with
    | true => simp [findings, hblank, ih]
    | false => cases hblock : block? l <;> simp [findings, hblank, hblock, ih]

variable {d d' : DataDir} {text : List Char} {blocks : List Block}

/-- Reading a text finds the blocks that it begins with, and changes no other
file. -/
theorem read_text (hfile : d.file? name = some (Text.encode text))
    (htemporary : d.isDirectory temporary = false) :
    ∃ d', read d = (.ok (leading text), d') ∧ d'.isDirectory temporary = false ∧
      d'.file? Checkpoint.name = d.file? Checkpoint.name := by
  rw [leading, ← blocks_findings]
  cases hwhole : (findings (lines text)).isWhole with
  | true => exact ⟨d, (IsWhole.present hfile hwhole).read, htemporary, rfl⟩
  | false =>
    have hread := read_of_damaged hfile hwhole
    rw [htemporary, if_neg Bool.false_ne_true] at hread
    refine ⟨_, hread, ?_, file?_rewritten_checkpoint _ _⟩
    exact DataDir.isDirectory_put (DataDir.isDirectory_remove
      (DataDir.isDirectory_put htemporary _ _) _) _ _

/-- A log with blocks is a file, and the same blocks are found wherever that
is. -/
theorem IsWhole.of_file?_eq (h : IsWhole d blocks) (hne : blocks ≠ [])
    (hsame : d'.file? name = d.file? name) : IsWhole d' blocks := by
  cases h with
  | absent absent => exact absurd rfl hne
  | present file whole => exact .present (hsame.trans file) whole

end BlockLog

/-! ## The blocks that commit -/

namespace Chain

variable {rules : Rules} {blocks kept : List Block} {c : Chain}

/-- The longest run of first blocks that commit one after the other, with the
chain that they lead to. -/
structure IsLongest (rules : Rules) (blocks kept : List Block) (c : Chain) :
    Prop where
  first : kept <+: blocks
  history : ofBlocks rules kept = .ok c
  longest : ∀ others, others <+: blocks → (∃ m, ofBlocks rules others = .ok m) →
    others <+: kept

/-- A replay stops in front of the first block that does not commit. -/
theorem replay_cases (c : Chain) (blocks : List Block) :
    ∃ kept dropped c', blocks = kept ++ dropped ∧
      c.replay blocks = (c', kept.length) ∧ kept.foldlM commit c = .ok c' ∧
      ∀ b ∈ dropped.head?, ∃ r, c'.commit b = .error r := by
  induction blocks generalizing c with
  | nil => exact ⟨[], [], c, rfl, rfl, rfl, nofun⟩
  | cons b rest ih =>
    cases hcommit : c.commit b with
    | error r =>
      refine ⟨[], b :: rest, c, rfl,
        by simp only [replay, hcommit, List.length_nil], rfl, ?_⟩
      rintro _ ⟨⟩
      exact ⟨r, hcommit⟩
    | ok next =>
      obtain ⟨kept, dropped, c', rfl, hreplay, hkept, hdropped⟩ := ih next
      refine ⟨b :: kept, dropped, c', rfl, ?_,
        foldlM_cons_eq_ok.mpr ⟨next, hcommit, hkept⟩, hdropped⟩
      simp only [replay, hcommit, hreplay, List.length_cons]

/-- The block behind some first blocks of a history commits on the chain of
those. -/
theorem exists_commit_of_ofBlocks {more : List Block} {b : Block} {last : Chain}
    (h : ofBlocks rules kept = .ok c)
    (hall : ofBlocks rules (kept ++ b :: more) = .ok last) :
    ∃ next, c.commit b = .ok next := by
  obtain ⟨c', hc', hmore⟩ := foldlM_append_eq_ok.mp hall
  cases h.symm.trans hc'
  obtain ⟨next, hnext, -⟩ := foldlM_cons_eq_ok.mp hmore
  exact ⟨next, hnext⟩

/-- Blocks in front of one that does not commit are the longest run. -/
theorem isLongest_of_refused {dropped : List Block}
    (h : ofBlocks rules kept = .ok c)
    (hdropped : ∀ b ∈ dropped.head?, ∃ r, c.commit b = .error r) :
    IsLongest rules (kept ++ dropped) kept c := by
  refine ⟨List.prefix_append _ _, h, ?_⟩
  intro others hothers ⟨m, hm⟩
  rcases List.prefix_or_prefix_of_prefix hothers
    (List.prefix_append kept dropped) with
    hshort | ⟨more, rfl⟩
  · exact hshort
  · -- a longer run would have to go on with the block that does not commit
    rw [List.prefix_append_right_inj] at hothers
    cases more with
    | nil => rw [List.append_nil]
    | cons b more =>
      obtain ⟨after, rfl⟩ := hothers
      obtain ⟨next, hnext⟩ := exists_commit_of_ofBlocks h hm
      obtain ⟨r, hrefused⟩ := hdropped b rfl
      rw [hnext] at hrefused
      cases hrefused

end Chain

/-! ## Starting again -/

namespace Node

variable {config : Config} {d : DataDir} {n : Node}
    {blocks : List Block} {m : Moment}

/-- A node at rest: its directory gives back its blocks, and a checkpoint in it,
if any, is of an earlier state. Other than for `Tracks`, the log may hold blank
lines. -/
structure Rests (config : Config) (n : Node) (d : DataDir)
    (blocks : List Block) : Prop where
  dir : n.dir = some d
  history : Chain.ofBlocks config.rules blocks = .ok n.chain
  interval : n.checkpointInterval = config.chain.checkpointInterval
  log : BlockLog.IsWhole d blocks
  checkpoint : ∀ s ∈ Checkpoint.load? d, s.IsOf config.rules blocks

namespace Rests

theorem blocks_eq (h : n.Rests config d blocks) : n.chain.blocks = blocks :=
  (Chain.records_of_ofBlocks h.history).blocks_eq

theorem start (h : n.Rests config d blocks) (hne : blocks ≠ []) (m : Moment) :
    start config d m = (.ok n, d) := by
  rw [start_of_read h.log.read hne h.history h.checkpoint, ← h.interval, ← h.dir]

/-- A checkpoint that is written is one of the present state. -/
theorem saveCheckpoint (h : n.Rests config d blocks) (hne : blocks ≠ []) :
    ∃ d', n.saveCheckpoint.2.Rests config d' blocks := by
  -- the same node without its directory has the same checkpoint
  have hinMemory : Tracks config { n with dir := none } blocks :=
    ⟨h.history, h.interval, nofun⟩
  cases hs : n.checkpoint? with
  | none =>
    refine ⟨d, ?_⟩
    simp only [Node.saveCheckpoint, h.dir, hs]
    exact h
  | some s =>
    refine ⟨(s.save d).2, ?_⟩
    simp only [Node.saveCheckpoint, h.dir, hs]
    refine ⟨rfl, h.history, h.interval,
      h.log.of_file?_eq hne (Checkpoint.file?_save_log s d), ?_⟩
    intro s' hs'
    rcases Checkpoint.file?_save s d with hnew | hold
    · rw [Checkpoint.load?_of_file? hnew] at hs'
      cases hs'
      exact hinMemory.checkpoint? hs
    · refine h.checkpoint s' ?_
      rwa [Checkpoint.load?, hold] at hs'

theorem checkpointed (h : n.Rests config d blocks) (hne : blocks ≠ [])
    (height : UInt64) :
    ∃ d', (n.checkpointed height).Rests config d' blocks := by
  unfold Node.checkpointed
  split
  · exact h.saveCheckpoint hne
  · exact ⟨d, h⟩

end Rests

/-! ### New chains -/

/-- The first block commits wherever some node is reached. -/
theorem Reachable.exists_commit_genesisBlock (h : n.Reachable config) :
    ∃ first,
      (Chain.empty config.rules).commit config.genesisBlock = .ok first := by
  obtain ⟨rest, htracks⟩ := h.tracks
  obtain ⟨first, hfirst, -⟩ := foldlM_cons_eq_ok.mp htracks.history
  exact ⟨first, hfirst⟩

/-- On a log without blocks the first block is the chain, when it commits and
the disk takes it. -/
theorem found_rests {first : Chain}
    (hgenesis : (Chain.empty config.rules).commit config.genesisBlock =
      .ok first) (hlog : BlockLog.IsWhole d [])
    (hcheckpoint : Checkpoint.load? d = none) (htakes : m.diskTakes = true) :
    ∃ next d', found config d m = (.ok next, d') ∧ next.chain = first ∧
      next.Rests config d' [config.genesisBlock] := by
  obtain ⟨after, hvalid, rfl⟩ := Chain.commit_ok Archive.inStep_empty hgenesis
  obtain ⟨logged, happend, hlogged⟩ := hlog.append_taken config.genesisBlock
  let taken : Node :=
    ⟨(Chain.empty config.rules).extended config.genesisBlock after,
      some logged, config.chain.checkpointInterval⟩
  have hcommit : (empty config (some d)).commit m config.genesisBlock =
      (.ok (), taken.checkpointed config.genesisBlock.height) :=
    commit_of_logged Archive.inStep_empty hvalid
      (log_of_append rfl (htakes ▸ happend))
  have hhistory :
      Chain.ofBlocks config.rules ([] ++ [config.genesisBlock]) =
        .ok taken.chain :=
    Chain.ofBlocks_snoc.mpr ⟨_, rfl, hgenesis⟩
  have hsame : logged.file? Checkpoint.name = d.file? Checkpoint.name := by
    rw [BlockLog.append, if_neg (by simp [hlog.isDirectory]),
      if_pos rfl] at happend
    cases happend
    rw [DataDir.file?_put, if_neg (by decide)]
  have htaken : taken.Rests config logged [config.genesisBlock] := by
    refine ⟨rfl, hhistory, rfl, hlogged, ?_⟩
    rw [Checkpoint.load?, hsame, ← Checkpoint.load?, hcheckpoint]
    intro s hs
    cases hs
  obtain ⟨d', hlast⟩ := htaken.checkpointed (by simp) config.genesisBlock.height
  refine ⟨_, d', ?_, checkpointed_chain _ _, hlast⟩
  rw [found, hcommit, founded_success, hlast.dir]
  rfl

/-! ### Logs with blocks -/

/-- A node that uses the first blocks of the log, and at least one, leaves a log
of just these. -/
theorem resume_ok {kept : List Block} {chain : Chain}
    (h : BlockLog.IsWhole d blocks)
    (htemporary : d.isDirectory BlockLog.temporary = false)
    (hkept : kept <+: blocks) (hsize : chain.archive.blocks.size ≠ 0) :
    ∃ d',
      resume config d blocks chain kept.length =
        (.ok ⟨chain, some d', config.chain.checkpointInterval⟩, d') ∧
      BlockLog.IsWhole d' kept ∧
      d'.file? Checkpoint.name = d.file? Checkpoint.name := by
  by_cases hcut : kept.length < blocks.length
  · have htake : blocks.take kept.length = kept :=
      (List.prefix_iff_eq_take.mp hkept).symm
    have hoverwrite : BlockLog.overwrite d kept =
        (.ok (), BlockLog.rewritten d (BlockLog.bytesOf kept)) := by
      rw [BlockLog.overwrite, BlockLog.replace_eq h.isDirectory, htemporary,
        if_neg Bool.false_ne_true]
    refine ⟨_, ?_, .of_file? (BlockLog.file?_rewritten d _),
      BlockLog.file?_rewritten_checkpoint d _⟩
    simp only [resume, if_pos hcut, htake, hoverwrite, if_neg hsize]
  · -- nothing is cut
    have hall : kept = blocks := hkept.eq_of_length_le (Nat.not_lt.mp hcut)
    refine ⟨d, ?_, hall ▸ h, rfl⟩
    simp only [resume, if_neg hcut, if_neg hsize]

/-- The chain of a log is not empty when blocks of it are used. -/
theorem size_ne_zero_of_ofLog {rules : Rules} {checkpoint : Option Checkpoint}
    {kept : List Block} {chain : Chain}
    (h : Chain.ofLog rules checkpoint blocks = (chain, kept.length))
    (hne : kept ≠ []) : chain.archive.blocks.size ≠ 0 := by
  have hsize := Chain.size_ofLog rules checkpoint blocks
  rw [h] at hsize
  rw [hsize]
  exact mt List.eq_nil_of_length_eq_zero hne

/-- A log whose first block commits is cut behind the longest run of blocks that
do. -/
theorem start_rests {b : Block} {rest : List Block} {first : Chain}
    (hb : (Chain.empty config.rules).commit b = .ok first)
    (hlog : BlockLog.IsWhole d (b :: rest))
    (hcheckpoint : Checkpoint.load? d = none)
    (htemporary : d.isDirectory BlockLog.temporary = false) (m : Moment) :
    ∃ next d' kept, start config d m = (.ok next, d') ∧
      Chain.IsLongest config.rules (b :: rest) kept next.chain ∧ kept ≠ [] ∧
      next.Rests config d' kept := by
  obtain ⟨kept, dropped, c, hblocks, hreplay, hkept, hdropped⟩ :=
    (Chain.empty config.rules).replay_cases (b :: rest)
  have hlongest : Chain.IsLongest config.rules (b :: rest) kept c := by
    rw [hblocks]
    exact Chain.isLongest_of_refused hkept hdropped
  have hne : kept ≠ [] := by
    rintro rfl
    rw [List.nil_append] at hblocks
    cases hkept
    obtain ⟨r, hrefused⟩ := hdropped b (by rw [← hblocks]; rfl)
    rw [hb] at hrefused
    cases hrefused
  have hofLog :
      Chain.ofLog config.rules (Checkpoint.load? d) (b :: rest) =
        (c, kept.length) := by
    rw [hcheckpoint]
    exact hreplay
  obtain ⟨d', hresume, hlog', hsame⟩ := resume_ok hlog htemporary hlongest.first
    (size_ne_zero_of_ofLog hofLog hne)
  refine ⟨⟨c, some d', config.chain.checkpointInterval⟩, d', kept, ?_, hlongest,
    hne, ⟨rfl, hkept, rfl, hlog', ?_⟩⟩
  · rw [start_of_isWhole hlog (List.cons_ne_nil _ _), hofLog, hresume]
  · rw [Checkpoint.load?, hsame, ← Checkpoint.load?, hcheckpoint]
    intro s hs
    cases hs

/-! ### The longest valid prefix -/

variable {text : List Char} {first : Chain}

/-- **A start keeps the longest valid prefix, once and for all**, whatever text
the log is and without a checkpoint. A log that begins with no block gives a new
chain; one whose first block does not commit is a fault; every other one gives
the chain of the longest run of its first blocks that commit one after the
other. Where the start succeeds, the log reads back as exactly the blocks of the
chain, and starting again gives the same node and leaves the directory as it
is. -/
theorem start_keeps_longest_prefix
    (hfile : d.file? BlockLog.name = some (Text.encode text))
    (hcheckpoint : d.file? Checkpoint.name = none)
    (hgenesis : (Chain.empty config.rules).commit config.genesisBlock =
      .ok first) (htakes : m.diskTakes = true)
    (htemporary : d.isDirectory BlockLog.temporary = false) :
    (BlockLog.leading text = [] → ∃ next, (start config d m).1 = .ok next ∧
        next.chain = first) ∧
      (∀ b ∈ (BlockLog.leading text).head?,
        (∀ r, (Chain.empty config.rules).commit b = .error r →
          (start config d m).1 = .error .noGenesis) ∧
        ∀ c, (Chain.empty config.rules).commit b = .ok c →
          ∃ next kept, (start config d m).1 = .ok next ∧
            Chain.IsLongest config.rules (BlockLog.leading text) kept
              next.chain) ∧
      ∀ next d', start config d m = (.ok next, d') →
        next.dir = some d' ∧ BlockLog.read d' = (.ok next.chain.blocks, d') ∧
          ∀ m', start config d' m' = (.ok next, d') := by
  obtain ⟨d₁, hread, htemporary, hsame⟩ := BlockLog.read_text hfile htemporary
  have hlog := BlockLog.isWhole_of_read hread
  have hload : Checkpoint.load? d₁ = none :=
    Checkpoint.load?_of_file?_eq_none (hsame.trans hcheckpoint)
  -- the start goes on from what the reading leaves
  have hstart := start_read config d m
  rw [hread] at hstart
  rw [← hstart]
  -- what is left of a node at rest
  have hagain : ∀ {next : Node} {d' : DataDir} {blocks : List Block},
      next.Rests config d' blocks → blocks ≠ [] → next.dir = some d' ∧
        BlockLog.read d' = (.ok next.chain.blocks, d') ∧
          ∀ m', start config d' m' = (.ok next, d') := by
    intro next d' blocks hrests hne
    refine ⟨hrests.dir, ?_, hrests.start hne⟩
    rw [hrests.blocks_eq]
    exact hrests.log.read
  cases hblocks : BlockLog.leading text with
  | nil =>
    rw [hblocks] at hlog
    obtain ⟨next, d', hfound, hchain, hrests⟩ :=
      found_rests hgenesis hlog hload htakes
    rw [start_of_isWhole_nil hlog, hfound]
    refine ⟨fun _ => ⟨next, rfl, hchain⟩, nofun, ?_⟩
    rintro _ _ ⟨⟩
    exact hagain hrests (by simp)
  | cons b rest =>
    rw [hblocks] at hlog
    cases hb : (Chain.empty config.rules).commit b with
    | error r =>
      rw [start_of_refused hlog.read hb hload htemporary]
      refine ⟨nofun, ?_, nofun⟩
      rintro _ ⟨⟩
      refine ⟨fun _ _ => rfl, fun c hc => ?_⟩
      rw [hb] at hc
      cases hc
    | ok c =>
      obtain ⟨next, d', kept, hnext, hlongest, hne, hrests⟩ :=
        start_rests hb hlog hload htemporary m
      rw [hnext]
      refine ⟨nofun, ?_, ?_⟩
      · rintro _ ⟨⟩
        refine ⟨fun r hr => ?_, fun _ _ => ⟨next, kept, rfl, hlongest⟩⟩
        rw [hb] at hr
        cases hr
      · rintro _ _ ⟨⟩
        exact hagain hrests hne

/-- A log that goes on behind its first block with one that does not commit is
cut behind the first. -/
theorem start_keeps_longest_prefix_orphan :
    ∃ d next kept,
      BlockLog.read d = (.ok [Config.twoHolders.genesisBlock, .orphan], d) ∧
      (start .twoHolders d ⟨0, true⟩).1 = .ok next ∧
      Chain.IsLongest Config.twoHolders.rules
        [Config.twoHolders.genesisBlock, .orphan] kept next.chain := by
  obtain ⟨reached, -, hreached, -, -⟩ := exists_voted
  obtain ⟨first, hgenesis⟩ := hreached.exists_commit_genesisBlock
  let blocks := [Config.twoHolders.genesisBlock, Block.orphan]
  let d := (DataDir.empty "data").put BlockLog.name (BlockLog.bytesOf blocks)
  have hfile : d.file? BlockLog.name = some (BlockLog.bytesOf blocks) := by
    rw [DataDir.file?_put, if_pos rfl]
  have hcheckpoint : d.file? Checkpoint.name = none := by
    rw [DataDir.file?_put, if_neg (by decide)]
    rfl
  have hleading : BlockLog.leading (blocks.flatMap BlockLog.line) = blocks := by
    rw [BlockLog.leading, ← BlockLog.blocks_findings,
      BlockLog.lines_flatMap_line, BlockLog.findings_map_line]
  have hkeeps := start_keeps_longest_prefix (m := ⟨0, true⟩) hfile hcheckpoint
    hgenesis rfl (DataDir.isDirectory_put rfl _ _)
  rw [hleading] at hkeeps
  obtain ⟨next, kept, hnext, hlongest⟩ := (hkeeps.2.1 _ rfl).2 _ hgenesis
  exact ⟨d, next, kept, BlockLog.read_of_file? hfile, hnext, hlongest⟩

end Node
end CouncilLedger
