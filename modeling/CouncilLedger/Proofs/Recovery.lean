import CouncilLedger.Node.Recovery
import CouncilLedger.Proofs.History
import CouncilLedger.Proofs.Storage

/-!
# From the log to the chain

Replaying the blocks of a chain gives the chain, and so does restoring the
checkpoint of an earlier state of it and replaying the blocks that follow. A
node therefore starts with the chain whose blocks are in the log, by whichever
way. The main statements are `Chain.ofLog_of_ofBlocks` and `Node.start_of_log`.
-/

namespace CouncilLedger

open Outcome

namespace Chain

variable {rules : Rules} {blocks : List Block} {c c' : Chain}

/-! ## Replay -/

/-- Blocks that commit one after the other are all replayed. -/
theorem replay_of_foldlM (h : blocks.foldlM commit c = .ok c') :
    c.replay blocks = (c', blocks.length) := by
  induction blocks generalizing c with
  | nil => rw [pure_eq_ok.mp h]; rfl
  | cons b rest ih =>
    obtain ⟨next, hnext, hrest⟩ := foldlM_cons_eq_ok.mp h
    rw [replay, hnext]
    simp only [ih hrest, List.length_cons]

/-- The archive of a chain can be built without the transactions being
applied. -/
theorem addAll?_of_foldlM (hstep : c.archive.InStep)
    (h : blocks.foldlM commit c = .ok c') :
    c.archive.addAll? c.nextHeight (c.tip.map (·.hash)) blocks =
      some c'.archive := by
  induction blocks generalizing c with
  | nil => rw [pure_eq_ok.mp h]; rfl
  | cons b rest ih =>
    obtain ⟨next, hnext, hrest⟩ := foldlM_cons_eq_ok.mp h
    obtain ⟨after, hvalid, rfl⟩ := commit_ok hstep hnext
    obtain ⟨hblock, hlink, hcheck, -⟩ := validate_ok hvalid
    obtain ⟨hheight, hparent, -⟩ := checkLink_ok hlink
    have htail :=
      ih (c := c.extended b after) (Archive.inStep_added hstep hcheck) hrest
    have hadd := Archive.add_of_check hstep hcheck
    -- the position and the parent asked for are those of the link to the tip
    rw [Archive.addAll?, hblock, hadd, ← hheight, ← hparent]
    simpa [Except.toOption, extended, nextHeight, Block.tip] using htail

end Chain

/-! ## Checkpoints -/

namespace Checkpoint

/-- A checkpoint of the state after some first blocks of a list. -/
def IsOf (checkpoint : Checkpoint) (rules : Rules) (blocks : List Block) :
    Prop :=
  ∃ before last after c, blocks = before ++ [last] ++ after ∧
    Chain.ofBlocks rules (before ++ [last]) = .ok c ∧
    checkpoint = ⟨last.height, last.hash, c.accounts, c.council⟩

theorem IsOf.append {checkpoint : Checkpoint} {rules : Rules}
    {blocks : List Block} (h : checkpoint.IsOf rules blocks)
    (more : List Block) : checkpoint.IsOf rules (blocks ++ more) := by
  obtain ⟨before, last, after, c, rfl, hc, hcheckpoint⟩ := h
  exact ⟨before, last, after ++ more, c, by simp, hc, hcheckpoint⟩

theorem IsOf.ne_nil {checkpoint : Checkpoint} {rules : Rules}
    {blocks : List Block} (h : checkpoint.IsOf rules blocks) : blocks ≠ [] := by
  obtain ⟨before, last, after, c, rfl, -, -⟩ := h
  simp

/-- A checkpoint of an earlier state stands for the chain as it was then, with
the rules that are asked for. -/
theorem restore?_of_isOf {rules : Rules} {before : List Block} {last : Block}
    {c : Chain} (h : Chain.ofBlocks rules (before ++ [last]) = .ok c)
    (after : List Block) (others : Rules) :
    restore? ⟨last.height, last.hash, c.accounts, c.council⟩ others
        (before ++ [last] ++ after) =
      some { c with council := { c.council with rules := others } } := by
  have hrecords := Chain.records_of_ofBlocks h
  -- the height of the checkpoint is where its block stands in the log
  have hposition : last.height.toNat = before.length :=
    hrecords.height _ _ (by simp)
  have hlast : (before ++ [last] ++ after)[before.length]? = some last := by simp
  have htake :
      (before ++ [last] ++ after).take (before.length + 1) =
        before ++ [last] := by
    rw [List.take_append_of_le_length (by simp),
      List.take_of_length_le (by simp)]
  have harchive :
      Archive.empty.addAll? 0 none (before ++ [last]) = some c.archive :=
    Chain.addAll?_of_foldlM (c := .empty rules) Archive.inStep_empty h
  have htip : c.tip = some last.tip := by
    rw [hrecords.tip]
    simp
  simp only [restore?, hposition, hlast, htake, harchive]
  cases c with
  | mk archive accounts council tip =>
    rw [show tip = some last.tip from htip]
    simp [Block.tip]

/-- The rules that the chain was made under are no others. -/
theorem restore?_of_ofBlocks {rules : Rules} {before : List Block}
    {last : Block} {c : Chain}
    (h : Chain.ofBlocks rules (before ++ [last]) = .ok c) (after : List Block) :
    restore? ⟨last.height, last.hash, c.accounts, c.council⟩ rules
        (before ++ [last] ++ after) =
      some c := by
  have hsame : { c with council := { c.council with rules := rules } } = c := by
    rw [← Chain.rules_of_ofBlocks h]
  rw [restore?_of_isOf h after rules, hsame]

end Checkpoint

namespace Chain

variable {rules : Rules} {blocks : List Block} {c : Chain}

/-- **Both ways lead to the chain**: by a checkpoint of an earlier state, or by
the blocks alone. -/
theorem ofLog_of_ofBlocks (h : ofBlocks rules blocks = .ok c)
    {checkpoint : Option Checkpoint}
    (hcheckpoint : ∀ s ∈ checkpoint, s.IsOf rules blocks) :
    ofLog rules checkpoint blocks = (c, blocks.length) := by
  cases checkpoint with
  | none => exact replay_of_foldlM h
  | some s =>
    obtain ⟨before, last, after, m, rfl, hm, rfl⟩ := hcheckpoint s rfl
    have hposition : last.height.toNat = before.length :=
      (records_of_ofBlocks hm).height _ _ (by simp)
    have hdrop :
        (before ++ [last] ++ after).drop (before.length + 1) = after := by
      rw [List.drop_append_of_le_length (by simp),
        List.drop_of_length_le (by simp)]
      rfl
    obtain ⟨m', hm', hafter⟩ := foldlM_append_eq_ok.mp h
    cases hm.symm.trans hm'
    have hrestore := Checkpoint.restore?_of_ofBlocks hm after
    have hlength :
        (before ++ [last] ++ after).length =
          before.length + 1 + after.length := by
      simp
      omega
    simp only [ofLog, Option.bind_some, hrestore, Option.map_some, hposition,
      hdrop, replay_of_foldlM hafter, hlength]

end Chain

/-! ## Counting the blocks of a log -/

namespace Archive

variable {a a' : Archive} {blocks : List Block}

theorem addAll?_ok {position : UInt64} {parent : Option Digest}
    (hstep : a.InStep) (h : a.addAll? position parent blocks = some a') :
    a'.InStep ∧ a'.blocks.size = a.blocks.size + blocks.length := by
  induction blocks generalizing a position parent with
  | nil =>
    cases h
    exact ⟨hstep, rfl⟩
  | cons b rest ih =>
    simp only [addAll?, Option.bind_eq_bind, Option.bind_eq_some_iff] at h
    obtain ⟨⟨⟩, -, h⟩ := h
    split at h
    · cases h
    · cases hadd : a.add b with
      | error r =>
        rw [hadd] at h
        cases h
      | ok next =>
        rw [hadd] at h
        obtain ⟨hnext, hsize⟩ := add_ok hstep hadd
        obtain ⟨hlast, hrest⟩ := ih hnext h
        refine ⟨hlast, ?_⟩
        rw [hrest, hsize, List.length_cons]
        omega

end Archive

namespace Chain

variable {rules : Rules} {blocks : List Block} {c chain : Chain}

/-- A replay adds as many blocks as it counts. -/
theorem size_replay (hstep : c.archive.InStep) :
    (c.replay blocks).1.archive.blocks.size =
      c.archive.blocks.size + (c.replay blocks).2 := by
  induction blocks generalizing c with
  | nil => rfl
  | cons b rest ih =>
    cases hcommit : c.commit b with
    | error r => simp [replay, hcommit]
    | ok next =>
      obtain ⟨after, hvalid, rfl⟩ := commit_ok hstep hcommit
      have hcheck := (validate_ok hvalid).2.2.1
      obtain ⟨hadded, hsize⟩ :=
        Archive.add_ok hstep (Archive.add_of_check hstep hcheck)
      have hrest : ((c.extended b after).replay rest).1.archive.blocks.size =
          _ := ih hadded
      simp only [replay, hcommit]
      rw [hrest]
      show (c.archive.added b).blocks.size + _ = _
      omega

theorem restore?_ok {checkpoint : Checkpoint}
    (h : checkpoint.restore? rules blocks = some chain) :
    chain.archive.InStep ∧
      chain.archive.blocks.size = checkpoint.height.toNat + 1 := by
  obtain ⟨last, hlast, h⟩ := Option.bind_eq_some_iff.mp h
  dsimp only at h
  split at h
  · cases h
  · obtain ⟨archive, harchive, hchain⟩ := Option.bind_eq_some_iff.mp h
    cases hchain
    obtain ⟨hstep, hsize⟩ := Archive.addAll?_ok Archive.inStep_empty harchive
    refine ⟨hstep, hsize.trans ?_⟩
    obtain ⟨hbound, -⟩ := List.getElem?_eq_some_iff.mp hlast
    rw [List.length_take]
    show 0 + _ = _
    omega

/-- **The chain of a log has as many blocks as are taken from the log.** -/
theorem size_ofLog (rules : Rules) (checkpoint : Option Checkpoint)
    (blocks : List Block) :
    (ofLog rules checkpoint blocks).1.archive.blocks.size =
      (ofLog rules checkpoint blocks).2 := by
  unfold ofLog
  split
  · next start height hrestored =>
    obtain ⟨checkpoint, -, hmap⟩ := Option.bind_eq_some_iff.mp hrestored
    obtain ⟨chain, hchain, hpair⟩ := Option.map_eq_some_iff.mp hmap
    cases hpair
    obtain ⟨hstep, hsize⟩ := restore?_ok hchain
    exact (size_replay hstep).trans (by rw [hsize])
  · exact (size_replay Archive.inStep_empty).trans (Nat.zero_add _)

/-- No block is taken only where the first one does not commit. -/
theorem commit_of_ofLog {checkpoint : Option Checkpoint} {b : Block}
    {rest : List Block} (h : (ofLog rules checkpoint (b :: rest)).2 = 0) :
    ∃ r, (empty rules).commit b = .error r := by
  unfold ofLog at h
  split at h
  · simp at h
  · cases hcommit : (empty rules).commit b with
    | error r => exact ⟨r, rfl⟩
    | ok next => simp [replay, hcommit] at h

end Chain

/-! ## Starting -/

namespace Node

/-- A node starts with the chain of the blocks that are read from its log. -/
theorem start_of_read {config : Config} {d d' : DataDir} {blocks : List Block}
    {c : Chain} (hread : BlockLog.read d = (.ok blocks, d')) (hne : blocks ≠ [])
    (hchain : Chain.ofBlocks config.rules blocks = .ok c)
    (hcheckpoint : ∀ s ∈ Checkpoint.load? d', s.IsOf config.rules blocks)
    (m : Moment) :
    start config d m =
      (.ok ⟨c, some d', config.chain.checkpointInterval⟩, d') := by
  have hofLog := Chain.ofLog_of_ofBlocks hchain hcheckpoint
  have hsize : c.archive.blocks.size ≠ 0 := by
    have htaken := Chain.size_ofLog config.rules (Checkpoint.load? d') blocks
    rw [hofLog] at htaken
    simpa [htaken] using hne
  obtain ⟨first, rest, rfl⟩ := List.exists_cons_of_ne_nil hne
  simp [start, hread, hofLog, resume, hsize]

/-- **A node starts with its chain**, and leaves the directory as it is. -/
theorem start_of_log {config : Config} {d : DataDir} {blocks : List Block}
    {c : Chain} (hlog : d.file? BlockLog.name = some (BlockLog.bytesOf blocks))
    (hne : blocks ≠ []) (hchain : Chain.ofBlocks config.rules blocks = .ok c)
    (hcheckpoint : ∀ s ∈ Checkpoint.load? d, s.IsOf config.rules blocks)
    (m : Moment) :
    start config d m = (.ok ⟨c, some d, config.chain.checkpointInterval⟩, d) :=
  start_of_read (BlockLog.read_of_file? hlog) hne hchain hcheckpoint m

end Node
end CouncilLedger
