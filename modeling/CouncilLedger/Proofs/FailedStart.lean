import CouncilLedger.Proofs.Repair
import CouncilLedger.Proofs.Run

/-!
# Starts that fail

A node that does not start leaves a log that is read as before, and the next
start meets the same fault. One fault is an exception: where the first block of
the log does not commit, the log is emptied before the fault is found out, and
the next start founds a new chain. The main statement is
`Node.failed_start_keeps_log`.
-/

namespace CouncilLedger

/-! ## Faults -/

namespace Node

variable {config : Config} {d d' : DataDir} {m : Moment} {fault : StartFault}
    {after : Ledger}

/-- What a start does depends on what is read alone. -/
theorem start_read (config : Config) (d : DataDir) (m : Moment) :
    start config (BlockLog.read d).2 m = start config d m := by
  rw [start, start, BlockLog.read_read]

/-! ### New chains -/

theorem founded_error (d : DataDir) (r : Rejection) (n : Node) :
    founded d (.error r, n) = (.error (.rejected r), n.dir.getD d) :=
  rfl

theorem founded_success (d : DataDir) (n : Node) :
    founded d (.ok (), n) = (.ok n, n.dir.getD d) :=
  rfl

theorem found_of_refused {r : Rejection}
    (h : (Chain.empty config.rules).validate config.genesisBlock = .error r)
    (d : DataDir) (m : Moment) :
    found config d m = (.error (.rejected r), d) := by
  have hcommit : (empty config (some d)).commit m config.genesisBlock =
      (.error r, empty config (some d)) := commit_of_refused h m
  rw [found, hcommit]
  exact founded_error _ _ _

theorem found_of_notTaken
    (h : (Chain.empty config.rules).validate config.genesisBlock = .ok after)
    (hd : BlockLog.append d false config.genesisBlock =
      (.error .appendFailed, d')) (hm : m.diskTakes = false) :
    found config d m = (.error (.rejected (.storage .appendFailed)), d') := by
  have hcommit :
      (empty config (some d)).commit m config.genesisBlock =
        (.error (.storage .appendFailed),
         { empty config (some d) with dir := some d' }) :=
    commit_of_unlogged h (log_of_append rfl (hm ▸ hd))
  rw [found, hcommit]
  exact founded_error _ _ _

theorem found_of_taken
    (h : (Chain.empty config.rules).validate config.genesisBlock = .ok after)
    (hd : d.isDirectory BlockLog.name = false) (hm : m.diskTakes = true) :
    ∃ next, (found config d m).1 = .ok next ∧
      next.chain.blocks = [config.genesisBlock] := by
  have hchain :
      Chain.ofBlocks config.rules ([] ++ [config.genesisBlock]) = .ok _ :=
    Chain.ofBlocks_snoc.mpr
      ⟨_, rfl, Chain.commit_of_validate Archive.inStep_empty h⟩
  obtain ⟨d', happend⟩ : ∃ d', BlockLog.append d m.diskTakes
    config.genesisBlock = (.ok (), d') := by
    rw [BlockLog.append, if_neg (by simp [hd]), if_pos hm]
    exact ⟨_, rfl⟩
  have hcommit :
      (empty config (some d)).commit m config.genesisBlock = (.ok (), _) :=
    commit_of_logged Archive.inStep_empty h (log_of_append rfl happend)
  refine ⟨_, by rw [found, hcommit, founded_success], ?_⟩
  rw [checkpointed_chain]
  exact (Chain.records_of_ofBlocks hchain).blocks_eq

/-- **A new chain**: on a log without blocks the first block is refused, or not
taken by the disk, and the log stays one without blocks, or the first block is
the chain. -/
theorem found_cases (h : BlockLog.IsWhole d []) (m : Moment) :
    (∃ r, ∀ m', found config d m' = (.error (.rejected r), d)) ∨
      (m.diskTakes = false ∧ ∃ d', BlockLog.IsWhole d' [] ∧
        found config d m = (.error (.rejected (.storage .appendFailed)), d') ∧
        ∀ m', m'.diskTakes = false →
          (found config d' m').1 =
            .error (.rejected (.storage .appendFailed))) ∨
      ∃ next, (found config d m).1 = .ok next ∧
        next.chain.blocks = [config.genesisBlock] := by
  cases hvalid : (Chain.empty config.rules).validate config.genesisBlock with
  | error r => exact .inl ⟨r, found_of_refused hvalid d⟩
  | ok after =>
    cases htakes : m.diskTakes with
    | true => exact .inr (.inr (found_of_taken hvalid h.isDirectory htakes))
    | false =>
      obtain ⟨d', happend, hd'⟩ := h.append_refused config.genesisBlock
      refine .inr
        (.inl ⟨rfl, d', hd', found_of_notTaken hvalid happend htakes, ?_⟩)
      intro m' htakes'
      obtain ⟨d'', happend', -⟩ := hd'.append_refused config.genesisBlock
      rw [found_of_notTaken hvalid happend' htakes']

/-- A new chain fails without loss, and it fails again. -/
theorem found_error (hd : BlockLog.IsWhole d [])
    (h : found config d m = (.error fault, d')) :
    fault ≠ .noGenesis ∧ BlockLog.IsWhole d' [] ∧
      ∀ m',
        (fault = .rejected (.storage .appendFailed) →
          m'.diskTakes = m.diskTakes) →
        (found config d' m').1 = .error fault := by
  rcases found_cases hd m with
    ⟨r, hrefused⟩ | ⟨htakes, after, hafter, hfailed, hfails⟩ | ⟨next, hok, -⟩
  · rw [hrefused] at h
    cases h
    exact ⟨nofun, hd, fun m' _ => congrArg Prod.fst (hrefused m')⟩
  · rw [hfailed] at h
    cases h
    exact ⟨nofun, hafter, fun m' hm' => hfails m' ((hm' rfl).trans htakes)⟩
  · rw [h] at hok
    cases hok

theorem found_ok {next : Node} (hd : BlockLog.IsWhole d [])
    (h : (found config d m).1 = .ok next) :
    next.chain.blocks = [config.genesisBlock] := by
  rcases found_cases hd m with
    ⟨r, hrefused⟩ | ⟨-, after, -, hfailed, -⟩ | ⟨made, hok, hblocks⟩
  · rw [hrefused] at h
    cases h
  · rw [hfailed] at h
    cases h
  · cases hok.symm.trans h
    exact hblocks

/-! ### Logs with blocks -/

/-- A resumption fails since the log cannot be cut, or since nothing of it is
left. -/
theorem resume_error {blocks : List Block} {chain : Chain} {count : Nat}
    (hd : d.isDirectory BlockLog.name = false) (hne : blocks ≠ [])
    (hsize : chain.archive.blocks.size = count)
    (h : resume config d blocks chain count = (.error fault, d')) :
    (fault = .storage .isDirectory ∧ d' = d) ∨
      fault = .noGenesis ∧ count = 0 ∧ BlockLog.IsWhole d' [] := by
  rw [resume, BlockLog.overwrite, BlockLog.replace_eq hd] at h
  by_cases hcut : count < blocks.length
  · rw [if_pos hcut] at h
    cases htemporary : d.isDirectory BlockLog.temporary with
    | true =>
      rw [htemporary, if_pos rfl] at h
      cases h
      exact .inl ⟨rfl, rfl⟩
    | false =>
      rw [htemporary, if_neg Bool.false_ne_true] at h
      dsimp only at h
      split at h
      · next hempty =>
        cases h
        have hcount : count = 0 := hsize.symm.trans hempty
        rw [hcount, List.take_zero]
        exact .inr ⟨rfl, rfl, .of_file? (BlockLog.file?_rewritten _ _)⟩
      · cases h
  · -- all blocks are kept, so that there is one
    rw [if_neg hcut] at h
    have hpos : 0 < blocks.length := List.length_pos_iff.mpr hne
    dsimp only at h
    rw [if_neg (by omega)] at h
    cases h

/-! ### Failing -/

theorem start_of_isWhole_nil (h : BlockLog.IsWhole d []) (config : Config)
    (m : Moment) : start config d m = found config d m := by
  rw [start, h.read]

theorem start_of_isWhole {blocks : List Block} (h : BlockLog.IsWhole d blocks)
    (hne : blocks ≠ []) (config : Config) (m : Moment) :
    start config d m =
      resume config d blocks
        (Chain.ofLog config.rules (Checkpoint.load? d) blocks).1
        (Chain.ofLog config.rules (Checkpoint.load? d) blocks).2 := by
  obtain ⟨first, rest, rfl⟩ := List.exists_cons_of_ne_nil hne
  rw [start, h.read]

/-- **How a start fails**: the log is read as before and the next start fails in
the same way, or the log is emptied since its first block does not commit. -/
theorem start_error (h : start config d m = (.error fault, d')) :
    (fault ≠ .noGenesis ∧ (BlockLog.read d').1 = (BlockLog.read d).1 ∧
        ∀ m',
          (fault = .rejected (.storage .appendFailed) →
            m'.diskTakes = m.diskTakes) →
          (start config d' m').1 = .error fault) ∨
      (fault = .noGenesis ∧ BlockLog.IsWhole d' [] ∧
        ∃ b rest, (BlockLog.read d).1 = .ok (b :: rest) ∧
          ∃ r, (Chain.empty config.rules).commit b = .error r) := by
  have hagain := start_read config d
  have hsame := congrArg Prod.fst (BlockLog.read_read d)
  rcases BlockLog.read_cases d with ⟨f, hread⟩ | ⟨blocks, d₁, hread, hwhole⟩
  · -- the log is not read
    have hstart : ∀ m', start config d m' = (.error (.storage f), d) :=
      fun m' => by
      rw [start, hread]
    rw [hstart m] at h
    cases h
    exact .inl ⟨by simp, rfl, fun m' _ => congrArg Prod.fst (hstart m')⟩
  · rw [hread] at hagain hsame
    cases blocks with
    | nil =>
      rw [← hagain m, start_of_isWhole_nil hwhole] at h
      obtain ⟨hne, hd', hfails⟩ := found_error hwhole h
      refine .inl ⟨hne, by rw [hd'.read, hread], fun m' hm' => ?_⟩
      rw [start_of_isWhole_nil hd']
      exact hfails m' hm'
    | cons b rest =>
      have hstart : ∀ m', start config d m' = _ := fun m' =>
        (hagain m').symm.trans
          (start_of_isWhole hwhole (List.cons_ne_nil b rest) config m')
      have hsize :=
        Chain.size_ofLog config.rules (Checkpoint.load? d₁) (b :: rest)
      rcases resume_error hwhole.isDirectory (List.cons_ne_nil b rest) hsize
        ((hstart m).symm.trans h) with ⟨rfl, rfl⟩ | ⟨rfl, hcount, hd'⟩
      · refine .inl
          ⟨by simp, hsame.trans (congrArg Prod.fst hread).symm, fun m' _ => ?_⟩
        rw [hagain m', hstart m', ← hstart m, h]
      · exact .inr ⟨rfl, hd', b, rest, congrArg Prod.fst hread,
          Chain.commit_of_ofLog hcount⟩

/-- **A start that fails keeps the log**, unless the fault is that the first
block of the log does not commit. In every other case the same blocks are read,
or the same fault is met, and the next start fails in the same way; where the
disk did not take the first block of a new chain, it does as long as the disk
does not. In the one case the log is empty afterwards: the next start does not
meet the fault again, and if it succeeds, its chain is a new one. -/
theorem failed_start_keeps_log (h : start config d m = (.error fault, d')) :
    (fault ≠ .noGenesis →
        (BlockLog.read d').1 = (BlockLog.read d).1 ∧
          ∀ m',
            (fault = .rejected (.storage .appendFailed) →
              m'.diskTakes = m.diskTakes) →
            (start config d' m').1 = .error fault) ∧
      (fault = .noGenesis → ∃ b rest, (BlockLog.read d).1 = .ok (b :: rest) ∧
        (∃ r, (Chain.empty config.rules).commit b = .error r) ∧
        (BlockLog.read d').1 = .ok [] ∧
        ∀ m', (start config d' m').1 ≠ .error .noGenesis ∧
          ∀ next, (start config d' m').1 = .ok next →
            next.chain.blocks = [config.genesisBlock]) := by
  rcases start_error h with ⟨hne, hkept⟩ | ⟨rfl, hempty, b, rest, hread, hb⟩
  · exact ⟨fun _ => hkept, fun heq => absurd heq hne⟩
  · refine ⟨fun hne => absurd rfl hne, fun _ =>
      ⟨b, rest, hread, hb, congrArg Prod.fst hempty.read, fun m' => ?_⟩⟩
    rw [start_of_isWhole_nil hempty]
    refine ⟨fun hfault => ?_, fun next => found_ok hempty⟩
    exact (found_error hempty (Prod.ext hfault rfl)).1 rfl

end Node

/-! ## A log without its first block -/

/-- A block that has no parent and is not the first. -/
def Block.orphan : Block := .build 1 none 0 []

theorem Chain.commit_orphan (c : Chain) : ∃ r, c.commit .orphan = .error r :=
  ⟨_, rfl⟩

namespace Node

variable {config : Config} {d : DataDir}

/-- Without a checkpoint, a log whose first block does not commit is emptied. -/
theorem start_of_refused {b : Block} {rest : List Block} {r : Rejection}
    (hread : BlockLog.read d = (.ok (b :: rest), d))
    (hrefused : (Chain.empty config.rules).commit b = .error r)
    (hcheckpoint : Checkpoint.load? d = none)
    (htemporary : d.isDirectory BlockLog.temporary = false) (m : Moment) :
    start config d m =
      (.error .noGenesis, BlockLog.rewritten d (BlockLog.bytesOf [])) := by
  have hplain := (BlockLog.isWhole_of_read hread).isDirectory
  have hofLog :
      Chain.ofLog config.rules none (b :: rest) = (.empty config.rules, 0) := by
    rw [Chain.ofLog, Option.bind_none]
    simp only [Chain.replay, hrefused]
  have hoverwrite : BlockLog.overwrite d [] =
      (.ok (), BlockLog.rewritten d (BlockLog.bytesOf [])) := by
    rw [BlockLog.overwrite, BlockLog.replace_eq hplain, htemporary]
    rfl
  simp only [start, hread, hcheckpoint, hofLog, resume, List.length_cons,
    Nat.succ_pos, if_true, List.take_zero, hoverwrite]
  rfl

/-- The log of a block that has no parent and is not the first is emptied. -/
theorem exists_start_orphan (config : Config) (m : Moment) :
    ∃ d d', BlockLog.read d = (.ok [.orphan], d) ∧
      start config d m = (.error .noGenesis, d') ∧ BlockLog.IsWhole d' [] := by
  let d := (DataDir.empty "data").put BlockLog.name (BlockLog.bytesOf [.orphan])
  have hfile : d.file? BlockLog.name = some (BlockLog.bytesOf [.orphan]) := by
    rw [DataDir.file?_put, if_pos rfl]
  have hread := BlockLog.read_of_file? hfile
  have hcheckpoint : Checkpoint.load? d = none := by
    refine Checkpoint.load?_of_file?_eq_none ?_
    rw [DataDir.file?_put, if_neg (by decide)]
    rfl
  obtain ⟨r, hrefused⟩ := (Chain.empty config.rules).commit_orphan
  exact ⟨d, _, hread, start_of_refused hread hrefused hcheckpoint
    (DataDir.isDirectory_put rfl _ _) m,
    .of_file? (BlockLog.file?_rewritten _ _)⟩

/-- The start on this log fails, and the next one does not meet the fault
again. -/
theorem failed_start_keeps_log_orphan : ∃ d d',
    start .twoHolders d ⟨0, true⟩ = (.error .noGenesis, d') ∧
      (BlockLog.read d).1 = .ok [.orphan] ∧ (BlockLog.read d').1 = .ok [] ∧
        (start .twoHolders d' ⟨0, true⟩).1 ≠ .error .noGenesis := by
  obtain ⟨d, d', hread, hstart, -⟩ := exists_start_orphan .twoHolders ⟨0, true⟩
  obtain ⟨b, rest, -, -, hempty, hnext⟩ := (failed_start_keeps_log hstart).2 rfl
  exact ⟨d, d', hstart, congrArg Prod.fst hread, hempty, (hnext ⟨0, true⟩).1⟩

/-- The next start founds a new chain in the place of the block. -/
theorem failed_start_loses_log :
    ∃ d d' next, (BlockLog.read d).1 = .ok [.orphan] ∧
      start .twoHolders d ⟨0, true⟩ = (.error .noGenesis, d') ∧
      (BlockLog.read d').1 = .ok [] ∧
      (start .twoHolders d' ⟨0, true⟩).1 = .ok next ∧
      next.chain.blocks = [Config.twoHolders.genesisBlock] := by
  have hgrow : ((Chain.empty Config.twoHolders.rules).grow
      Config.twoHolders.genesisBlock).isOk = true := by
    decide +kernel
  obtain ⟨c, hc⟩ := Outcome.exists_of_isOk hgrow
  obtain ⟨after, hvalid, -⟩ :=
    (Chain.grow_eq_ok Config.twoHolders.isMade_genesisBlock).mp hc
  obtain ⟨d, d', hread, hstart, hempty⟩ :=
    exists_start_orphan .twoHolders ⟨0, true⟩
  have htakes : Moment.diskTakes ⟨0, true⟩ = true := rfl
  obtain ⟨next, hnext, hblocks⟩ :=
    found_of_taken hvalid hempty.isDirectory htakes
  refine ⟨d, d', next, congrArg Prod.fst hread, hstart,
    by rw [hempty.read], ?_, hblocks⟩
  rw [start_of_isWhole_nil hempty, hnext]

end Node
end CouncilLedger
