import CouncilLedger.Proofs.Run

/-!
# What is on disk

A node that is closed and started again is the node as it was, whether it finds
no checkpoint or one of any earlier moment of the run. A block that is refused
leaves the chain and the log as they are, and a block that is taken is added to
both. The invariant behind both is `Node.Tracks`.
-/

namespace CouncilLedger.Node

variable {config : Config} {n next earlier : Node}
    {blocks : List Block} {d : DataDir}

/-! ## Restarts -/

/-- What a closed node leaves in a directory: its log, and no checkpoint or one
of an earlier node, as that found or would have written it. -/
structure Leaves (n earlier : Node) (d : DataDir) : Prop where
  log : ∃ own, n.dir = some own ∧ d.file? BlockLog.name = own.file? BlockLog.name
  checkpoint : d.file? Checkpoint.name = none ∨
    (∃ before, earlier.dir = some before ∧
      d.file? Checkpoint.name = before.file? Checkpoint.name) ∨
    ∃ s, earlier.checkpoint? = some s ∧ d.file? Checkpoint.name = some s.bytes

/-- A directory that a node leaves keeps all blocks of the node, also those
that came after the checkpoint. -/
theorem Leaves.keeps {more : List Block} (h : n.Leaves earlier d)
    (hearlier : earlier.Tracks config blocks)
    (hn : n.Tracks config (blocks ++ more)) (hne : blocks ≠ []) :
    d.Keeps config.rules (blocks ++ more) := by
  obtain ⟨own, hdir, hfile⟩ := h.log
  have hlog : d.file? BlockLog.name = some (BlockLog.bytesOf (blocks ++ more)) :=
    hfile.trans ((hn.disk own hdir).file?_log (by simp [hne]))
  refine ⟨by rw [hlog]; rfl, DataDir.isDirectory_of_file? hlog, ?_⟩
  -- a checkpoint of the earlier blocks is one of all blocks
  rcases h.checkpoint with hnone | ⟨before, hbefore, hsame⟩ | ⟨s, hs, hsaved⟩
  · exact .inl hnone
  · exact ((hearlier.disk before hbefore).of_log hlog hsame).checkpoint
  · exact .inr ⟨s, (hearlier.checkpoint? hs).append more, hsaved⟩

/-- The directory of a node may be another one that keeps the same blocks. -/
theorem Tracks.moved (h : n.Tracks config blocks)
    (hd : d.Keeps config.rules blocks) :
    Tracks config { n with dir := some d } blocks :=
  ⟨h.history, h.interval, fun _ h' => Option.some.inj h' ▸ hd⟩

/-- **A restart changes nothing**: the node that is started on what another one
left has the same chain, and the directory stays as it is with all blocks in
its log. -/
theorem restart_reproduces (h : earlier.Reachable config)
    (hrun : Run config earlier n) (hleft : n.Leaves earlier d) (m : Moment) :
    start config d m = (.ok { n with dir := some d }, d) ∧
      BlockLog.read d = (.ok n.chain.blocks, d) := by
  obtain ⟨rest, hearlier⟩ := h.tracks
  have hne : config.genesisBlock :: rest ≠ [] := List.cons_ne_nil _ _
  obtain ⟨more, hn⟩ := hearlier.run hne hrun
  have hkeeps := hleft.keeps hearlier hn hne
  have hblocks : config.genesisBlock :: rest ++ more ≠ [] := by simp
  refine ⟨(hn.moved hkeeps).restart hblocks rfl m, ?_⟩
  rw [hn.blocks_eq]
  exact BlockLog.read_of_file? (hkeeps.file?_log hblocks)

/-- The node with a vote starts again, with the checkpoint on disk and
without. -/
theorem restart_reproduces_voted :
    ∃ n d, Reachable .twoHolders n ∧ n.dir = some d ∧
      ∀ d' ∈ [d, d.remove Checkpoint.name],
        start .twoHolders d' ⟨7, true⟩ =
          (.ok { n with dir := some d' }, d') := by
  obtain ⟨n, d, hn, hdir, -⟩ := exists_voted
  refine ⟨n, d, hn, hdir, ?_⟩
  intro d' hd'
  have hleft : n.Leaves n d' := by
    rcases List.mem_pair.mp hd' with rfl | rfl
    · exact ⟨⟨d', hdir, rfl⟩, .inr (.inl ⟨d', hdir, rfl⟩)⟩
    · refine ⟨⟨d, hdir, ?_⟩, .inl ?_⟩
      · rw [DataDir.file?_remove, if_neg (by decide)]
      · rw [DataDir.file?_remove, if_pos rfl]
  exact (restart_reproduces hn .refl hleft ⟨7, true⟩).1

/-! ## Commits -/

namespace Tracks

/-- The log of a node gives its blocks back. -/
theorem read_log (h : n.Tracks config blocks) (hne : blocks ≠ [])
    (hdir : n.dir = some d) : BlockLog.read d = (.ok n.chain.blocks, d) := by
  rw [h.blocks_eq]
  exact BlockLog.read_of_file? ((h.disk d hdir).file?_log hne)

/-- **A refused block leaves no trace**: the node is the same in every part. -/
theorem commit_refused (h : n.Tracks config blocks) (hne : blocks ≠ [])
    {m : Moment} {b : Block} {r : Rejection}
    (herror : (n.commit m b).1 = .error r) : n.commit m b = (.error r, n) := by
  rcases commit_cases h m b with
    ⟨_, -, hcommit⟩ | ⟨after, own, -, hdir, -, hcommit⟩ |
    ⟨after, next, -, -, hcommit, -⟩
  · rw [hcommit] at herror ⊢
    exact congrArg (·, n) herror
  · -- the log is given the bytes it has
    rw [DataDir.put_of_file? ((h.disk own hdir).file?_log hne), ← hdir]
      at hcommit
    rw [hcommit] at herror ⊢
    exact congrArg (·, n) herror
  · rw [hcommit] at herror
    cases herror

theorem submit_refused (h : n.Tracks config blocks) (hne : blocks ≠ [])
    {m : Moment} {sender : String} {action : Action} {r : Rejection}
    (herror : (n.submit m sender action).1 = .error r) :
    n.submit m sender action = (.error r, n) := by
  rcases submit_cases n m sender action with ⟨_, hsubmit⟩ | ⟨t, b, -, hsubmit⟩
  · rw [hsubmit] at herror ⊢
    exact congrArg (·, n) herror
  · rw [hsubmit] at herror ⊢
    rw [h.commit_refused hne (Outcome.map_eq_error.mp herror)]
    rfl

theorem tick_refused (h : n.Tracks config blocks) (hne : blocks ≠ [])
    {m : Moment} {r : Rejection} (herror : (n.tick m).1 = .error r) :
    n.tick m = (.error r, n) := by
  rcases tick_cases n m with ⟨_, htick⟩ | ⟨due, b, -, htick⟩
  · rw [htick] at herror ⊢
    exact congrArg (·, n) herror
  · rw [htick] at herror ⊢
    rw [h.commit_refused hne (Outcome.map_eq_error.mp herror)]
    rfl

theorem commit_error (h : n.Tracks config blocks) (hne : blocks ≠ [])
    (hdir : n.dir = some d) {m : Moment} {b : Block} {r : Rejection}
    (herror : (n.commit m b).1 = .error r) :
    (n.commit m b).2.chain = n.chain ∧ ∃ d', (n.commit m b).2.dir = some d' ∧
      BlockLog.read d' = (.ok n.chain.blocks, d') := by
  rw [h.commit_refused hne herror]
  exact ⟨rfl, d, hdir, h.read_log hne hdir⟩

theorem commit_ok (h : n.Tracks config blocks) (hdir : n.dir = some d)
    {m : Moment} {b : Block} (hok : (n.commit m b).1 = .ok ()) :
    ∃ after d', n.chain.validate b = .ok after ∧
      (n.commit m b).2.chain = n.chain.extended b after ∧
      (n.commit m b).2.chain.blocks = n.chain.blocks ++ [b] ∧
      (n.commit m b).2.dir = some d' ∧
      BlockLog.read d' = (.ok (n.chain.blocks ++ [b]), d') := by
  obtain ⟨after, hvalid, hchain, hsame, hnext⟩ :=
    h.of_commit_eq_ok (Prod.ext hok rfl)
  have hsome : (n.commit m b).2.dir ≠ none := by simp [hsame, hdir]
  obtain ⟨d', hdir'⟩ := Option.ne_none_iff_exists'.mp hsome
  have hblocks : (n.commit m b).2.chain.blocks = n.chain.blocks ++ [b] := by
    rw [hnext.blocks_eq, h.blocks_eq]
  exact ⟨after, d', hvalid, hchain, hblocks, hdir',
    hblocks ▸ hnext.read_log (by simp) hdir'⟩

/-- A block of a node on disk commits if and only if it is valid and the disk
takes it. -/
theorem commit_eq_ok_iff (h : n.Tracks config blocks) (hdir : n.dir = some d)
    (m : Moment) (b : Block) :
    (n.commit m b).1 = .ok () ↔
      (∃ after, n.chain.validate b = .ok after) ∧ m.diskTakes = true := by
  rcases commit_cases h m b with
    ⟨_, hinvalid, hcommit⟩ | ⟨after, own, -, -, htakes, hcommit⟩ |
    ⟨after, next, hvalid, htakes, hcommit, -⟩
  · simp [hcommit, hinvalid]
  · simp [hcommit, htakes]
  · simpa [hcommit, hvalid, hdir] using htakes

end Tracks

/-- **A block commits completely or not at all**: the log of a node on disk
gives back the blocks of the chain in the order of their heights; a block that
is valid is never refused once it is logged; a block that is refused changes
neither the chain nor the log; and one that is taken is added to both. -/
theorem commit_all_or_nothing (h : n.Reachable config) (hdir : n.dir = some d) :
    BlockLog.read d = (.ok n.chain.blocks, d) ∧
      (∀ (i : Nat) (b : Block), n.chain.blocks[i]? = some b →
        b.height.toNat = i) ∧
      ∀ m b,
        (∀ after, n.chain.validate b = .ok after →
          n.chain.extend b after = .ok (n.chain.extended b after)) ∧
        ((n.commit m b).1 = .ok () ↔
          (∃ after, n.chain.validate b = .ok after) ∧ m.diskTakes = true) ∧
        (∀ r, (n.commit m b).1 = .error r →
          (n.commit m b).2.chain = n.chain ∧
            ∃ d', (n.commit m b).2.dir = some d' ∧
              BlockLog.read d' = (.ok n.chain.blocks, d')) ∧
        ((n.commit m b).1 = .ok () →
          ∃ after d', n.chain.validate b = .ok after ∧
            (n.commit m b).2.chain = n.chain.extended b after ∧
            (n.commit m b).2.chain.blocks = n.chain.blocks ++ [b] ∧
            (n.commit m b).2.dir = some d' ∧
            BlockLog.read d' = (.ok (n.chain.blocks ++ [b]), d')) := by
  obtain ⟨rest, htracks⟩ := h.tracks
  have hne : config.genesisBlock :: rest ≠ [] := List.cons_ne_nil _ _
  refine ⟨htracks.read_log hne hdir, ?_, ?_⟩
  · rw [htracks.blocks_eq]
    exact htracks.records.height
  · intro m b
    refine ⟨?_, htracks.commit_eq_ok_iff hdir m b, ?_, ?_⟩
    · intro after hvalid
      exact Chain.extend_of_validate htracks.records.inStep hvalid
    · intro r herror
      exact htracks.commit_error hne hdir herror
    · intro hok
      exact htracks.commit_ok hdir hok

/-- A disk that does not take the line of a block leaves the node with a vote as
it is. -/
theorem commit_all_or_nothing_voted :
    ∃ n d, Reachable .twoHolders n ∧ n.dir = some d ∧
      ∀ b, (n.commit ⟨0, false⟩ b).2.chain = n.chain := by
  obtain ⟨n, d, hn, hdir, -⟩ := exists_voted
  refine ⟨n, d, hn, hdir, ?_⟩
  intro b
  obtain ⟨-, hiff, herror, -⟩ := (commit_all_or_nothing hn hdir).2.2 ⟨0, false⟩ b
  cases hcommit : (n.commit ⟨0, false⟩ b).1 with
  | error r => exact (herror r hcommit).1
  | ok u => exact absurd (hiff.mp hcommit).2 (by simp)

end CouncilLedger.Node
