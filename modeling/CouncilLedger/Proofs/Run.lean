import CouncilLedger.Proofs.Making
import CouncilLedger.Proofs.Recovery
import Mathlib.Logic.Relation

/-!
# Runs of a node

A node begins in memory or on a fresh directory, and every operation on it leads
to a next node, whether it succeeds or not. `Tracks` is the invariant of all
runs: the chain is what its blocks lead to, and what is on disk is the log of
these blocks and at most a checkpoint of an earlier state. The main statements
are `Node.commit_cases`, `Node.Tracks.run` and `Node.Reachable.tracks`.
-/

namespace CouncilLedger

/-! ## Directories -/

namespace DataDir

/-- A directory on which a chain starts anew: no block in the log, and no
checkpoint. -/
structure IsFresh (d : DataDir) : Prop where
  log : (d.file? BlockLog.name).getD [] = []
  checkpoint : d.file? Checkpoint.name = none

/-- What a directory keeps of a chain with some blocks. -/
structure Keeps (d : DataDir) (rules : Rules) (blocks : List Block) : Prop where
  log : (d.file? BlockLog.name).getD [] = BlockLog.bytesOf blocks
  plain : d.isDirectory BlockLog.name = false
  checkpoint : d.file? Checkpoint.name = none ∨ ∃ s : Checkpoint,
    s.IsOf rules blocks ∧ d.file? Checkpoint.name = some s.bytes

namespace Keeps

variable {d : DataDir} {rules : Rules} {blocks : List Block}

theorem file?_log (h : d.Keeps rules blocks) (hne : blocks ≠ []) :
    d.file? BlockLog.name = some (BlockLog.bytesOf blocks) := by
  have hlog := h.log
  cases hfile : d.file? BlockLog.name with
  | some bytes =>
    rw [hfile, Option.getD_some] at hlog
    rw [hlog]
  | none =>
    rw [hfile, Option.getD_none] at hlog
    exact absurd hlog.symm (BlockLog.bytesOf_ne_nil hne)

/-- The checkpoint that is loaded, if any, is of an earlier state. -/
theorem load? (h : d.Keeps rules blocks) :
    ∀ s ∈ Checkpoint.load? d, s.IsOf rules blocks := by
  intro s hs
  rcases h.checkpoint with hnone | ⟨kept, hkept, hfile⟩
  · rw [Checkpoint.load?_of_file?_eq_none hnone] at hs
    cases hs
  · rw [Checkpoint.load?_of_file? hfile] at hs
    cases hs
    exact hkept

/-- Another directory with the same checkpoint, whose log holds no block more or
some. -/
theorem of_log {d' : DataDir} {more : List Block} (h : d.Keeps rules blocks)
    (hlog : d'.file? BlockLog.name = some (BlockLog.bytesOf (blocks ++ more)))
    (hsame : d'.file? Checkpoint.name = d.file? Checkpoint.name) :
    d'.Keeps rules (blocks ++ more) := by
  refine ⟨by rw [hlog]; rfl, isDirectory_of_file? hlog, ?_⟩
  rw [hsame]
  exact h.checkpoint.imp_right fun ⟨s, hs, hfile⟩ => ⟨s, hs.append more, hfile⟩

/-- The log written anew, with no block more or with some. -/
theorem put_log (h : d.Keeps rules blocks) (more : List Block) :
    (d.put BlockLog.name (BlockLog.bytesOf (blocks ++ more))).Keeps rules
      (blocks ++ more) :=
  h.of_log (file?_put_self _ _ _) (by rw [file?_put, if_neg (by decide)])

theorem save (h : d.Keeps rules blocks) {s : Checkpoint}
    (hs : s.IsOf rules blocks) : (s.save d).2.Keeps rules blocks := by
  have hlog := h.file?_log hs.ne_nil
  rw [← Checkpoint.file?_save_log s d] at hlog
  refine ⟨by rw [hlog]; rfl, isDirectory_of_file? hlog, ?_⟩
  rcases Checkpoint.file?_save s d with hnew | hold
  · exact .inr ⟨s, hs, hnew⟩
  · rw [hold]
    exact h.checkpoint

end Keeps

/-- The log of a fresh directory cannot be read, or holds nothing. -/
theorem IsFresh.read {d : DataDir} (h : d.IsFresh) (rules : Rules) :
    (∃ fault, BlockLog.read d = (.error fault, d)) ∨
      BlockLog.read d = (.ok [], d) ∧ d.Keeps rules [] := by
  cases hfile : d.file? BlockLog.name with
  | some bytes =>
    have hempty : bytes = BlockLog.bytesOf [] := by
      have hlog := h.log
      rwa [hfile, Option.getD_some] at hlog
    rw [hempty] at hfile
    exact .inr ⟨BlockLog.read_of_file? hfile, h.log, isDirectory_of_file? hfile,
      .inl h.checkpoint⟩
  | none =>
    by_cases hcontains : d.contains BlockLog.name = true
    · exact .inl ⟨_, by simp [BlockLog.read, hcontains, hfile]; rfl⟩
    · have hnone : d.items.get? BlockLog.name = none := by
        simpa [contains, SortedMap.contains] using hcontains
      refine .inr
        ⟨by simp [BlockLog.read, hcontains], h.log, ?_, .inl h.checkpoint⟩
      simp [isDirectory, hnone]

end DataDir

namespace Node

variable {config : Config} {n next : Node} {blocks : List Block}

/-! ## Nodes and their blocks -/

/-- The chain of a node is what some blocks lead to, and its directory keeps
them. -/
structure Tracks (config : Config) (n : Node) (blocks : List Block) : Prop where
  history : Chain.ofBlocks config.rules blocks = .ok n.chain
  interval : n.checkpointInterval = config.chain.checkpointInterval
  disk : ∀ d ∈ n.dir, d.Keeps config.rules blocks

namespace Tracks

theorem records (h : n.Tracks config blocks) : n.chain.Records blocks :=
  Chain.records_of_ofBlocks h.history

theorem blocks_eq (h : n.Tracks config blocks) : n.chain.blocks = blocks :=
  h.records.blocks_eq

theorem checkpoint? (h : n.Tracks config blocks) {s : Checkpoint}
    (hs : n.checkpoint? = some s) : s.IsOf config.rules blocks := by
  rcases List.eq_nil_or_concat blocks with rfl | ⟨before, last, rfl⟩
  · rw [Node.checkpoint?, h.records.tip] at hs
    cases hs
  · rw [Node.checkpoint?, h.records.tip, List.concat_eq_append,
      List.getLast?_append] at hs
    cases hs
    exact ⟨before, last, [], n.chain, by simp, by simpa using h.history, rfl⟩

theorem saveCheckpoint (h : n.Tracks config blocks) :
    n.saveCheckpoint.2.Tracks config blocks := by
  unfold Node.saveCheckpoint
  split
  · next d s hdir hs =>
    refine ⟨h.history, h.interval, ?_⟩
    intro d' hd'
    cases hd'
    exact (h.disk d hdir).save (h.checkpoint? hs)
  · exact h

end Tracks

/-- The node, with a checkpoint written where one is due. -/
def checkpointed (n : Node) (height : UInt64) : Node :=
  if n.checkpointIsDue height then n.saveCheckpoint.2 else n

theorem saveCheckpoint_chain (n : Node) :
    n.saveCheckpoint.2.chain = n.chain := by
  unfold Node.saveCheckpoint
  split <;> rfl

theorem saveCheckpoint_dir (n : Node) :
    n.saveCheckpoint.2.dir = none ↔ n.dir = none := by
  unfold Node.saveCheckpoint
  split
  · next d s hdir hs => simp [hdir]
  · rfl

theorem checkpointed_chain (n : Node) (height : UInt64) :
    (n.checkpointed height).chain = n.chain := by
  unfold checkpointed
  split
  · exact n.saveCheckpoint_chain
  · rfl

theorem checkpointed_dir (n : Node) (height : UInt64) :
    (n.checkpointed height).dir = none ↔ n.dir = none := by
  unfold checkpointed
  split
  · exact n.saveCheckpoint_dir
  · rfl

theorem Tracks.checkpointed (h : n.Tracks config blocks) (height : UInt64) :
    (n.checkpointed height).Tracks config blocks := by
  unfold Node.checkpointed
  split
  · exact h.saveCheckpoint
  · exact h

/-! ## Committing -/

theorem log_of_append {d d' : DataDir} {m : Moment} {b : Block}
    {outcome : Except StorageFault Unit} (hdir : n.dir = some d)
    (happend : BlockLog.append d m.diskTakes b = (outcome, d')) :
    n.log m b = (outcome, { n with dir := some d' }) := by
  simp only [log, hdir, happend]

theorem commit_of_refused {b : Block} {r : Rejection}
    (h : n.chain.validate b = .error r) (m : Moment) :
    n.commit m b = (.error r, n) := by
  rw [commit, h]

theorem commit_of_unlogged {m : Moment} {b : Block} {after : Ledger}
    {fault : StorageFault} {logged : Node} (h : n.chain.validate b = .ok after)
    (hlog : n.log m b = (.error fault, logged)) :
    n.commit m b = (.error (.storage fault), logged) := by
  simp only [commit, h, hlog]

theorem commit_of_logged {m : Moment} {b : Block} {after : Ledger}
    {dir : Option DataDir} (hstep : n.chain.archive.InStep)
    (h : n.chain.validate b = .ok after)
    (hlog : n.log m b = (.ok (), { n with dir })) :
    n.commit m b =
      (.ok (),
       checkpointed { n with chain := n.chain.extended b after, dir }
         b.height) := by
  simp only [commit, h, hlog, Chain.extend_of_validate hstep h, checkpointed]

/-- A block is logged in whole, or it is refused and leaves no trace. -/
theorem log_cases (h : n.Tracks config blocks) (m : Moment) (b : Block) :
    (∃ d, n.dir = some d ∧ m.diskTakes = false ∧
        n.log m b =
          (.error .appendFailed,
           { n with
             dir := some (d.put BlockLog.name (BlockLog.bytesOf blocks)) })) ∨
      ((n.dir = none ∨ m.diskTakes = true) ∧
        ∃ dir, n.log m b = (.ok (), { n with dir }) ∧
          (dir = none ↔ n.dir = none) ∧
          ∀ d ∈ dir, d.Keeps config.rules (blocks ++ [b])) := by
  cases hdir : n.dir with
  | none =>
    refine .inr ⟨.inl rfl, none, ?_, Iff.rfl, by simp⟩
    cases n
    cases hdir
    rfl
  | some d =>
    have hkeeps := h.disk d hdir
    cases htakes : m.diskTakes with
    | false =>
      refine .inl ⟨d, rfl, rfl, ?_⟩
      exact log_of_append hdir
        (by rw [htakes, BlockLog.append_refused hkeeps.plain hkeeps.log])
    | true =>
      refine .inr ⟨.inr rfl, some (d.put BlockLog.name
        (BlockLog.bytesOf (blocks ++ [b]))), ?_, by simp, ?_⟩
      · exact log_of_append hdir
          (by rw [htakes, BlockLog.append_taken hkeeps.plain hkeeps.log])
      · intro d' hd'
        cases hd'
        exact hkeeps.put_log [b]

/-- **What a commit does**: the block is refused, or the disk does not take it,
or it is added to the chain and to the log. -/
theorem commit_cases (h : n.Tracks config blocks) (m : Moment) (b : Block) :
    (∃ r, n.chain.validate b = .error r ∧ n.commit m b = (.error r, n)) ∨
      (∃ after d, n.chain.validate b = .ok after ∧ n.dir = some d ∧
        m.diskTakes = false ∧
        n.commit m b =
          (.error (.storage .appendFailed),
           { n with
             dir := some (d.put BlockLog.name (BlockLog.bytesOf blocks)) })) ∨
      (∃ after next, n.chain.validate b = .ok after ∧
        (n.dir = none ∨ m.diskTakes = true) ∧ n.commit m b = (.ok (), next) ∧
        next.chain = n.chain.extended b after ∧
        (next.dir = none ↔ n.dir = none) ∧
        next.Tracks config (blocks ++ [b])) := by
  cases hvalid : n.chain.validate b with
  | error r => exact .inl ⟨r, rfl, commit_of_refused hvalid m⟩
  | ok after =>
    rcases log_cases h m b with
      ⟨d, hdir, htakes, hlog⟩ | ⟨htakes, dir, hlog, hnone, hdisk⟩
    · exact .inr
        (.inl ⟨after, d, rfl, hdir, htakes, commit_of_unlogged hvalid hlog⟩)
    · have hcommit := Chain.commit_of_validate h.records.inStep hvalid
      have hnext : Tracks config { n with
          chain := n.chain.extended b after, dir } (blocks ++ [b]) :=
        ⟨Chain.ofBlocks_snoc.mpr ⟨n.chain, h.history, hcommit⟩,
          h.interval, hdisk⟩
      exact .inr (.inr ⟨after, _, rfl, htakes,
        commit_of_logged h.records.inStep hvalid hlog, checkpointed_chain _ _,
        (checkpointed_dir _ _).trans hnone, hnext.checkpointed b.height⟩)

/-- A valid block is committed when the log takes it. -/
theorem Tracks.exists_commit (h : n.Tracks config blocks) {m : Moment}
    {b : Block} {after : Ledger} (hvalid : n.chain.validate b = .ok after)
    (htakes : n.dir = none ∨ m.diskTakes = true) :
    ∃ next, n.commit m b = (.ok (), next) ∧
      next.chain = n.chain.extended b after ∧ (next.dir = none ↔ n.dir = none) ∧
      next.Tracks config (blocks ++ [b]) := by
  rcases commit_cases h m b with
    ⟨r, hrefused, -⟩ | ⟨-, d, -, hdir, hrefused, -⟩ |
    ⟨after', next, hafter, -, hcommit, hchain, hnone, hnext⟩
  · rw [hvalid] at hrefused
    cases hrefused
  · rw [hdir, hrefused] at htakes
    simp at htakes
  · cases hvalid.symm.trans hafter
    exact ⟨next, hcommit, hchain, hnone, hnext⟩

/-- A block that is committed was valid, and is on top of the chain. -/
theorem Tracks.of_commit_eq_ok (h : n.Tracks config blocks) {m : Moment}
    {b : Block} (hcommit : n.commit m b = (.ok (), next)) :
    ∃ after, n.chain.validate b = .ok after ∧
      next.chain = n.chain.extended b after ∧ (next.dir = none ↔ n.dir = none) ∧
      next.Tracks config (blocks ++ [b]) := by
  rcases commit_cases h m b with ⟨_, -, hother⟩ | ⟨_, _, -, -, -, hother⟩ |
    ⟨after, node, hvalid, -, hother, hchain, hnone, hnode⟩
  · rw [hother] at hcommit
    cases hcommit
  · rw [hother] at hcommit
    cases hcommit
  · rw [hother] at hcommit
    cases hcommit
    exact ⟨after, hvalid, hchain, hnone, hnode⟩

/-- A write either stops before any block is made, or is the commit of a
block. -/
theorem submit_cases (n : Node) (m : Moment) (sender : String)
    (action : Action) :
    (∃ r, n.submit m sender action = (.error r, n)) ∨
      ∃ t b, n.chain.blockFor m.clock sender action = .ok (t, b) ∧
        n.submit m sender action =
          ((n.commit m b).1.map fun _ => Chain.receipt t b,
            (n.commit m b).2) := by
  unfold submit
  split
  · next r hr => exact .inl ⟨r, rfl⟩
  · next t b hb => exact .inr ⟨t, b, hb, rfl⟩

/-- A write that succeeds is the commit of the block that was made for it. -/
theorem of_submit_eq_ok {m : Moment} {sender : String} {action : Action}
    {receipt : Receipt}
    (hsubmit : n.submit m sender action = (.ok receipt, next)) :
    ∃ t b, n.chain.blockFor m.clock sender action = .ok (t, b) ∧
      n.commit m b = (.ok (), next) ∧ receipt = Chain.receipt t b := by
  rcases submit_cases n m sender action with ⟨_, hother⟩ | ⟨t, b, hb, hother⟩
  · rw [hother] at hsubmit
    cases hsubmit
  · rw [hother] at hsubmit
    obtain ⟨hreceipt, rfl⟩ := Prod.mk.inj hsubmit
    obtain ⟨⟨⟩, hok, rfl⟩ := Outcome.map_eq_ok.mp hreceipt
    exact ⟨t, b, hb, Prod.ext hok rfl, rfl⟩

theorem tick_cases (n : Node) (m : Moment) :
    (∃ outcome, n.tick m = (outcome, n)) ∨
      ∃ due b, n.chain.closingBlock m.clock = .ok (some (due, b)) ∧
        n.tick m = ((n.commit m b).1.map fun _ => due, (n.commit m b).2) := by
  unfold tick
  split
  · next r hr => exact .inl ⟨_, rfl⟩
  · exact .inl ⟨_, rfl⟩
  · next due b hb => exact .inr ⟨due, b, hb, rfl⟩

/-! ## Runs -/

/-- A node that was just made, in memory or on a fresh directory. -/
inductive Begins (config : Config) : Node → Prop where
  | inMemory {m : Moment} {n : Node} (ok : Node.inMemory config m = .ok n) :
      Begins config n
  | onDisk {d : DataDir} {m : Moment} {n : Node} (fresh : d.IsFresh)
      (ok : (start config d m).1 = .ok n) : Begins config n

/-- An operation on a node at some moment, whatever its outcome. A node may also
be closed and started again on its directory. -/
inductive Step (config : Config) (n : Node) : Node → Prop where
  | commit (m : Moment) (b : Block) : Step config n (n.commit m b).2
  | submit (m : Moment) (sender : String) (action : Action) :
      Step config n (n.submit m sender action).2
  | tick (m : Moment) : Step config n (n.tick m).2
  | saveCheckpoint : Step config n n.saveCheckpoint.2
  | restart {d : DataDir} {m : Moment} {next : Node} (dir : n.dir = some d)
      (ok : (start config d m).1 = .ok next) : Step config n next

/-- Any number of operations one after the other. -/
abbrev Run (config : Config) : Node → Node → Prop :=
  Relation.ReflTransGen (Step config)

/-- The nodes that operations lead to. -/
def Reachable (config : Config) (n : Node) : Prop :=
  ∃ first, Begins config first ∧ Run config first n

/-! ### What one step keeps -/

theorem Tracks.commit (h : n.Tracks config blocks) (m : Moment) (b : Block) :
    ∃ more, (n.commit m b).2.Tracks config (blocks ++ more) := by
  rcases commit_cases h m b with
    ⟨r, -, hcommit⟩ | ⟨after, d, -, hdir, -, hcommit⟩ |
    ⟨after, next, -, -, hcommit, -, -, hnext⟩
  · exact ⟨[], by simpa [hcommit] using h⟩
  · -- the log was written anew without the line
    refine ⟨[], ?_⟩
    rw [hcommit]
    refine ⟨by simpa using h.history, h.interval, ?_⟩
    intro d' hd'
    cases hd'
    simpa using (h.disk d hdir).put_log []
  · exact ⟨[b], by rw [hcommit]; exact hnext⟩

/-- A node that is started again is the same. -/
theorem Tracks.restart (h : n.Tracks config blocks) (hne : blocks ≠ [])
    {d : DataDir} (hdir : n.dir = some d) (m : Moment) :
    start config d m = (.ok n, d) := by
  have hkeeps := h.disk d hdir
  rw [start_of_log (hkeeps.file?_log hne) hne h.history
    hkeeps.load?, ← h.interval, ← hdir]

theorem Tracks.step (h : n.Tracks config blocks) (hne : blocks ≠ [])
    (hstep : Step config n next) :
    ∃ more, next.Tracks config (blocks ++ more) := by
  cases hstep with
  | commit m b => exact h.commit m b
  | submit m sender action =>
    rcases submit_cases n m sender action with ⟨r, hsubmit⟩ | ⟨t, b, -, hsubmit⟩
    · exact ⟨[], by simpa [hsubmit] using h⟩
    · rw [hsubmit]
      exact h.commit m b
  | tick m =>
    rcases tick_cases n m with ⟨outcome, htick⟩ | ⟨due, b, -, htick⟩
    · exact ⟨[], by simpa [htick] using h⟩
    · rw [htick]
      exact h.commit m b
  | saveCheckpoint => exact ⟨[], by simpa using h.saveCheckpoint⟩
  | restart dir ok =>
    rw [h.restart hne dir] at ok
    cases ok
    exact ⟨[], by simpa using h⟩

/-! ### What a run keeps -/

/-- **A run only adds blocks.** -/
theorem Tracks.run (h : n.Tracks config blocks) (hne : blocks ≠ [])
    (hrun : Run config n next) :
    ∃ more, next.Tracks config (blocks ++ more) := by
  induction hrun with
  | refl => exact ⟨[], by simpa using h⟩
  | tail _ hstep ih =>
    obtain ⟨more, hmore⟩ := ih
    obtain ⟨last, hlast⟩ := hmore.step (by simp [hne]) hstep
    exact ⟨more ++ last, by simpa using hlast⟩

theorem tracks_empty {dir : Option DataDir}
    (h : ∀ d ∈ dir, d.Keeps config.rules []) :
    (empty config dir).Tracks config [] :=
  ⟨rfl, rfl, h⟩

/-- The first commit of a new node, of the first block. -/
theorem tracks_of_first {dir : Option DataDir} {m : Moment}
    (h : ∀ d ∈ dir, d.Keeps config.rules [])
    (hok : (empty config dir).commit m config.genesisBlock = (.ok (), n)) :
    n.Tracks config [config.genesisBlock] ∧ (n.dir = none ↔ dir = none) := by
  obtain ⟨-, -, -, hdir, hnext⟩ := (tracks_empty h).of_commit_eq_ok hok
  exact ⟨hnext, hdir⟩

theorem afterSuccess_eq_ok {outcome : Outcome Unit} :
    afterSuccess outcome = .ok n ↔ outcome = (.ok (), n) := by
  obtain ⟨reason | ⟨⟩, node⟩ := outcome <;> simp [afterSuccess]

theorem founded_ok {d : DataDir} {first : Outcome Unit}
    (hok : (founded d first).1 = .ok n) : first = (.ok (), n) := by
  obtain ⟨reason | ⟨⟩, node⟩ := first <;>
    simp_all [founded, afterSuccess, Except.mapError]

theorem Begins.tracks (h : Begins config n) :
    n.Tracks config [config.genesisBlock] := by
  cases h with
  | @inMemory m _ ok =>
    exact (tracks_of_first (by simp) (afterSuccess_eq_ok.mp ok)).1
  | @onDisk d m _ fresh ok =>
    rcases fresh.read config.rules with ⟨fault, hread⟩ | ⟨hread, hkeeps⟩
    · simp [start, hread] at ok
    · simp only [start, hread] at ok
      have hdisk : ∀ d' ∈ some d, d'.Keeps config.rules [] := by
        rintro _ ⟨⟩
        exact hkeeps
      exact (tracks_of_first hdisk (founded_ok ok)).1

theorem Reachable.tracks (h : Reachable config n) :
    ∃ rest, n.Tracks config (config.genesisBlock :: rest) := by
  obtain ⟨first, hfirst, hrun⟩ := h
  exact hfirst.tracks.run (by simp) hrun

end Node

/-! ## Runs of blocks that are made -/

open Outcome (exists_of_any_toOption)

theorem DataDir.isFresh_empty (path : String) :
    (DataDir.empty path).IsFresh := ⟨rfl, rfl⟩

namespace Node

variable {config : Config} {n : Node} {c : Chain}

/-- A node commits a block that its chain can grow by. -/
theorem Tracks.exists_commit_of_grow {blocks : List Block}
    (h : n.Tracks config blocks) {b : Block} (hb : b.IsMade)
    (hgrow : n.chain.grow b = .ok c) :
    ∃ after next, n.chain.validate b = .ok after ∧
      n.commit ⟨0, true⟩ b = (.ok (), next) ∧
      next.chain = n.chain.extended b after ∧ next.chain = c ∧
      (next.dir = none ↔ n.dir = none) ∧
      next.Tracks config (blocks ++ [b]) := by
  obtain ⟨after, hvalid, hchain⟩ := (Chain.grow_eq_ok hb).mp hgrow
  obtain ⟨next, hcommit, hextended, hnone, hnext⟩ :=
    h.exists_commit (m := ⟨0, true⟩) hvalid (.inr rfl)
  exact ⟨after, next, hvalid, hcommit, hextended,
    hextended.trans hchain.symm, hnone, hnext⟩

theorem step_of_commit {m : Moment} {b : Block}
    {outcome : Except Rejection Unit} {next : Node}
    (h : n.commit m b = (outcome, next)) : Step config n next := by
  have hstep : Step config n (n.commit m b).2 := .commit m b
  rwa [h] at hstep

/-- A node begins in memory with a chain that can grow from nothing by the first
block. -/
theorem exists_inMemory
    (h : (Chain.empty config.rules).grow config.genesisBlock = .ok c) :
    ∃ n, Begins config n ∧ n.chain = c ∧ n.dir = none := by
  have hempty : (empty config none).Tracks config [] := tracks_empty nofun
  obtain ⟨-, n, -, hcommit, -, hchain, hnone, -⟩ :=
    hempty.exists_commit_of_grow config.isMade_genesisBlock h
  exact ⟨n, .inMemory (afterSuccess_eq_ok.mpr hcommit), hchain, hnone.mpr rfl⟩

/-- No directory is made when a block is committed. -/
theorem isDirectory_commit {name : String}
    (h : ∀ d ∈ n.dir, d.isDirectory name = false) (m : Moment) (b : Block) :
    ∀ d ∈ (n.commit m b).2.dir, d.isDirectory name = false := by
  have hlog : ∀ d ∈ (n.log m b).2.dir, d.isDirectory name = false := by
    unfold log
    split
    · exact h
    · next own hdir =>
      rintro _ ⟨⟩
      exact BlockLog.isDirectory_append (h own hdir) _ _
  have hsave : ∀ k : Node, (∀ d ∈ k.dir, d.isDirectory name = false) →
      ∀ d ∈ k.saveCheckpoint.2.dir, d.isDirectory name = false := by
    intro k hk
    unfold Node.saveCheckpoint
    split
    · next own _ hdir _ =>
      rintro _ ⟨⟩
      exact DataDir.isDirectory_replace (hk own hdir) _ _ _
    · exact hk
  unfold commit
  split
  · exact h
  · split
    · next logged heq =>
      rw [heq] at hlog
      exact hlog
    · next logged heq =>
      rw [heq] at hlog
      split
      · exact hlog
      · dsimp only
        split
        · exact hsave _ hlog
        · exact hlog

/-- And so it does on an empty directory. -/
theorem exists_onDisk
    (h : (Chain.empty config.rules).grow config.genesisBlock = .ok c)
    (path : String) :
    ∃ n d, Begins config n ∧ n.chain = c ∧ n.dir = some d ∧
      ∀ name, d.isDirectory name = false := by
  have hempty : (empty config (some (.empty path))).Tracks config [] :=
    tracks_empty (by
    rintro _ ⟨⟩
    exact ⟨rfl, rfl, .inl rfl⟩)
  obtain ⟨-, n, -, hcommit, -, hchain, hnone, -⟩ :=
    hempty.exists_commit_of_grow config.isMade_genesisBlock h
  have hstart : (start config (.empty path) ⟨0, true⟩).1 = .ok n := by
    show (founded _ ((empty config (some (.empty path))).commit _ _)).1 = _
    rw [hcommit]
    rfl
  obtain ⟨d, hdir⟩ := Option.ne_none_iff_exists'.mp fun hdir =>
    nomatch hnone.mp hdir
  refine ⟨n, d, .onDisk (DataDir.isFresh_empty path) hstart, hchain, hdir,
    fun name => ?_⟩
  have hplain :
      ∀ own ∈ (empty config (some (.empty path))).dir,
        own.isDirectory name = false := by
    rintro _ ⟨⟩
    rfl
  have hfree := isDirectory_commit hplain ⟨0, true⟩ config.genesisBlock
  rw [hcommit] at hfree
  exact hfree d hdir

/-- What is found of a node in memory before and after a block that is made, a
run reaches. -/
theorem exists_of_commit (config : Config) (block : Chain → Block)
    (hmade : ∀ c, (block c).IsMade) (P : Node → Node → Prop) [DecidableRel P]
    (h : ((Chain.empty config.rules).grow config.genesisBlock).toOption.any
      (fun c => (c.grow (block c)).toOption.any fun d =>
        P ⟨c, none, config.chain.checkpointInterval⟩
          ⟨d, none, config.chain.checkpointInterval⟩) = true) :
    ∃ first after n, Reachable config first ∧
      first.chain.validate (block first.chain) = .ok after ∧
      Reachable config n ∧
      n.chain = first.chain.extended (block first.chain) after ∧ P first n := by
  obtain ⟨c, hc, h⟩ := exists_of_any_toOption h
  obtain ⟨d, hd, hfound⟩ := exists_of_any_toOption h
  obtain ⟨first, hbegins, rfl, hnone⟩ := exists_inMemory hc
  obtain ⟨after, n, hvalid, hcommit, hextended, rfl, hdir, htracks⟩ :=
    hbegins.tracks.exists_commit_of_grow (hmade _) hd
  have hreached : Reachable config n :=
    ⟨first, hbegins, .single (step_of_commit hcommit)⟩
  -- a node in memory is its chain
  have hinMemory : ∀ k : Node, k.dir = none →
      k.checkpointInterval = config.chain.checkpointInterval →
      ⟨k.chain, none, config.chain.checkpointInterval⟩ = k := by
    rintro ⟨chain, dir, interval⟩ rfl rfl
    rfl
  have hfound := of_decide_eq_true hfound
  rw [hinMemory first hnone hbegins.tracks.interval,
    hinMemory n (hdir.mpr hnone) htracks.interval] at hfound
  exact ⟨first, after, n, ⟨first, hbegins, .refl⟩, hvalid, hreached,
    hextended, hfound⟩

end Node

/-! ## A run with a vote -/

/-- Two accounts that hold tokens. -/
def Config.twoHolders : Config :=
  { treasury := 0, allocations := [⟨"ada", 5⟩, ⟨"ben", 3⟩] }

/-- A block in which one of the two lends its power to the other, who makes a
proposal and votes on it. -/
def Block.firstVote (parent : Option Digest) : Block :=
  let proposal := Transaction.ofAction "ada" 0 0 (.propose
    { title := "Trees", description := "More", kind := .general
      mode := .simple, duration := 60, threshold := 50, funding := none })
  .build 1 parent 0
    [.ofAction "ben" 0 0 (.delegate "ada" 60), proposal,
      .ofAction "ada" 1 0 (.vote proposal.hash.hex .yes)]

theorem Block.isMade_firstVote (parent : Option Digest) :
    (firstVote parent).IsMade :=
  isMade_build (by simp)

/-- A run reaches a node on disk with the block on top of the first, and with a
vote that carries a delegator. -/
theorem Node.exists_firstVote :
    ∃ n d, Reachable .twoHolders n ∧ n.dir = some d ∧
      d.isDirectory BlockLog.temporary = false ∧
      n.Tracks .twoHolders [Config.twoHolders.genesisBlock,
                            .firstVote
                              (some Config.twoHolders.genesisBlock.hash)] ∧
      ∃ p ∈ n.chain.council.proposals, ∃ v ∈ p.votes.values,
        v.delegators = ["ben"] := by
  -- the kernel evaluates the run, and the rest reads the answer
  have hrun : ((Chain.empty Config.twoHolders.rules).grow
      Config.twoHolders.genesisBlock).toOption.any (fun c =>
        (c.grow (.firstVote
          (some Config.twoHolders.genesisBlock.hash))).toOption.any fun d =>
            ∃ p ∈ d.council.proposals, ∃ v ∈ p.votes.values,
              v.delegators = ["ben"]) = true := by
    decide +kernel
  obtain ⟨c, hc, hrun⟩ := exists_of_any_toOption hrun
  obtain ⟨d, hd, hvoted⟩ := exists_of_any_toOption hrun
  obtain ⟨first, own, hbegins, rfl, hown, hplain⟩ := exists_onDisk hc "data"
  obtain ⟨after, n, -, hcommit, -, rfl, hdir, htracks⟩ :=
    hbegins.tracks.exists_commit_of_grow (Block.isMade_firstVote _) hd
  obtain ⟨dir, hsome⟩ :=
    Option.ne_none_iff_exists'.mp (mt hdir.mp (by rw [hown]; nofun))
  have hfree : ∀ d ∈ first.dir, d.isDirectory BlockLog.temporary = false := by
    rw [hown]
    rintro _ ⟨⟩
    exact hplain _
  have hfree' := isDirectory_commit hfree ⟨0, true⟩
    (.firstVote (some Config.twoHolders.genesisBlock.hash))
  rw [hcommit] at hfree'
  exact ⟨n, dir, ⟨first, hbegins, .single (step_of_commit hcommit)⟩, hsome,
    hfree' dir hsome, htracks, of_decide_eq_true hvoted⟩

theorem Node.exists_voted :
    ∃ n d, Reachable .twoHolders n ∧ n.dir = some d ∧
      ∃ p ∈ n.chain.council.proposals, ∃ v ∈ p.votes.values,
        v.delegators = ["ben"] := by
  obtain ⟨n, d, hn, hdir, -, -, hvoted⟩ := exists_firstVote
  exact ⟨n, d, hn, hdir, hvoted⟩

end CouncilLedger
