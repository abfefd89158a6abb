import CouncilLedger.Proofs.Durability
import CouncilLedger.Proofs.LongestPrefix
import CouncilLedger.Proofs.OtherRules

/-!
# Starting under changed rules

A start applies the blocks behind the checkpoint again, under the rules that the
configuration has by then. Where these let pass all that the rules before did,
the chain is the same. Otherwise it ends at the first block with a transaction
that the new rules exclude, and that block and all that follow are cut off the
log. The main statement is `Node.changed_rules_keep_admitted`.
-/

namespace CouncilLedger

open Outcome

/-! ## The blocks that changed rules keep -/

namespace Chain

variable {rules others : Rules} {blocks kept : List Block} {c : Chain}

/-- The first of some blocks, up to one that offends other rules. -/
structure KeptUnder (others rules : Rules) (blocks kept : List Block)
    (c : Chain) : Prop where
  first : kept <+: blocks
  history : ofBlocks rules kept = .ok c
  offends : ∀ b, blocks[kept.length]? = some b → c.ledger.Offends others b

/-- Rules that let pass all that the others did keep all blocks. -/
theorem KeptUnder.eq_of_admits (h : KeptUnder others rules blocks kept c)
    (hblocks : ∃ last, ofBlocks rules blocks = .ok last)
    (hadmits : others.Admits rules) : kept = blocks := by
  obtain ⟨dropped, rfl⟩ := h.first
  cases dropped with
  | nil => rw [List.append_nil]
  | cons b more =>
    obtain ⟨last, hlast⟩ := hblocks
    obtain ⟨next, hnext⟩ := exists_commit_of_ofBlocks h.history hlast
    obtain ⟨after, hvalid, -⟩ :=
      commit_ok (records_of_ofBlocks h.history).inStep hnext
    have hrules : c.ledger.council.rules = rules := rules_of_ofBlocks h.history
    exact absurd (h.offends b (by simp)) (Ledger.not_offends_of_admits
      (hrules ▸ hadmits) (validate_ok hvalid).2.2.2)

/-- **A log under other rules**: the blocks up to the checkpoint, and then those
up to the first that offends the rules. -/
theorem ofLog_of_others (h : ofBlocks rules blocks = .ok c)
    {checkpoint : Option Checkpoint}
    (hcheckpoint : ∀ s ∈ checkpoint, s.IsOf rules blocks) (others : Rules) :
    ∃ kept m k, KeptUnder others rules blocks kept m ∧
      ofLog others checkpoint blocks = (k, kept.length) ∧ m.Parallels k ∧
      ∀ s ∈ checkpoint, s.height.toNat < kept.length := by
  have hnext :
      ∀ {kept dropped : List Block} {m : Chain},
        (∀ b ∈ dropped.head?, m.ledger.Offends others b) →
        ∀ b, (kept ++ dropped)[kept.length]? = some b →
          m.ledger.Offends others b := by
    intro kept dropped m hdropped b hb
    rw [List.getElem?_append_right (Nat.le_refl _),
      Nat.sub_self, ← List.head?_eq_getElem?] at hb
    exact hdropped b hb
  cases checkpoint with
  | none =>
    obtain ⟨kept, dropped, m, k, rfl, hkept, hreplay, hmk, hdropped⟩ :=
      (Parallels.withRules (empty rules) others).replay Archive.inStep_empty h
    exact ⟨kept, m, k, ⟨List.prefix_append _ _, hkept, hnext hdropped⟩,
      hreplay, hmk, nofun⟩
  | some s =>
    obtain ⟨before, last, after, m₀, rfl, hm₀, rfl⟩ := hcheckpoint s rfl
    have hposition : last.height.toNat = before.length :=
      (records_of_ofBlocks hm₀).height _ _ (by simp)
    have hdrop :
        (before ++ [last] ++ after).drop (before.length + 1) = after := by
      rw [List.drop_append_of_le_length (by simp),
        List.drop_of_length_le (by simp)]
      rfl
    obtain ⟨m', hm', hafter⟩ := foldlM_append_eq_ok.mp h
    cases hm₀.symm.trans hm'
    -- from the checkpoint on the rules are the other ones
    obtain ⟨kept, dropped, m, k, rfl, hkept, hreplay, hmk, hdropped⟩ :=
      (Parallels.withRules m₀ others).replay
        (records_of_ofBlocks hm₀).inStep hafter
    have hrestore := Checkpoint.restore?_of_isOf hm₀ (kept ++ dropped) others
    have hlength :
        (before ++ [last] ++ kept).length =
          before.length + 1 + kept.length := by
      simp
      omega
    refine ⟨before ++ [last] ++ kept, m, k,
      ⟨?_, foldlM_append_eq_ok.mpr ⟨m₀, hm₀, hkept⟩, ?_⟩, ?_, hmk, ?_⟩
    · rw [← List.append_assoc]
      exact List.prefix_append _ _
    · rw [← List.append_assoc]
      exact hnext hdropped
    · simp only [ofLog, Option.bind_some, hrestore, Option.map_some, hposition,
        hdrop, hreplay, hlength]
    · rintro _ ⟨⟩
      rw [hposition, hlength]
      omega

end Chain

/-- A first block only creates tokens, which no rules exclude. -/
theorem Config.not_offends_genesisBlock (config : Config) (rules : Rules)
    (l : Ledger) : ¬ l.Offends rules config.genesisBlock := by
  rintro ⟨before, t, rest, m, hsplit, -, hexcluded⟩
  have ht : t ∈ config.genesisBlock.transactions := by
    rw [hsplit]
    simp
  obtain ⟨u, hu, rfl⟩ := List.mem_map.mp ht
  obtain ⟨entry, -, rfl⟩ := List.mem_map.mp hu
  exact hexcluded

/-! ## Starting -/

namespace Node

variable {config : Config} {earlier n : Node} {blocks : List Block} {d : DataDir}

/-- A start under other rules on the log of a chain. -/
theorem start_of_others {c : Chain}
    (h : Chain.ofBlocks config.rules blocks = .ok c)
    (hlog : BlockLog.IsWhole d blocks)
    (hfirst : blocks.head? = some config.genesisBlock)
    (hcheckpoint : ∀ s ∈ Checkpoint.load? d, s.IsOf config.rules blocks)
    (htemporary : d.isDirectory BlockLog.temporary = false) (rules : Rules)
    (m : Moment) :
    ∃ kept last next d', Chain.KeptUnder rules config.rules blocks kept last ∧
      kept ≠ [] ∧ (∀ s ∈ Checkpoint.load? d, s.height.toNat < kept.length) ∧
      start { config with rules } d m = (.ok next, d') ∧ next.dir = some d' ∧
      last.Parallels next.chain ∧ BlockLog.read d' = (.ok kept, d') := by
  obtain ⟨kept, last, k, hkept, hofLog, hparallel, hheight⟩ :=
    Chain.ofLog_of_others h hcheckpoint rules
  have hne : kept ≠ [] := by
    rintro rfl
    rw [List.head?_eq_getElem?] at hfirst
    exact config.not_offends_genesisBlock _ _ (hkept.offends _ hfirst)
  have hblocks : blocks ≠ [] := by
    rintro rfl
    cases hfirst
  obtain ⟨d', hresume, hlog', -⟩ := resume_ok hlog htemporary hkept.first
    (size_ne_zero_of_ofLog hofLog hne)
  refine ⟨kept, last, ⟨k, some d', config.chain.checkpointInterval⟩, d', hkept,
    hne, hheight, ?_, rfl, hparallel, hlog'.read⟩
  rw [start_of_isWhole hlog hblocks, hofLog, hresume]

/-- **Changed rules keep what they admit.** A chain on disk that is started
again under other rules, with the checkpoint of any earlier moment or without
one, keeps its blocks up to the first that holds a proposal or a payout which
the new rules exclude. That block comes after the checkpoint and is not the
first one. What is kept has the same archive, tip, accounts and delegations as
before and the same proposals, open at the same times, and it is exactly what
the log holds then. In particular all blocks are kept where the new rules let
pass all that the ones before did. -/
theorem changed_rules_keep_admitted (h : earlier.Reachable config)
    (hrun : Run config earlier n) (hleft : n.Leaves earlier d)
    (htemporary : d.isDirectory BlockLog.temporary = false) (rules : Rules)
    (m : Moment) :
    ∃ kept c next d', Chain.KeptUnder rules config.rules n.chain.blocks kept c ∧
      kept ≠ [] ∧ (∀ s ∈ Checkpoint.load? d, s.height.toNat < kept.length) ∧
      start { config with rules } d m = (.ok next, d') ∧ next.dir = some d' ∧
      c.Parallels next.chain ∧ BlockLog.read d' = (.ok kept, d') ∧
      (kept = n.chain.blocks →
        next.chain.tip = n.chain.tip ∧ next.chain.height = n.chain.height) ∧
      (rules.Admits config.rules → kept = n.chain.blocks) := by
  obtain ⟨rest, hearlier⟩ := h.tracks
  obtain ⟨more, hn⟩ := hearlier.run (List.cons_ne_nil _ _) hrun
  have hkeeps := hleft.keeps hearlier hn (List.cons_ne_nil _ _)
  obtain ⟨kept, c, next, d', hkept, hne, hheight, hstart, hdir,
    hparallel, hread⟩ :=
    start_of_others hn.history (.of_file? (hkeeps.file?_log (by simp))) rfl
      hkeeps.load? htemporary
      rules m
  rw [hn.blocks_eq]
  refine ⟨kept, c, next, d', hkept, hne, hheight, hstart, hdir, hparallel,
    hread, ?_, hkept.eq_of_admits ⟨_, hn.history⟩⟩
  rintro rfl
  cases hkept.history.symm.trans hn.history
  exact ⟨hparallel.tip, by rw [Chain.height, hparallel.tip, Chain.height]⟩

end Node

/-! ## A proposal for sixty seconds -/

/-- Two accounts that hold tokens, under rules for proposals of less than a
minute. -/
def Config.brief : Config :=
  { Config.twoHolders with rules := { maxDuration := 59 } }

namespace Node

/-- A run reaches a node on disk whose second block holds a proposal for sixty
seconds. Under rules for shorter proposals the first block commits and the
second does not. -/
theorem exists_sixtySeconds :
    ∃ (n : Node) (d : DataDir) (b : Block), n.Reachable .twoHolders ∧
      n.dir = some d ∧ d.isDirectory BlockLog.temporary = false ∧
      n.Tracks .twoHolders [Config.twoHolders.genesisBlock, b] ∧
      ∃ c,
        (Chain.empty Config.brief.rules).commit Config.twoHolders.genesisBlock =
          .ok c ∧
        ∀ last,
          Chain.ofBlocks Config.brief.rules
              [Config.twoHolders.genesisBlock, b] ≠
            .ok last := by
  obtain ⟨n, d, hn, hdir, hfree, htracks, -⟩ := exists_firstVote
  have hrun : ((Chain.empty Config.brief.rules).grow
      Config.twoHolders.genesisBlock).toOption.any (fun c =>
        !(c.grow (.firstVote
          (some Config.twoHolders.genesisBlock.hash))).isOk) = true := by
    decide +kernel
  obtain ⟨short, hshort, hrefused⟩ := exists_of_any_toOption hrun
  obtain ⟨after, hvalid, rfl⟩ :=
    (Chain.grow_eq_ok Config.twoHolders.isMade_genesisBlock).mp hshort
  have hgenesis := Chain.commit_of_validate Archive.inStep_empty hvalid
  refine ⟨n, d, _, hn, hdir, hfree, htracks, _, hgenesis, ?_⟩
  intro last hlast
  obtain ⟨m, hm, hnext⟩ := foldlM_cons_eq_ok.mp hlast
  cases hgenesis.symm.trans hm
  obtain ⟨next, hnext, -⟩ := foldlM_cons_eq_ok.mp hnext
  have hstep :=
    Archive.inStep_added Archive.inStep_empty (Chain.validate_ok hvalid).2.2.1
  obtain ⟨after', hvalid', -⟩ := Chain.commit_ok hstep hnext
  rw [(Chain.grow_eq_ok (Block.isMade_firstVote _)).mpr
    ⟨after', hvalid', rfl⟩] at hrefused
  cases hrefused

/-- The node is started again under rules for longer proposals. -/
theorem changed_rules_keep_admitted_longer :
    ∃ (n : Node) (d : DataDir) (next : Node) (d' : DataDir),
      n.Reachable .twoHolders ∧ n.dir = some d ∧
      start { Config.twoHolders with rules := { maxDuration := 31536000 } } d
          ⟨0, true⟩ =
        (.ok next, d') ∧
      next.chain.tip = n.chain.tip ∧
      BlockLog.read d' = (.ok n.chain.blocks, d') := by
  obtain ⟨n, d, -, hn, hdir, htemporary, -, -⟩ := exists_sixtySeconds
  have hleft : n.Leaves n d := ⟨⟨d, hdir, rfl⟩, .inr (.inl ⟨d, hdir, rfl⟩)⟩
  have hadmits :
      Rules.Admits { maxDuration := 31536000 } Config.twoHolders.rules :=
    ⟨by decide, by decide, by decide⟩
  obtain ⟨kept, c, next, d', -, -, -, hstart, -, -, hread, hsame, hall⟩ :=
    changed_rules_keep_admitted hn .refl hleft htemporary
      { maxDuration := 31536000 } ⟨0, true⟩
  exact ⟨n, d, next, d', hn, hdir, hstart, (hsame (hall hadmits)).1,
    hall hadmits ▸ hread⟩

/-- Under rules for shorter proposals the second block is cut off the log, and
the tip is another one. -/
theorem changed_rules_lose_block :
    ∃ (n : Node) (own : DataDir) (next : Node) (d' : DataDir),
      Config.twoHolders.check = .ok () ∧ Config.brief.check = .ok () ∧
      n.Reachable .twoHolders ∧ n.dir = some own ∧
      start .brief (own.remove Checkpoint.name) ⟨0, true⟩ = (.ok next, d') ∧
      n.chain.blocks.length = 2 ∧ next.chain.tip ≠ n.chain.tip ∧
      BlockLog.read d' = (.ok [Config.twoHolders.genesisBlock], d') := by
  obtain ⟨n, own, b, hn, hdir, htemporary, htracks, c, hgenesis, hrefused⟩ :=
    exists_sixtySeconds
  have hfile := (htracks.disk own hdir).file?_log (List.cons_ne_nil _ _)
  have hlog : BlockLog.IsWhole (own.remove Checkpoint.name)
      [Config.twoHolders.genesisBlock, b] := by
    refine .of_file? ?_
    rw [DataDir.file?_remove, if_neg (by decide), hfile]
  have hcheckpoint : Checkpoint.load? (own.remove Checkpoint.name) = none :=
    Checkpoint.load?_of_file?_eq_none (by rw [DataDir.file?_remove, if_pos rfl])
  obtain ⟨next, d', kept, hstart, hlongest, hne, hrests⟩ := start_rests hgenesis
    hlog hcheckpoint (DataDir.isDirectory_remove htemporary _) ⟨0, true⟩
  have hkept : kept = [Config.twoHolders.genesisBlock] := by
    rcases List.prefix_concat_iff.mp
      (show kept <+: [Config.twoHolders.genesisBlock] ++
        [b] from hlongest.first) with hall | hfirst
    · exact absurd hlongest.history (hall ▸ hrefused _)
    · exact hfirst.eq_of_length_le (List.length_pos_iff.mpr hne)
  subst hkept
  have hlast : b.height.toNat = 1 := htracks.records.height 1 b rfl
  refine ⟨n, own, next, d', rfl, rfl, hn, hdir, hstart, ?_, ?_, hrests.log.read⟩
  · rw [htracks.blocks_eq]
    rfl
  · rw [(Chain.records_of_ofBlocks hrests.history).tip, htracks.records.tip]
    intro htip
    have hheight : Config.twoHolders.genesisBlock.height = b.height :=
      congrArg Tip.height (Option.some.inj htip)
    rw [← hheight] at hlast
    cases hlast

end Node
end CouncilLedger
