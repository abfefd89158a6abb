import CouncilLedger.Proofs.Archive
import CouncilLedger.Proofs.Ledger

/-!
# Histories

A chain is what its blocks lead to, committed one after the other. A block that
passes every check commits, and the archive then holds all blocks in the order
of their heights, which are their positions. The main statements are
`commit_of_validate` and `records_of_ofBlocks`.
-/

namespace CouncilLedger

open Outcome

/-- A block as a tip. -/
def Block.tip (b : Block) : Tip := ⟨b.height, b.hash, b.timestamp⟩

/-- Only the first block has height 0, and only that has no parent. -/
theorem Block.checkParent_ok {height : UInt64} {parent : Option Digest}
    (h : checkParent height parent = .ok ()) : parent = none ↔ height = 0 := by
  cases parent with
  | none =>
    by_cases hheight : height = 0
    · simp [hheight]
    · simp [checkParent, hheight] at h
  | some d =>
    by_cases hheight : height = 0
    · simp [checkParent, hheight] at h
    · simp [hheight]

theorem Block.check_ok {b : Block} (h : b.check = .ok ()) :
    (b.parent = none ↔ b.height = 0) ∧ b.hash = b.computedHash ∧
      ∀ t ∈ b.transactions, t.hash = t.computedHash ∧ t.blockHash = b.hash := by
  simp only [check, throw_bind, bind_eq_ok, guard_eq_ok, forM_eq_ok] at h
  obtain ⟨⟨⟩, hparent, hhash, hts⟩ := h
  refine ⟨checkParent_ok hparent, by simpa using hhash, ?_⟩
  intro t ht
  have hcheck := hts t ht
  simp only [checkTransaction, guard_eq_ok] at hcheck
  exact ⟨by simpa using hcheck.1, by simpa using hcheck.2.1⟩

namespace Chain

/-! ## Committing -/

/-- The height that the next block has. -/
def nextHeight (c : Chain) : UInt64 := (c.tip.map (·.height + 1)).getD 0

/-- The chain with a block that leads to `after`. -/
def extended (c : Chain) (b : Block) (after : Ledger) : Chain where
  archive := c.archive.added b
  accounts := after.accounts
  council := after.council
  tip := some b.tip

variable {c c' : Chain} {b : Block} {after : Ledger}

theorem checkLink_ok (h : c.checkLink b = .ok ()) :
    b.height = c.nextHeight ∧ b.parent = c.tip.map (·.hash) ∧
      ∀ tip ∈ c.tip, tip.timestamp ≤ b.timestamp := by
  simp only [checkLink, guard_eq_ok, not_or, ne_eq, not_not] at h
  obtain ⟨⟨hheight, hparent⟩, htime⟩ := h
  refine ⟨hheight, hparent, ?_⟩
  intro tip htip
  rw [Option.mem_def.mp htip] at htime
  simpa [guard_eq_ok] using htime

theorem validate_ok (h : c.validate b = .ok after) :
    b.check = .ok () ∧ c.checkLink b = .ok () ∧ c.archive.check b = .ok () ∧
      c.ledger.applyBlock b = .ok after := by
  simp only [validate, bind_eq_ok] at h
  obtain ⟨⟨⟩, hblock, ⟨⟩, hlink, ⟨⟩, harchive, hledger⟩ := h
  exact ⟨hblock, hlink, harchive, hledger⟩

/-- **No refusal after the validation**: the chain takes the block. -/
theorem extend_of_validate (hstep : c.archive.InStep)
    (h : c.validate b = .ok after) :
    c.extend b after = .ok (c.extended b after) := by
  rw [extend, Archive.add_of_check hstep (validate_ok h).2.2.1]
  rfl

/-- A block commits if and only if it is valid. -/
theorem commit_of_validate (hstep : c.archive.InStep)
    (h : c.validate b = .ok after) : c.commit b = .ok (c.extended b after) := by
  rw [commit, h]
  exact extend_of_validate hstep h

theorem commit_ok (hstep : c.archive.InStep) (h : c.commit b = .ok c') :
    ∃ after, c.validate b = .ok after ∧ c' = c.extended b after := by
  obtain ⟨after, hvalid, -⟩ := bind_eq_ok.mp h
  rw [commit_of_validate hstep hvalid] at h
  exact ⟨after, hvalid, (Except.ok.inj h).symm⟩

/-! ## The blocks of a chain -/

/-- The blocks in the order of their heights. -/
def blocks (c : Chain) : List Block := c.archive.inOrder

/-- What a chain keeps of its blocks. -/
structure Records (c : Chain) (blocks : List Block) : Prop where
  inStep : c.archive.InStep
  tip : c.tip = blocks.getLast?.map Block.tip
  heights : c.archive.heights.entries = blocks.map fun b : Block =>
    (b.height, b.hash)
  /-- The height of a block is its position. -/
  height : ∀ (i : Nat) (b : Block), blocks[i]? = some b → b.height.toNat = i
  found : ∀ b ∈ blocks, c.archive.blocks.get? b.hash = some b

namespace Records

variable {blocks : List Block}

theorem empty (rules : Rules) : (Chain.empty rules).Records [] where
  inStep := Archive.inStep_empty
  tip := rfl
  heights := rfl
  height := by simp
  found := by simp

/-- The height of a valid block is the number of blocks before it. It never
wraps around: a block of height 0 has no parent. -/
theorem height_eq_length (h : c.Records blocks)
    (hvalid : c.validate b = .ok after) : b.height.toNat = blocks.length := by
  obtain ⟨hblock, hlink, -, -⟩ := validate_ok hvalid
  obtain ⟨hheight, hparent, -⟩ := checkLink_ok hlink
  rcases List.eq_nil_or_concat blocks with rfl | ⟨before, last, rfl⟩
  · rw [hheight, nextHeight, h.tip]
    rfl
  · have htip : c.tip = some last.tip := by
      rw [h.tip, List.concat_eq_append]
      simp
    have hlast : last.height.toNat = before.length := h.height _ _ (by simp)
    -- a height that wraps around is 0, and then the block has no parent
    have hnonzero : b.height ≠ 0 := by
      intro hzero
      have hnone := (Block.check_ok hblock).1.mpr hzero
      rw [hparent, htip] at hnone
      cases hnone
    have hsucc : b.height = last.height + 1 := by
      rw [hheight, nextHeight, htip]
      rfl
    have htoNat : b.height.toNat ≠ 0 := fun hzero =>
      hnonzero (UInt64.toNat_inj.mp hzero)
    rw [hsucc, UInt64.toNat_add] at htoNat ⊢
    have hbound := last.height.toNat_lt
    simp only [List.length_concat, UInt64.reduceToNat] at htoNat hlast ⊢
    omega

theorem exists_tip (h : c.Records blocks) (hne : blocks ≠ []) :
    ∃ tip, c.tip = some tip :=
  ⟨_, by rw [h.tip, List.getLast?_eq_some_getLast hne]; rfl⟩

/-- The height of a chain is the position of its last block. -/
theorem length_eq (h : c.Records blocks) (hne : blocks ≠ []) :
    blocks.length = c.height.toNat + 1 := by
  obtain ⟨before, last, rfl⟩ := (List.eq_nil_or_concat blocks).resolve_left hne
  have htip : c.tip = some last.tip := by
    rw [h.tip, List.concat_eq_append]
    simp
  have hlast : last.height.toNat = before.length := h.height _ _ (by simp)
  rw [Chain.height, htip, List.length_concat, ← hlast]
  rfl

/-- The next height is the number of blocks, while that fits into 64 bits. -/
theorem toNat_nextHeight (h : c.Records blocks)
    (hfits : blocks.length < UInt64.size) :
    c.nextHeight.toNat = blocks.length := by
  rcases List.eq_nil_or_concat blocks with rfl | ⟨before, last, rfl⟩
  · rw [nextHeight, h.tip]
    rfl
  · have htip : c.tip = some last.tip := by
      rw [h.tip, List.concat_eq_append]
      simp
    have hlast : last.height.toNat = before.length := h.height _ _ (by simp)
    have hnext : c.nextHeight = last.height + 1 := by
      rw [nextHeight, htip]
      rfl
    rw [List.length_concat] at hfits ⊢
    rw [hnext, UInt64.toNat_add, hlast]
    exact Nat.mod_eq_of_lt hfits

/-- The heights so far are positions. -/
theorem height_lt (h : c.Records blocks) :
    ∀ q ∈ blocks, q.height.toNat < blocks.length := by
  intro q hq
  obtain ⟨i, hi, hget⟩ := List.getElem_of_mem hq
  rw [h.height i q (by rw [List.getElem?_eq_getElem hi, hget])]
  exact hi

/-- The height of a valid block is above all of them. -/
theorem lt_height (h : c.Records blocks) (hvalid : c.validate b = .ok after) :
    ∀ e ∈ c.archive.heights.entries, e.1 < b.height := by
  rw [h.heights]
  intro e he
  obtain ⟨q, hq, rfl⟩ := List.mem_map.mp he
  rw [UInt64.lt_iff_toNat_lt, h.height_eq_length hvalid]
  exact h.height_lt q hq

/-- A block that commits is recorded behind the others. -/
theorem commit (h : c.Records blocks) (hcommit : c.commit b = .ok c') :
    c'.Records (blocks ++ [b]) := by
  obtain ⟨after, hvalid, rfl⟩ := commit_ok h.inStep hcommit
  have hposition := h.height_eq_length hvalid
  have hcheck := (validate_ok hvalid).2.2.1
  have hnew :=
    (Archive.contains_eq_false_iff.mp (Archive.check_eq_ok.mp hcheck).1).1
  refine ⟨Archive.inStep_added h.inStep hcheck, by simp [extended], ?_, ?_, ?_⟩
  · show (c.archive.added b).heights.entries = _
    rw [Archive.entries_heights_added (h.lt_height hvalid), h.heights]
    simp
  · intro i q hq
    by_cases hi : i < blocks.length
    · rw [List.getElem?_append_left hi] at hq
      exact h.height i q hq
    · rw [List.getElem?_append_right (by omega)] at hq
      obtain ⟨hlt, hq⟩ := List.getElem?_eq_some_iff.mp hq
      rw [List.length_singleton] at hlt
      simp only [show i - blocks.length = 0 by omega,
        List.getElem_cons_zero] at hq
      rw [← hq, hposition]
      omega
  · intro q hq
    show (c.archive.blocks.insert b.hash b).get? q.hash = some q
    rcases List.mem_append.mp hq with hq | hq
    · -- the check has refused every hash that is in the archive
      have hne : q.hash ≠ b.hash := by
        intro heq
        rw [← heq, h.found q hq] at hnew
        cases hnew
      rw [SortedMap.get?_insert_of_ne _ hne, h.found q hq]
    · rw [List.mem_singleton.mp hq, SortedMap.get?_insert_self]

/-- The archive gives the blocks back in their order. -/
theorem blocks_eq (h : c.Records blocks) : c.blocks = blocks := by
  show (c.archive.heights.entries.map (·.2)).filterMap
    c.archive.blocks.get? = blocks
  rw [h.heights, List.map_map, List.filterMap_map]
  have hsome : ∀ b ∈ blocks, (c.archive.blocks.get? ∘ (·.2) ∘ fun b : Block =>
        (b.height, b.hash)) b = some b := h.found
  rw [List.filterMap_congr hsome, List.filterMap_some]

end Records

/-! ## Blocks one after the other -/

/-- The chain after some blocks, if all of them commit. -/
def ofBlocks (rules : Rules) (blocks : List Block) : Except Rejection Chain :=
  blocks.foldlM commit (empty rules)

variable {rules : Rules} {blocks : List Block}

theorem ofBlocks_snoc : ofBlocks rules (blocks ++ [b]) = .ok c' ↔
    ∃ c, ofBlocks rules blocks = .ok c ∧ c.commit b = .ok c' :=
  foldlM_snoc_eq_ok

/-- **A chain records its history.** -/
theorem records_of_ofBlocks (h : ofBlocks rules blocks = .ok c) :
    c.Records blocks := by
  induction blocks using List.reverseRecOn generalizing c with
  | nil =>
    cases h
    exact .empty rules
  | append_singleton before b ih =>
    obtain ⟨m, hm, hcommit⟩ := ofBlocks_snoc.mp h
    exact (ih hm).commit hcommit

/-- What every valid block keeps holds of the chain. -/
theorem ofBlocks_validate_induction {P : List Block → Chain → Prop}
    (h : ofBlocks rules blocks = .ok c) (start : P [] (empty rules))
    (step : ∀ before m b after, ofBlocks rules before = .ok m → P before m →
      m.validate b = .ok after → P (before ++ [b]) (m.extended b after)) :
    P blocks c := by
  induction blocks using List.reverseRecOn generalizing c with
  | nil =>
    cases h
    exact start
  | append_singleton before b ih =>
    obtain ⟨m, hm, hcommit⟩ := ofBlocks_snoc.mp h
    obtain ⟨after, hvalid, rfl⟩ :=
      commit_ok (records_of_ofBlocks hm).inStep hcommit
    exact step before m b after hm (ih hm) hvalid

/-! ### The transactions of a chain -/

/-- The archive finds some transactions, whose hashes are distinct. -/
structure Indexes (c : Chain) (ts : List Transaction) : Prop where
  distinct : (ts.map (·.hash)).Nodup
  found : ∀ t ∈ ts, c.archive.transactions.get? t.hash = some t

theorem Indexes.extended {ts : List Transaction} (h : c.Indexes ts)
    (hcheck : c.archive.check b = .ok ()) :
    (c.extended b after).Indexes (ts ++ b.transactions) := by
  obtain ⟨hdistinct, hnew⟩ :=
    Archive.nodup_of_checkTransactions (Archive.check_eq_ok.mp hcheck).2.2
  have hothers : ∀ t ∈ ts, ∀ u ∈ b.transactions, u.hash ≠ t.hash := by
    intro t ht u hu heq
    have hnone := (hnew u hu).2
    rw [heq, h.found t ht] at hnone
    cases hnone
  refine ⟨?_, ?_⟩
  · rw [List.map_append, List.nodup_append]
    refine ⟨h.distinct, hdistinct, ?_⟩
    intro d hd e he heq
    obtain ⟨t, ht, rfl⟩ := List.mem_map.mp hd
    obtain ⟨u, hu, rfl⟩ := List.mem_map.mp he
    exact hothers t ht u hu heq.symm
  · intro t ht
    rcases List.mem_append.mp ht with ht | ht
    · exact (Archive.get?_withTransactions_of_ne
        (hothers t ht)).trans (h.found t ht)
    · exact Archive.get?_withTransactions hdistinct ht

/-- **Every transaction is found by its hash**, and no two share one. -/
theorem indexes_of_ofBlocks (h : ofBlocks rules blocks = .ok c) :
    c.Indexes (blocks.flatMap (·.transactions)) := by
  refine ofBlocks_validate_induction (P := fun bs c =>
      c.Indexes (bs.flatMap (·.transactions))) h ⟨.nil, by simp⟩ ?_
  intro before m b after _ hm hvalid
  rw [List.flatMap_append, List.flatMap_singleton]
  exact hm.extended (validate_ok hvalid).2.2.1

/-! ### What every block keeps -/

/-- Each block of a history passed its own check. -/
theorem check_of_mem (h : ofBlocks rules blocks = .ok c) (hb : b ∈ blocks) :
    b.check = .ok () := by
  obtain ⟨m, m', hcommit⟩ := step_of_foldlM h hb
  obtain ⟨after, hvalid, -⟩ := bind_eq_ok.mp hcommit
  exact (validate_ok hvalid).1

/-- Each block of a history was applied to a ledger. -/
theorem applyBlock_of_mem (h : ofBlocks rules blocks = .ok c)
    (hb : b ∈ blocks) : ∃ l after : Ledger, l.applyBlock b = .ok after := by
  obtain ⟨m, m', hcommit⟩ := step_of_foldlM h hb
  obtain ⟨after, hvalid, -⟩ := bind_eq_ok.mp hcommit
  exact ⟨m.ledger, after, (validate_ok hvalid).2.2.2⟩

/-- What every block keeps holds of the ledger of the chain. -/
theorem ofBlocks_induction {P : List Block → Ledger → Prop}
    (h : ofBlocks rules blocks = .ok c) (start : P [] (empty rules).ledger)
    (step : ∀ before b l l', P before l → l.applyBlock b = .ok l' →
      P (before ++ [b]) l') : P blocks c.ledger :=
  ofBlocks_validate_induction (P := fun bs c => P bs c.ledger) h start
    fun before m b after _ hm hvalid =>
      step before b m.ledger after hm (validate_ok hvalid).2.2.2

/-- The same for a property of the ledger and of all transactions so far. -/
theorem ofBlocks_transactions_induction {P : List Transaction → Ledger → Prop}
    (h : ofBlocks rules blocks = .ok c) (start : P [] (empty rules).ledger)
    (step : ∀ ts b l l', P ts l → l.applyBlock b = .ok l' →
      P (ts ++ b.transactions) l') :
    P (blocks.flatMap (·.transactions)) c.ledger := by
  refine ofBlocks_induction
    (P := fun bs l => P (bs.flatMap (·.transactions)) l) h start ?_
  intro before b l l' hl hblock
  rw [List.flatMap_append, List.flatMap_singleton]
  exact step _ b l l' hl hblock

/-- What every valid block keeps from some chain on holds after further
blocks. -/
theorem ofBlocks_append_validate_induction {P : List Block → Chain → Prop}
    {more : List Block} (h : ofBlocks rules blocks = .ok c)
    (hmore : ofBlocks rules (blocks ++ more) = .ok c') (start : P blocks c)
    (step : ∀ before m b after, ofBlocks rules before = .ok m → P before m →
      m.validate b = .ok after → P (before ++ [b]) (m.extended b after)) :
    P (blocks ++ more) c' := by
  induction more using List.reverseRecOn generalizing c' with
  | nil =>
    rw [List.append_nil] at hmore ⊢
    cases h.symm.trans hmore
    exact start
  | append_singleton before b ih =>
    rw [← List.append_assoc] at hmore ⊢
    obtain ⟨m, hm, hcommit⟩ := ofBlocks_snoc.mp hmore
    obtain ⟨after, hvalid, rfl⟩ :=
      commit_ok (records_of_ofBlocks hm).inStep hcommit
    exact step _ m b after hm (ih hm) hvalid

/-- What every block keeps, further blocks keep. -/
theorem ofBlocks_append_induction {P : Ledger → Prop} {more : List Block}
    (h : ofBlocks rules blocks = .ok c)
    (hmore : ofBlocks rules (blocks ++ more) = .ok c') (start : P c.ledger)
    (step : ∀ b l l', P l → l.applyBlock b = .ok l' → P l') : P c'.ledger :=
  ofBlocks_append_validate_induction (P := fun _ c => P c.ledger) h hmore start
    fun _ m b after _ hm hvalid => step b m.ledger after hm
    (validate_ok hvalid).2.2.2

theorem rules_of_ofBlocks (h : ofBlocks rules blocks = .ok c) :
    c.council.rules = rules :=
  ofBlocks_induction (P := fun _ l => l.council.rules = rules) h rfl
    fun _ _ _ _ hl hblock => (Ledger.applyBlock_rules hblock).trans hl

end Chain
end CouncilLedger
