import CouncilLedger.Proofs.Run
import CouncilLedger.Query

/-!
# The catalogue of a chain

The blocks of a chain are linked without a gap, and the archive lists them and
their transactions under names that are all distinct, and nothing else. What one
block adds to the archive is stated once, for the archive alone; the links
follow from the checks that every block has passed. The main statement is
`Node.Reachable.linked_and_listed`.
-/

namespace CouncilLedger

open Outcome

/-- All names in a block. -/
def Block.names (b : Block) : List Digest :=
  b.hash :: b.transactions.map (·.hash)

/-! ## What the archive holds -/

namespace Archive

variable {a : Archive} {b : Block} {blocks : List Block} {d : Digest}

theorem block_byHash_eq_ok :
    a.block (.byHash d) = .ok b ↔ a.blocks.get? d = some b := by
  rw [block, block?]
  cases a.blocks.get? d <;> simp

theorem block_byHeight_eq_ok {h : UInt64} :
    a.block (.byHeight h) = .ok b ↔
      ∃ d, a.heights.get? h = some d ∧ a.blocks.get? d = some b := by
  rw [block, block?, ← Option.bind_eq_some_iff]
  cases (a.heights.get? h).bind a.blocks.get? <;> simp

theorem transaction_eq_ok {t : Transaction} :
    a.transaction d = .ok t ↔ a.transactions.get? d = some t := by
  rw [transaction]
  cases a.transactions.get? d <;> simp

/-- What is found among new transactions is one of them, or was there before. -/
theorem get?_withTransactions_eq_some {t : Transaction} {ts : List Transaction}
    (hnodup : (ts.map (·.hash)).Nodup)
    (hnew : ∀ u ∈ ts, a.transactions.get? u.hash = none) :
    (a.withTransactions ts).transactions.get? d = some t ↔
      a.transactions.get? d = some t ∨ t ∈ ts ∧ t.hash = d := by
  by_cases hd : ∃ u ∈ ts, u.hash = d
  · obtain ⟨u, hu, rfl⟩ := hd
    rw [get?_withTransactions hnodup hu, hnew u hu, Option.some_inj]
    simp only [reduceCtorEq, false_or]
    constructor
    · rintro rfl
      exact ⟨hu, rfl⟩
    · rintro ⟨ht, heq⟩
      exact List.inj_on_of_nodup_map hnodup hu ht heq.symm
  · have hne : ∀ u ∈ ts, u.hash ≠ d := fun u hu heq => hd ⟨u, hu, heq⟩
    rw [get?_withTransactions_of_ne hne]
    exact (or_iff_left fun ⟨ht, heq⟩ => hne t ht heq).symm

theorem size_withTransactions {ts : List Transaction}
    (hnodup : (ts.map (·.hash)).Nodup)
    (hnew : ∀ u ∈ ts, a.transactions.get? u.hash = none) :
    (a.withTransactions ts).transactions.size =
      a.transactions.size + ts.length := by
  induction ts generalizing a with
  | nil => rfl
  | cons t rest ih =>
    obtain ⟨hfirst, hrest⟩ := List.nodup_cons.mp hnodup
    rw [List.forall_mem_cons] at hnew
    -- the others are new to the archive with the first one too
    have hothers :
        ∀ u ∈ rest,
          (a.withTransactions [t]).transactions.get? u.hash = none := by
      intro u hu
      have hne : u.hash ≠ t.hash :=
        fun heq => hfirst (List.mem_map.mpr ⟨u, hu, heq⟩)
      exact (SortedMap.get?_insert_of_ne _ hne _).trans (hnew.2 u hu)
    have hsize :
        (a.withTransactions [t]).transactions.size = a.transactions.size + 1 :=
      SortedMap.size_insert_of_get?_eq_none _ hnew.1
    have htail := ih hrest hothers
    rw [hsize] at htail
    rw [List.length_cons, Nat.add_comm rest.length, ← Nat.add_assoc]
    exact htail

/-- A block that passes the check has names that are distinct and new. -/
theorem names_of_check (h : a.check b = .ok ()) :
    b.names.Nodup ∧ ∀ d ∈ b.names, a.contains d = false := by
  obtain ⟨hhash, -, hts⟩ := check_eq_ok.mp h
  refine ⟨List.nodup_cons.mpr ⟨?_, (nodup_of_checkTransactions hts).1⟩,
    List.forall_mem_cons.mpr ⟨hhash, ?_⟩⟩
  · intro hmem
    obtain ⟨t, ht, heq⟩ := List.mem_map.mp hmem
    exact (new_of_checkTransactions hts t ht).1 heq
  · intro d hd
    obtain ⟨t, ht, rfl⟩ := List.mem_map.mp hd
    exact (new_of_checkTransactions hts t ht).2

/-- The archive holds some blocks and their transactions under their names, and
nothing else. -/
structure Holds (a : Archive) (blocks : List Block) : Prop where
  block : ∀ d b, a.blocks.get? d = some b ↔ b ∈ blocks ∧ b.hash = d
  transaction : ∀ d t, a.transactions.get? d = some t ↔
    t ∈ blocks.flatMap (·.transactions) ∧ t.hash = d
  names : (blocks.flatMap Block.names).Nodup
  blockCount : a.blocks.size = blocks.length
  transactionCount : a.transactions.size =
    (blocks.flatMap (·.transactions)).length

namespace Holds

theorem empty : Archive.empty.Holds [] where
  block d b := by simp [Archive.empty, SortedMap.get?_empty]
  transaction d t := by simp [Archive.empty, SortedMap.get?_empty]
  names := .nil
  blockCount := rfl
  transactionCount := rfl

/-- The archive knows all names of its blocks. -/
theorem contains_of_mem_names (h : a.Holds blocks)
    (hd : d ∈ blocks.flatMap Block.names) : a.contains d = true := by
  obtain ⟨b, hb, hd⟩ := List.mem_flatMap.mp hd
  rw [contains, Bool.or_eq_true, SortedMap.contains_iff, SortedMap.contains_iff]
  rcases List.mem_cons.mp hd with rfl | hd
  · exact .inl ⟨b, (h.block _ _).mpr ⟨hb, rfl⟩⟩
  · obtain ⟨t, ht, rfl⟩ := List.mem_map.mp hd
    exact .inr
      ⟨t, (h.transaction _ _).mpr ⟨List.mem_flatMap.mpr ⟨b, hb, ht⟩, rfl⟩⟩

/-- **What a block adds** is itself and its transactions, under names that were
not known. -/
theorem added (h : a.Holds blocks) (hcheck : a.check b = .ok ()) :
    (a.added b).Holds (blocks ++ [b]) := by
  obtain ⟨hhash, -, hts⟩ := check_eq_ok.mp hcheck
  obtain ⟨hdistinct, hfresh⟩ := names_of_check hcheck
  obtain ⟨hnodup, hseen⟩ := nodup_of_checkTransactions hts
  have hnone := (contains_eq_false_iff.mp hhash).1
  have hnew : ∀ t ∈ b.transactions, a.transactions.get? t.hash = none :=
    fun t ht => (hseen t ht).2
  refine ⟨?_, ?_, ?_, ?_, ?_⟩
  · intro d q
    show (a.blocks.insert b.hash b).get? d = some q ↔ _
    rw [SortedMap.get?_insert, List.mem_append, List.mem_singleton]
    split
    · next heq =>
      rw [heq, Option.some_inj]
      constructor
      · rintro rfl
        exact ⟨.inr rfl, rfl⟩
      · rintro ⟨hq | rfl, hname⟩
        · rw [(h.block _ _).mpr ⟨hq, hname⟩] at hnone
          cases hnone
        · rfl
    · next hne =>
      rw [h.block]
      constructor
      · exact fun ⟨hq, hname⟩ => ⟨.inl hq, hname⟩
      · rintro ⟨hq | rfl, hname⟩
        · exact ⟨hq, hname⟩
        · exact absurd hname.symm hne
  · intro d t
    show (a.withTransactions b.transactions).transactions.get? d = some t ↔ _
    rw [get?_withTransactions_eq_some hnodup hnew,
      h.transaction, List.flatMap_append,
      List.flatMap_singleton, List.mem_append, ← or_and_right]
  · rw [List.flatMap_append, List.flatMap_singleton, List.nodup_append]
    refine ⟨h.names, hdistinct, ?_⟩
    rintro d hd e he rfl
    have hknown := h.contains_of_mem_names hd
    rw [hfresh d he] at hknown
    cases hknown
  · show (a.blocks.insert b.hash b).size = _
    rw [SortedMap.size_insert_of_get?_eq_none _ hnone, h.blockCount,
      List.length_append, List.length_singleton]
  · show (a.withTransactions b.transactions).transactions.size = _
    rw [size_withTransactions hnodup hnew, h.transactionCount,
      List.flatMap_append, List.flatMap_singleton, List.length_append]

end Holds

end Archive

/-! ## How blocks are linked -/

namespace Block

/-- A block comes right behind another. -/
structure Follows (a b : Block) : Prop where
  parent : b.parent = some a.hash
  later : a.timestamp ≤ b.timestamp

/-- Blocks in a row without a gap, from a first one without a parent. -/
structure Linked (blocks : List Block) : Prop where
  sound : ∀ b ∈ blocks, b.check = .ok ()
  height : ∀ (i : Nat) (b : Block), blocks[i]? = some b → b.height.toNat = i
  first : ∀ b ∈ blocks.head?, b.parent = none
  follows : blocks.IsChain Follows
  owner : ∀ b ∈ blocks, ∀ t ∈ b.transactions, t.blockHash = b.hash
  mints : ∀ b ∈ blocks, ∀ t ∈ b.transactions, t.kind = .mint → b.height = 0

end Block

/-- Only a block of height 0 creates tokens. -/
theorem Ledger.height_eq_zero_of_mint {l after : Ledger} {b : Block}
    (h : l.applyBlock b = .ok after) {t : Transaction} (ht : t ∈ b.transactions)
    (hkind : t.kind = .mint) : b.height = 0 := by
  obtain ⟨m, hm, -⟩ := applyBlock_ok h
  obtain ⟨m₁, m₂, happly⟩ := step_of_foldlM hm ht
  cases (apply_ok happly).2 with
  | mint action first => exact first
  | transfer action | propose action | vote action | payOut action
  | delegate action | revoke action =>
    rw [Transaction.kind, action] at hkind
    cases hkind

namespace Chain

variable {rules : Rules} {blocks : List Block} {c : Chain}

theorem follows_of_ofBlocks (h : ofBlocks rules blocks = .ok c) :
    blocks.IsChain Block.Follows := by
  refine ofBlocks_validate_induction
    (P := fun blocks _ => blocks.IsChain Block.Follows) h .nil ?_
  intro before m b after hm ih hvalid
  obtain ⟨-, hparent, hlater⟩ := checkLink_ok (validate_ok hvalid).2.1
  rw [(records_of_ofBlocks hm).tip] at hparent hlater
  refine ih.append (.singleton b) ?_
  intro last hlast next hnext
  cases hnext
  rw [Option.mem_def.mp hlast] at hparent hlater
  exact ⟨hparent, hlater last.tip rfl⟩

theorem linked_of_ofBlocks (h : ofBlocks rules blocks = .ok c) :
    Block.Linked blocks where
  sound _ hb := check_of_mem h hb
  height := (records_of_ofBlocks h).height
  first b hb := by
    rw [List.head?_eq_getElem?] at hb
    have hheight := (records_of_ofBlocks h).height 0 b hb
    have hcheck := check_of_mem h (List.mem_of_getElem? hb)
    exact (Block.check_ok hcheck).1.mpr (UInt64.toNat_inj.mp hheight)
  follows := follows_of_ofBlocks h
  owner _ hb t ht := ((Block.check_ok (check_of_mem h hb)).2.2 t ht).2
  mints b hb t ht hkind := by
    obtain ⟨l, after, happlied⟩ := applyBlock_of_mem h hb
    exact Ledger.height_eq_zero_of_mint happlied ht hkind

/-! ## What is looked up -/

theorem holds_of_ofBlocks (h : ofBlocks rules blocks = .ok c) :
    c.archive.Holds blocks :=
  ofBlocks_validate_induction (P := fun blocks c => c.archive.Holds blocks) h
    .empty fun _ _ _ _ _ ih hvalid => ih.added (validate_ok hvalid).2.2.1

/-- All that is looked up in a chain are its blocks and their transactions. -/
structure Listed (c : Chain) (blocks : List Block) : Prop where
  byHeight : ∀ h b, c.archive.block (.byHeight h) = .ok b ↔
    blocks[h.toNat]? = some b
  byHash : ∀ d b, c.archive.block (.byHash d) = .ok b ↔ b ∈ blocks ∧ b.hash = d
  transaction : ∀ d t, c.archive.transaction d = .ok t ↔
    t ∈ blocks.flatMap (·.transactions) ∧ t.hash = d
  /-- No block or transaction has the name of another. -/
  distinct : (blocks.flatMap Block.names).Nodup
  blockCount : c.summary.blocks = blocks.length
  transactionCount : c.summary.transactions =
    (blocks.map (·.transactions.length)).sum

theorem listed_of_ofBlocks (h : ofBlocks rules blocks = .ok c) :
    c.Listed blocks := by
  have hholds := holds_of_ofBlocks h
  have hrecords := records_of_ofBlocks h
  refine ⟨?_, ?_, ?_, hholds.names, hholds.blockCount, ?_⟩
  · intro height b
    rw [Archive.block_byHeight_eq_ok]
    simp only [SortedMap.get?_eq_some_iff (m := c.archive.heights),
      hrecords.heights, List.mem_map, Prod.mk.injEq]
    constructor
    · rintro ⟨d, ⟨q, hq, rfl, rfl⟩, hget⟩
      rw [hrecords.found q hq] at hget
      obtain ⟨i, hi⟩ := List.getElem?_of_mem hq
      rw [hrecords.height i q hi, hi, hget]
    · intro hget
      have hheight : b.height = height :=
        UInt64.toNat_inj.mp (hrecords.height _ b hget)
      have hb := List.mem_of_getElem? hget
      exact ⟨b.hash, ⟨b, hb, hheight, rfl⟩, hrecords.found b hb⟩
  · intro d b
    rw [Archive.block_byHash_eq_ok, hholds.block]
  · intro d t
    rw [Archive.transaction_eq_ok, hholds.transaction]
  · rw [← List.length_flatMap]
    exact hholds.transactionCount

end Chain

/-- **Every chain is linked without a gap and listed in full**, whatever blocks
were sent to it and however often it was started again. -/
theorem Node.Reachable.linked_and_listed {config : Config} {n : Node}
    (h : n.Reachable config) :
    Block.Linked n.chain.blocks ∧ n.chain.Listed n.chain.blocks ∧
      ∃ last, n.chain.blocks.getLast? = some last ∧
        n.chain.tip = some last.tip ∧
        n.chain.blocks.length = n.chain.height.toNat + 1 := by
  obtain ⟨rest, htracks⟩ := h.tracks
  have hrecords := htracks.records
  rw [htracks.blocks_eq]
  refine ⟨Chain.linked_of_ofBlocks htracks.history,
    Chain.listed_of_ofBlocks htracks.history,
    (config.genesisBlock :: rest).getLast (by simp),
    List.getLast?_eq_some_getLast _, ?_, hrecords.length_eq (by simp)⟩
  rw [hrecords.tip, List.getLast?_eq_some_getLast (by simp)]
  rfl

theorem Node.linked_and_listed_voted :
    ∃ n : Node, n.Reachable .twoHolders ∧ Block.Linked n.chain.blocks ∧
      n.chain.Listed n.chain.blocks := by
  obtain ⟨n, -, hreached, -, -⟩ := exists_voted
  exact ⟨n, hreached, hreached.linked_and_listed.1,
    hreached.linked_and_listed.2.1⟩

end CouncilLedger
