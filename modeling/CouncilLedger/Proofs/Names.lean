import CouncilLedger.Proofs.Making

/-!
# Names of blocks and transactions

A block and a transaction are named by the hash of their bytes, and the archive
knows no other names than those of a chain's blocks and transactions. So the
name of a block is new when its bytes collide with none of theirs: the bytes of
a block tell its height, and begin otherwise than those of a transaction. A
block that is made for the tip then passes all checks but those of its
transactions. The main statement is `Chain.validate_made`.
-/

namespace CouncilLedger

open Outcome

/-! ## Bytes -/

/-- The bytes of a word tell the word. -/
theorem Encoding.word_injective {m n : UInt64} (h : word m = word n) :
    m = n := by
  have hbyte :
      ∀ k i : UInt64,
        (k >>> i).toUInt8.toNat = k.toNat / 2 ^ (i.toNat % 64) % 256 := by
    intro k i
    rw [UInt64.toNat_toUInt8, UInt64.toNat_shiftRight, Nat.shiftRight_eq_div_pow]
  simp only [word, List.cons.injEq, and_true] at h
  obtain ⟨h0, h1, h2, h3, h4, h5, h6, h7⟩ := h
  rw [← UInt8.toNat_inj] at h0 h1 h2 h3 h4 h5 h6 h7
  rw [UInt64.toNat_toUInt8, UInt64.toNat_toUInt8] at h0
  rw [hbyte, hbyte] at h1 h2 h3 h4 h5 h6 h7
  have hm := m.toNat_lt
  have hn := n.toNat_lt
  rw [← UInt64.toNat_inj]
  simp only [UInt64.reduceToNat, Nat.reduceMod, Nat.reducePow] at *
  omega

/-- No other bytes, among some that are known, have the digest of these. -/
def Digest.NoCollision (bytes : List UInt8) (known : List (List UInt8)) : Prop :=
  ∀ x ∈ known, ofBytes x = ofBytes bytes → x = bytes

namespace Block

/-- The bytes whose hash should name the block. -/
def bytes (b : Block) : List UInt8 :=
  headerBytes b.height b.parent b.timestamp b.root

/-- All bytes whose hashes are names in a block. -/
def namedBytes (b : Block) : List (List UInt8) :=
  b.bytes :: b.transactions.map (·.bytes)

/-- The bytes of a block tell its height. -/
theorem height_of_bytes {b q : Block} (h : b.bytes = q.bytes) :
    b.height = q.height := by
  simp only [bytes, headerBytes, List.append_assoc] at h
  exact Encoding.word_injective
    (List.append_inj_left (List.append_cancel_left h) rfl)

/-- Blocks and transactions begin with their kinds. -/
theorem bytes_ne_transaction (b : Block) (t : Transaction) :
    t.bytes ≠ b.bytes := by
  have htransaction : t.bytes[9]? = some 116 := by
    simp only [Transaction.bytes, Transaction.bytesOf, List.append_assoc]
    rfl
  have hblock : b.bytes[9]? = some 98 := by
    simp only [bytes, headerBytes, List.append_assoc]
    rfl
  intro h
  rw [h, hblock] at htransaction
  cases htransaction

/-- A valid block is named by its bytes, and so are its transactions. -/
theorem exists_bytes_of_check {b : Block} (h : b.check = .ok ()) :
    Digest.ofBytes b.bytes = b.hash ∧
      ∀ t ∈ b.transactions, Digest.ofBytes t.bytes = t.hash := by
  obtain ⟨-, hhash, hts⟩ := check_ok h
  exact ⟨hhash.symm, fun t ht => (hts t ht).1.symm⟩

end Block

/-! ## The archive -/

/-- A digest that is new to an archive and to a block is new to the archive with
the block. -/
theorem Archive.contains_added_eq_false {a : Archive} {b : Block} {d : Digest}
    (ha : a.contains d = false) (hblock : b.hash ≠ d)
    (hts : ∀ t ∈ b.transactions, t.hash ≠ d) :
    (a.added b).contains d = false := by
  have htransactions :=
    (contains_eq_false_iff.mp (contains_withTransactions ha hts)).2
  refine contains_eq_false_iff.mpr ⟨?_, htransactions⟩
  show (a.blocks.insert b.hash b).get? d = none
  rw [SortedMap.get?_insert_of_ne _ hblock.symm, (contains_eq_false_iff.mp ha).1]

namespace Chain

/-- All bytes whose hashes are names in a chain. -/
def namedBytes (c : Chain) : List (List UInt8) :=
  c.blocks.flatMap Block.namedBytes

variable {rules : Rules} {blocks : List Block} {c : Chain}

/-- Every key of the archive is the name of a block or a transaction of the
chain. -/
theorem exists_bytes_of_contains (h : ofBlocks rules blocks = .ok c)
    {d : Digest} (hd : c.archive.contains d = true) :
    ∃ x ∈ blocks.flatMap Block.namedBytes, Digest.ofBytes x = d := by
  refine ofBlocks_validate_induction
    (P := fun blocks c => ∀ d, c.archive.contains d = true →
    ∃ x ∈ blocks.flatMap Block.namedBytes, Digest.ofBytes x = d) h nofun ?_ d hd
  intro before m b after _ ih hvalid d hd
  obtain ⟨hblock, hts⟩ := Block.exists_bytes_of_check (validate_ok hvalid).1
  have hmem : ∀ x ∈ b.namedBytes, x ∈
      (before ++ [b]).flatMap Block.namedBytes := fun x hx =>
    List.mem_flatMap.mpr ⟨b, by simp, hx⟩
  by_cases hname : b.hash = d
  · exact ⟨b.bytes, hmem _ List.mem_cons_self, hblock.trans hname⟩
  · by_cases hnew : ∀ t ∈ b.transactions, t.hash ≠ d
    · cases hold : m.archive.contains d with
      | true =>
        obtain ⟨x, hx, hdigest⟩ := ih d hold
        exact ⟨x,
          by rw [List.flatMap_append]; exact List.mem_append_left _ hx, hdigest⟩
      | false =>
        rw [extended, Archive.contains_added_eq_false hold hname hnew] at hd
        cases hd
    · simp only [not_forall, not_not] at hnew
      obtain ⟨t, ht, rfl⟩ := hnew
      exact ⟨t.bytes, hmem _
        (List.mem_cons_of_mem _ (List.mem_map.mpr ⟨t, ht, rfl⟩)), hts t ht⟩

/-- Bytes that name nothing in a chain do not have a name of it already, unless
they collide. -/
theorem contains_eq_false_of_not_mem (h : ofBlocks rules blocks = .ok c)
    {bytes : List UInt8} (hfresh : bytes ∉ c.namedBytes)
    (hnew : Digest.NoCollision bytes c.namedBytes) :
    c.archive.contains (.ofBytes bytes) = false := by
  rw [← Bool.not_eq_true]
  intro hcontains
  obtain ⟨x, hx, hdigest⟩ := exists_bytes_of_contains h hcontains
  rw [← (records_of_ofBlocks h).blocks_eq] at hx
  exact hfresh (hnew x hx hdigest ▸ hx)

/-- No block or transaction of a chain has the bytes of a block that has a new
height. -/
theorem bytes_not_mem_namedBytes (h : ofBlocks rules blocks = .ok c) {b : Block}
    (hheight : b.height.toNat = blocks.length) : b.bytes ∉ c.namedBytes := by
  have hrecords := records_of_ofBlocks h
  rw [namedBytes, hrecords.blocks_eq]
  intro hx
  obtain ⟨q, hq, hx⟩ := List.mem_flatMap.mp hx
  rcases List.mem_cons.mp hx with hbytes | hx
  · have hlt := hrecords.height_lt q hq
    rw [← Block.height_of_bytes hbytes] at hlt
    omega
  · obtain ⟨t, -, hbytes⟩ := List.mem_map.mp hx
    exact b.bytes_ne_transaction t hbytes

/-- A name that the archive does not know is that of no bytes of the chain. -/
theorem noCollision_of_contains_eq_false (h : ofBlocks rules blocks = .ok c)
    {bytes : List UInt8} (hnew : c.archive.contains (.ofBytes bytes) = false) :
    Digest.NoCollision bytes c.namedBytes := by
  have hrecords := records_of_ofBlocks h
  obtain ⟨hblocks, htransactions⟩ := Archive.contains_eq_false_iff.mp hnew
  rw [namedBytes, hrecords.blocks_eq]
  intro x hx hdigest
  obtain ⟨q, hq, hx⟩ := List.mem_flatMap.mp hx
  obtain ⟨hblock, hts⟩ := Block.exists_bytes_of_check (check_of_mem h hq)
  -- the archive knows the names of all blocks and transactions
  rcases List.mem_cons.mp hx with rfl | hx
  · rw [← hdigest, hblock, hrecords.found q hq] at hblocks
    cases hblocks
  · obtain ⟨t, ht, rfl⟩ := List.mem_map.mp hx
    have hfound :=
      (indexes_of_ofBlocks h).found t (List.mem_flatMap.mpr ⟨q, hq, ht⟩)
    rw [← hdigest, hts t ht, hfound] at htransactions
    cases htransactions

/-! ## Making a block for the tip -/

/-- **A block that is made for the tip is in its place**, when its name is new
and its transactions can be added: it is valid if they can be applied. -/
theorem validate_made (h : ofBlocks rules blocks = .ok c) {tip : Tip}
    (htip : c.tip = some tip) (hfits : blocks.length < UInt64.size)
    {timestamp : UInt64} (htime : tip.timestamp ≤ timestamp)
    {ts : List Transaction} (hts : ∀ t ∈ ts, t.hash = t.computedHash)
    {b : Block} (hb : b = .build (tip.height + 1) (some tip.hash) timestamp ts)
    (hnew : Digest.NoCollision b.bytes c.namedBytes)
    (hadds : c.archive.checkTransactions b.hash [] b.transactions = .ok ()) :
    c.validate b = c.ledger.applyBlock b := by
  have hrecords := records_of_ofBlocks h
  have hnext : c.nextHeight = b.height := by
    rw [nextHeight, htip, hb]
    rfl
  have hheight : b.height.toNat = blocks.length :=
    hnext ▸ hrecords.toNat_nextHeight hfits
  have hne : b.height ≠ 0 := by
    intro hzero
    rw [hzero] at hheight
    rw [List.eq_nil_of_length_eq_zero hheight.symm] at hrecords
    rw [hrecords.tip] at htip
    cases htip
  have hcheck : b.check = .ok () := by
    have hmade : b.IsMade := hb ▸ Block.isMade_build hts
    rw [hmade.check_eq, hb]
    rw [hb] at hne
    exact if_neg hne
  have hlink : c.checkLink b = .ok () := by
    rw [checkLink, guard_eq_ok, htip]
    refine ⟨?_, ?_⟩
    · rw [hb]
      simp [Block.build]
    · rw [hb]
      exact if_neg (UInt64.not_lt.mpr htime)
  have harchive : c.archive.check b = .ok () := by
    refine Archive.check_eq_ok.mpr ⟨?_, ?_, hadds⟩
    · rw [← (Block.exists_bytes_of_check hcheck).1]
      exact contains_eq_false_of_not_mem h
        (bytes_not_mem_namedBytes h hheight) hnew
    · cases hget : c.archive.heights.get? b.height with
      | none => rfl
      | some d =>
        have hmem := SortedMap.get?_eq_some_iff.mp hget
        rw [hrecords.heights] at hmem
        obtain ⟨q, hq, heq⟩ := List.mem_map.mp hmem
        have hlt := hrecords.height_lt q hq
        rw [(Prod.mk.inj heq).1, hheight] at hlt
        exact absurd hlt (Nat.lt_irrefl _)
  rw [validate, hcheck, hlink, harchive]
  rfl

end Chain
end CouncilLedger
