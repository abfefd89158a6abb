import CouncilLedger.Proofs.Amount
import CouncilLedger.Proofs.Catalogue
import CouncilLedger.Proofs.Delegations
import CouncilLedger.Proofs.Encoding
import CouncilLedger.Proofs.Nonces

/-!
# Writes

A write puts one transaction into a block of its own. The block is made for the
tip, at a time that is not before that of the tip, and the transaction has the
next nonce of its sender. No transaction of the chain has this nonce of this
sender, and the bytes of a transaction tell both, so the name of the transaction
is new, as is that of the block. Nothing is wrong with the place of such a
block: whether a write succeeds is up to its action. The main statement is
`Node.write_is_in_place`.
-/

namespace CouncilLedger

open Outcome

/-! ## The names in a write -/

theorem Address.lengthFits_of_check {a : String} (h : check a = .ok ()) :
    Encoding.LengthFits a := by
  rw [check, guard_eq_ok, not_or, Nat.not_lt] at h
  exact Nat.lt_of_le_of_lt h.1.2 (by decide)

/-- The nonce that a sender uses next has not been used. -/
theorem Ledger.Numbered.slot_not_mem {l : Ledger} {ts : List Transaction}
    (h : l.Numbered ts) (hfits : ts.length < UInt64.size) (a : String) :
    (a, l.accounts.nonce a) ∉ ts.map Transaction.slot := by
  intro hmem
  obtain ⟨u, hu, hslot⟩ := List.mem_map.mp hmem
  obtain ⟨hsender, hnonce⟩ := Prod.mk.inj hslot
  -- the nonces of the sender are those below the next one
  have hused : u.nonce.toNat ∈ (Transaction.sentBy ts a).map (·.nonce.toNat) :=
    List.mem_map.mpr ⟨u, List.mem_filter.mpr ⟨hu, decide_eq_true hsender⟩, rfl⟩
  rw [h.toNat_nonces hfits.le, List.mem_range, hnonce,
    h.toNat_next hfits] at hused
  exact Nat.lt_irrefl _ hused

namespace Chain

variable {rules : Rules} {blocks : List Block} {c : Chain} {clock : UInt64}
    {sender : String}
variable {action : Action} {t : Transaction} {b : Block}

/-- A write keeps within the limits of the format: there are fewer blocks and
transactions than words, the senders have lengths that are words, and no two
names in the chain and in the block of the write collide. -/
structure WithinLimits (c : Chain) (clock : UInt64) (sender : String)
    (action : Action) : Prop where
  blocks : c.blocks.length < UInt64.size
  transactions : c.transactions.length < UInt64.size
  senders : ∀ t ∈ c.transactions, Encoding.LengthFits t.sender
  names : ∀ t b, c.blockFor clock sender action = .ok (t, b) →
    Digest.CollisionFree (b.namedBytes ++ c.namedBytes)

/-- The block of a write holds its transaction. -/
theorem transactions_of_blockFor
    (hblock : c.blockFor clock sender action = .ok (t, b)) :
    b.transactions = [{ t with blockHash := b.hash }] := by
  obtain ⟨-, tip, -, -, hb⟩ := blockFor_eq_ok hblock
  rw [hb]
  rfl

/-- The names in the block of a write are the digests of its bytes. -/
theorem hash_of_blockFor (hblock : c.blockFor clock sender action = .ok (t, b)) :
    b.hash = .ofBytes b.bytes := by
  obtain ⟨-, tip, -, -, hb⟩ := blockFor_eq_ok hblock
  rw [hb]
  exact Block.hash_build

theorem transaction_hash_of_blockFor
    (hblock : c.blockFor clock sender action = .ok (t, b)) :
    ∀ u ∈ b.transactions, Digest.ofBytes u.bytes = u.hash := by
  rw [transactions_of_blockFor hblock]
  obtain ⟨-, tip, -, ht, -⟩ := blockFor_eq_ok hblock
  intro u hu
  rw [List.mem_singleton.mp hu, ht]
  rfl

theorem exists_blockFor (hsender : Address.check sender = .ok ()) {tip : Tip}
    (htip : c.tip = some tip) (clock : UInt64) (action : Action) :
    ∃ t b, c.blockFor clock sender action = .ok (t, b) := by
  rw [blockFor, hsender, htip]
  exact ⟨_, _, rfl⟩

/-- The time of a write is that of the clock, or of the tip if the clock is
behind. -/
theorem timestamp_of_blockFor
    (hblock : c.blockFor clock sender action = .ok (t, b)) :
    b.timestamp = max clock c.time := by
  obtain ⟨-, tip, htip, -, hb⟩ := blockFor_eq_ok hblock
  rw [hb, time, htip]
  rfl

theorem time_le_of_blockFor
    (hblock : c.blockFor clock sender action = .ok (t, b)) :
    c.time ≤ b.timestamp :=
  timestamp_of_blockFor hblock ▸ Amount.le_max_right _ _

theorem sent_of_blockFor (hblock : c.blockFor clock sender action = .ok (t, b)) :
    t.sender = sender ∧ t.action = action := by
  obtain ⟨-, tip, -, ht, -⟩ := blockFor_eq_ok hblock
  rw [ht]
  exact ⟨rfl, rfl⟩

/-- No block or transaction of a chain has the bytes of the transaction of a
write. -/
theorem write_bytes_not_mem (h : ofBlocks rules blocks = .ok c)
    (hlimits : c.WithinLimits clock sender action)
    (hblock : c.blockFor clock sender action = .ok (t, b)) :
    t.bytes ∉ c.namedBytes := by
  obtain ⟨hsender, tip, -, ht, -⟩ := blockFor_eq_ok hblock
  have hnumbered : c.ledger.Numbered c.transactions := by
    rw [transactions, (records_of_ofBlocks h).blocks_eq]
    exact numbered_of_ofBlocks h
  intro hmem
  obtain ⟨q, hq, hx⟩ := List.mem_flatMap.mp hmem
  rcases List.mem_cons.mp hx with hbytes | hx
  · exact q.bytes_ne_transaction t hbytes
  · obtain ⟨u, hu, hbytes⟩ := List.mem_map.mp hx
    have hold : u ∈ c.transactions := List.mem_flatMap.mpr ⟨q, hq, hu⟩
    have hfits : Encoding.LengthFits t.sender := by
      rw [ht]
      exact Address.lengthFits_of_check hsender
    obtain ⟨hname, hnonce, -⟩ :=
      Transaction.sender_nonce_of_bytes (hlimits.senders u hold) hfits hbytes
    refine hnumbered.slot_not_mem hlimits.transactions sender
      (List.mem_map.mpr ⟨u, hold, ?_⟩)
    rw [Transaction.slot, hname, hnonce, ht]
    rfl

/-- **A write is in its place**: its block is valid if its action can be
applied. -/
theorem validate_write (h : ofBlocks rules blocks = .ok c)
    (hlimits : c.WithinLimits clock sender action)
    (hblock : c.blockFor clock sender action = .ok (t, b)) :
    c.validate b = c.ledger.applyBlock b := by
  have hfresh := write_bytes_not_mem h hlimits hblock
  have hfree := hlimits.names t b hblock
  have htransactions := transactions_of_blockFor hblock
  obtain ⟨-, tip, htip, ht, hb⟩ := blockFor_eq_ok hblock
  have hbmem : b.bytes ∈ b.namedBytes ++ c.namedBytes :=
    List.mem_append_left _ List.mem_cons_self
  have htmem : t.bytes ∈ b.namedBytes ++ c.namedBytes := by
    refine List.mem_append_left _ (List.mem_cons_of_mem _ ?_)
    rw [htransactions]
    exact List.mem_cons_self
  have hnew :
      ∀ x ∈ b.namedBytes ++ c.namedBytes, Digest.NoCollision x c.namedBytes :=
    fun x hx y hy => hfree x hx y (List.mem_append_right _ hy)
  have hname : t.hash = .ofBytes t.bytes := by rw [ht]; rfl
  have hadds :
      c.archive.checkTransactions b.hash [] b.transactions = .ok () := by
    have hother : t.hash ≠ b.hash := by
      rw [hname, hash_of_blockFor hblock]
      exact fun hdigest => b.bytes_ne_transaction t
        (hfree.eq htmem hbmem hdigest)
    have hunknown : c.archive.contains t.hash = false := by
      rw [hname]
      exact contains_eq_false_of_not_mem h hfresh (hnew _ htmem)
    rw [htransactions]
    exact guard_eq_ok.mpr ⟨by simp [hother, hunknown], rfl⟩
  have hlength : blocks.length < UInt64.size := by
    rw [← (records_of_ofBlocks h).blocks_eq]
    exact hlimits.blocks
  exact validate_made h htip hlength (Amount.le_max_right clock _)
    (by simp [ht]) hb
    (hnew _ hbmem) hadds

/-- The ledger on which the action of a write takes place. -/
def readyFor (c : Chain) (sender : String) (now : UInt64) : Ledger :=
  (c.ledger.settle now).withNonceUsed sender

/-- **What a write does to the ledger**: between two settlements a nonce of the
sender is used up, and the action takes place. -/
theorem applyBlock_write
    (hblock : c.blockFor clock sender action = .ok (t, b)) :
    c.ledger.applyBlock b =
      ((c.readyFor sender b.timestamp).act { t with blockHash := b.hash }
        b.height b.timestamp).map (·.settle b.timestamp) := by
  obtain ⟨-, tip, -, ht, -⟩ := blockFor_eq_ok hblock
  have hnonce :
      (c.ledger.settle b.timestamp).accounts.useNonce t.sender t.nonce =
        .ok (c.readyFor sender b.timestamp).accounts := by
    rw [ht]
    exact if_pos rfl
  rw [Ledger.applyBlock, transactions_of_blockFor hblock, List.foldlM_cons]
  simp only [Ledger.apply, hnonce]
  show ((c.readyFor sender b.timestamp).act _ _ _ >>= pure) >>= _ = _
  cases (c.readyFor sender b.timestamp).act _ _ _ <;> rfl

/-- A write comes at the next height, which is not that of the first block. -/
theorem toNat_height_of_blockFor (h : ofBlocks rules blocks = .ok c)
    (hfits : c.blocks.length < UInt64.size)
    (hblock : c.blockFor clock sender action = .ok (t, b)) :
    b.height.toNat = c.blocks.length := by
  have hrecords := records_of_ofBlocks h
  obtain ⟨-, tip, htip, -, hb⟩ := blockFor_eq_ok hblock
  have hnext : b.height = c.nextHeight := by
    rw [hb, nextHeight, htip]
    rfl
  rw [hrecords.blocks_eq] at hfits ⊢
  rw [hnext, hrecords.toNat_nextHeight hfits]

end Chain

/-! ## What refuses a write -/

theorem Rejection.not_isOfPlace {r : Rejection} (h : r.isOfAction = true) :
    r.isOfPlace = false := by
  cases r <;> simp [isOfAction, isOfPlace] at h ⊢

/-- Apart from minting, what an action is refused for after the first block is
no matter of the place of the block. -/
theorem Ledger.act_refuses_in_place {l : Ledger} {t : Transaction}
    {height now : UInt64} (hlate : height ≠ 0) (hkind : t.kind ≠ .mint) :
    RefusesOnly (·.isOfPlace = false) (l.act t height now) := by
  refine act_refuses (fun _ => Rejection.not_isOfPlace) ?_ ?_ fun hfirst =>
    absurd hfirst hlate
  · intro recipient amount haction
    rw [Transaction.kind, haction] at hkind
    exact absurd rfl hkind
  · intro sender recipient amount
    refine .guard (fun _ => rfl) (.guard (fun _ => rfl) ?_)
    split
    · exact .ok _
    · split
      · exact .error rfl
      · exact .ok _

namespace Node

variable {config : Config} {n next : Node} {blocks : List Block} {m : Moment}
    {sender : String}
variable {action : Action}

namespace Tracks

/-- The block of a write is not the first of its chain. -/
theorem height_ne_zero (h : n.Tracks config blocks) (hne : blocks ≠ [])
    (hlimits : n.chain.WithinLimits m.clock sender action) {t : Transaction}
    {b : Block} (hblock : n.chain.blockFor m.clock sender action = .ok (t, b)) :
    b.height ≠ 0 := by
  intro hzero
  have hheight := Chain.toNat_height_of_blockFor h.history hlimits.blocks hblock
  rw [hzero, h.blocks_eq] at hheight
  exact hne (List.eq_nil_of_length_eq_zero hheight.symm)

/-- What a write gives, where the disk takes its block: a receipt if its action
can be applied. -/
theorem submit_eq (h : n.Tracks config blocks)
    (hlimits : n.chain.WithinLimits m.clock sender action) {t : Transaction}
    {b : Block} (hblock : n.chain.blockFor m.clock sender action = .ok (t, b))
    (htakes : n.dir = none ∨ m.diskTakes = true) :
    (n.submit m sender action).1 =
      (n.chain.ledger.applyBlock b).map fun _ => Chain.receipt t b := by
  have hvalid := Chain.validate_write h.history hlimits hblock
  simp only [submit, hblock]
  cases happlied : n.chain.ledger.applyBlock b with
  | error r =>
    rw [commit_of_refused (hvalid.trans happlied) m]
    rfl
  | ok after =>
    obtain ⟨next, hcommit, -⟩ := h.exists_commit (hvalid.trans happlied) htakes
    rw [hcommit]
    rfl

theorem submit_eq_act (h : n.Tracks config blocks)
    (hlimits : n.chain.WithinLimits m.clock sender action) {t : Transaction}
    {b : Block} (hblock : n.chain.blockFor m.clock sender action = .ok (t, b))
    (htakes : n.dir = none ∨ m.diskTakes = true) :
    (n.submit m sender action).1 =
      ((n.chain.readyFor sender b.timestamp).act { t with blockHash := b.hash }
        b.height b.timestamp).map fun _ => Chain.receipt t b := by
  rw [h.submit_eq hlimits hblock htakes, Chain.applyBlock_write hblock]
  cases (n.chain.readyFor sender b.timestamp).act
    { t with blockHash := b.hash } b.height b.timestamp <;> rfl

/-- The action of a write that succeeds was applied. -/
theorem of_write (h : n.Tracks config blocks) {receipt : Receipt}
    (hsubmit : n.submit m sender action = (.ok receipt, next)) :
    ∃ t b l, n.chain.blockFor m.clock sender action = .ok (t, b) ∧
      receipt = Chain.receipt t b ∧
      (n.chain.readyFor sender b.timestamp).act { t with blockHash := b.hash }
          b.height b.timestamp =
        .ok l ∧
      next.chain = n.chain.extended b (l.settle b.timestamp) := by
  obtain ⟨t, b, hblock, hcommit, hreceipt⟩ := of_submit_eq_ok hsubmit
  obtain ⟨after, hvalid, hchain, -⟩ := h.of_commit_eq_ok hcommit
  obtain ⟨-, -, -, happlied⟩ := Chain.validate_ok hvalid
  rw [Chain.applyBlock_write hblock] at happlied
  obtain ⟨l, hact, rfl⟩ := map_eq_ok.mp happlied
  exact ⟨t, b, l, hblock, hreceipt, hact, hchain⟩

/-- Whatever a write is refused for, it is no matter of its place. -/
theorem submit_refuses_in_place (h : n.Tracks config blocks) (hne : blocks ≠ [])
    (hlimits : n.chain.WithinLimits m.clock sender action)
    (hkind : action.kind ≠ .mint) :
    RefusesOnly (·.isOfPlace = false) (n.submit m sender action).1 := by
  obtain ⟨tip, htip⟩ := h.records.exists_tip hne
  unfold submit
  split
  · next r hr =>
    have hblockFor : RefusesOnly (·.isOfPlace = false)
        (n.chain.blockFor m.clock sender action) := by
      refine .bind ((Ledger.wellFormed_refuses _).mono fun _ =>
        Rejection.not_isOfPlace) ?_
      rw [htip]
      exact fun _ _ => .ok _
    exact .error (hblockFor r hr)
  · next t b hblock =>
    have hvalid : RefusesOnly (·.isOfPlace = false) (n.chain.validate b) := by
      rw [Chain.validate_write h.history hlimits hblock,
        Chain.applyBlock_write hblock]
      obtain ⟨-, haction⟩ := Chain.sent_of_blockFor hblock
      exact (Ledger.act_refuses_in_place (h.height_ne_zero hne hlimits hblock)
        (by rwa [Transaction.kind, haction])).map _
    refine .map ?_ _
    rcases commit_cases h m b with ⟨r, hr, hcommit⟩ | ⟨-, d, -, -, -, hcommit⟩ |
      ⟨after, next, -, -, hcommit, -⟩
    · rw [hcommit]
      exact .error (hvalid r hr)
    · rw [hcommit]
      exact .error rfl
    · rw [hcommit]
      exact .ok ()

end Tracks

/-! ## The main statement -/

/-- What a write leaves: its block `b` on the chain, with the one transaction
`t`. -/
structure Wrote (n next : Node) (m : Moment) (sender : String) (action : Action)
    (receipt : Receipt) (b : Block) (t : Transaction) : Prop where
  blocks : next.chain.blocks = n.chain.blocks ++ [b]
  height : next.chain.height.toNat = n.chain.height.toNat + 1
  tip : next.chain.tip =
    some ⟨receipt.height, receipt.block, max m.clock n.chain.time⟩
  transactions : b.transactions = [t]
  sender : t.sender = sender
  action : t.action = action
  names : receipt = Chain.receipt t b
  /-- The block and the transaction are found under the names in the receipt. -/
  foundBlock : next.chain.archive.block (.byHash receipt.block) = .ok b
  foundTransaction : next.chain.archive.transaction receipt.transaction = .ok t

theorem Tracks.wrote (h : n.Tracks config blocks) (hne : blocks ≠ [])
    {receipt : Receipt}
    (hsubmit : n.submit m sender action = (.ok receipt, next)) :
    ∃ b t, Wrote n next m sender action receipt b t := by
  obtain ⟨t, b, hblock, hcommit, rfl⟩ := of_submit_eq_ok hsubmit
  have htransactions := Chain.transactions_of_blockFor hblock
  obtain ⟨after, hvalid, hchain, -, hnext⟩ := h.of_commit_eq_ok hcommit
  have hlisted := Chain.listed_of_ofBlocks hnext.history
  have htip : next.chain.tip = some b.tip := by
    rw [hnext.records.tip, List.getLast?_append]
    rfl
  obtain ⟨hsender, haction⟩ := Chain.sent_of_blockFor hblock
  refine ⟨b, { t with blockHash := b.hash }, ?_, ?_, ?_, htransactions, hsender,
    haction, rfl, ?_, ?_⟩
  · rw [hnext.blocks_eq, h.blocks_eq]
  · have hlength := h.records.length_eq hne
    have hlength' := hnext.records.length_eq (by simp)
    rw [List.length_append, List.length_singleton] at hlength'
    omega
  · rw [htip, ← Chain.timestamp_of_blockFor hblock]
    rfl
  · exact (hlisted.byHash _ _).mpr
      ⟨List.mem_append_right _ (List.mem_singleton_self b), rfl⟩
  · refine (hlisted.transaction _ _).mpr ⟨?_, rfl⟩
    rw [List.flatMap_append, List.flatMap_singleton, htransactions]
    exact List.mem_append_right _ (List.mem_singleton_self _)

/-- **A write is in its place**: within the limits of the format, a write of
anything but a mint is not refused as a fork, for a nonce, as an invalid block,
or for a name that is known, whatever it asks for and however the clock runs.
Where it succeeds, the chain is higher by one block, whose time is that of the
clock, or of the tip if the clock was behind; the receipt names this block and
its one transaction, and both are found under these names. -/
theorem write_is_in_place (h : n.Reachable config)
    (hlimits : n.chain.WithinLimits m.clock sender action)
    (hkind : action.kind ≠ .mint) :
    (∀ r, (n.submit m sender action).1 = .error r → r.isOfPlace = false) ∧
      ∀ receipt, (n.submit m sender action).1 = .ok receipt →
        ∃ b t,
          Wrote n (n.submit m sender action).2 m sender action receipt b t := by
  obtain ⟨rest, htracks⟩ := h.tracks
  have hne : config.genesisBlock :: rest ≠ [] := List.cons_ne_nil _ _
  refine ⟨htracks.submit_refuses_in_place hne hlimits hkind, ?_⟩
  intro receipt hreceipt
  exact htracks.wrote hne (Prod.ext hreceipt rfl)

end Node

/-! ## A write while the clock is behind -/

theorem Digest.collisionFree_of_nodup {known : List (List UInt8)}
    (h : (known.map ofBytes).Nodup) : CollisionFree known :=
  fun _ hx _ hy hdigest => List.inj_on_of_nodup_map h hy hx hdigest

/-- The names in a block are the digests of its bytes, where each of them is. -/
theorem Block.map_ofBytes_namedBytes {b : Block}
    (h : Digest.ofBytes b.bytes = b.hash)
    (hts : ∀ t ∈ b.transactions, Digest.ofBytes t.bytes = t.hash) :
    b.namedBytes.map .ofBytes = b.names := by
  rw [namedBytes, names, List.map_cons, h, List.map_map]
  exact congrArg _ (List.map_congr_left hts)

/-- The limits of a write as a test, in which no two names are the same at
all. -/
def Chain.fits (c : Chain) (clock : UInt64) (sender : String)
    (action : Action) : Bool :=
  c.blocks.length < UInt64.size && c.transactions.length < UInt64.size &&
    c.transactions.all (fun t => Encoding.LengthFits t.sender) &&
    (c.blockFor clock sender action).toOption.all fun (_, b) =>
      ((b :: c.blocks).flatMap Block.names).Nodup

theorem Node.Reachable.withinLimits {config : Config} {n : Node}
    (hn : n.Reachable config) {clock : UInt64} {sender : String}
    {action : Action} (h : n.chain.fits clock sender action = true) :
    n.chain.WithinLimits clock sender action := by
  obtain ⟨rest, htracks⟩ := hn.tracks
  simp only [Chain.fits, Bool.and_eq_true, decide_eq_true_eq,
    List.all_eq_true] at h
  obtain ⟨⟨⟨hblocks, htransactions⟩, hsenders⟩, hnames⟩ := h
  refine ⟨hblocks, htransactions, hsenders, ?_⟩
  intro t b hblock
  rw [hblock] at hnames
  refine Digest.collisionFree_of_nodup ?_
  have hchain :
      n.chain.namedBytes.map .ofBytes = n.chain.blocks.flatMap Block.names := by
    rw [Chain.namedBytes, List.map_flatMap, List.flatMap_def, List.flatMap_def]
    refine congrArg _ (List.map_congr_left fun q hq => ?_)
    rw [htracks.blocks_eq] at hq
    obtain ⟨hq, hts⟩ :=
      Block.exists_bytes_of_check (Chain.check_of_mem htracks.history hq)
    exact Block.map_ofBytes_namedBytes hq hts
  have hnew : b.namedBytes.map .ofBytes = b.names :=
    Block.map_ofBytes_namedBytes (Chain.hash_of_blockFor hblock).symm
      (Chain.transaction_hash_of_blockFor hblock)
  rw [List.map_append, hchain, hnew, ← List.flatMap_cons]
  exact of_decide_eq_true hnames

/-- Two accounts that hold tokens, on a chain that begins at second 100. -/
def Config.lateStart : Config :=
  { chain := { genesisTimestamp := 100 }
    treasury := 0, allocations := [⟨"ada", 5⟩, ⟨"ben", 3⟩] }

namespace Node

/-- A transfer when the clock is behind the first block. -/
theorem write_is_in_place_behind :
    ∃ n receipt b t, Reachable .lateStart n ∧
      (n.submit ⟨4, true⟩ "ada" (.transfer "ben" 2)).1 = .ok receipt ∧
      Wrote n (n.submit ⟨4, true⟩ "ada" (.transfer "ben" 2)).2 ⟨4, true⟩ "ada"
        (.transfer "ben" 2) receipt b t ∧
      n.chain.time = 100 := by
  have hrun : ((Chain.empty Config.lateStart.rules).grow
      Config.lateStart.genesisBlock).toOption.any (fun c =>
        c.time = 100 && c.fits 4 "ada" (.transfer "ben" 2) &&
          (c.blockFor 4 "ada" (.transfer "ben" 2)).toOption.any fun (_, b) =>
            (c.ledger.applyBlock b).isOk) = true := by
    decide +kernel
  obtain ⟨c, hc, hrun⟩ := exists_of_any_toOption hrun
  obtain ⟨n, hbegins, rfl, hnone⟩ := exists_inMemory hc
  simp only [Bool.and_eq_true, decide_eq_true_eq] at hrun
  obtain ⟨⟨htime, hfits⟩, happlies⟩ := hrun
  obtain ⟨⟨t, b⟩, hblock, happlies⟩ := exists_of_any_toOption happlies
  obtain ⟨after, happlies⟩ := exists_of_isOk happlies
  have hreached : Reachable .lateStart n := ⟨n, hbegins, .refl⟩
  have hlimits := hreached.withinLimits hfits
  have hok :=
    hbegins.tracks.submit_eq (m := ⟨4, true⟩) hlimits hblock (.inl hnone)
  rw [happlies] at hok
  obtain ⟨u, q, hwrote⟩ :=
    (write_is_in_place hreached (m := ⟨4, true⟩) hlimits (by decide)).2 _ hok
  exact ⟨n, _, u, q, hreached, hok, hwrote, htime⟩

end Node
end CouncilLedger
