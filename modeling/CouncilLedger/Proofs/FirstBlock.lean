import CouncilLedger.Proofs.Writes

/-!
# The first block

The check of a configuration and the checks of its first block are two sets of
rules. Here the first is shown to be enough for the second: amounts that add up
to a word are minted one after the other under distinct names and in the order
of their numbers, so the block commits to an empty chain, and every account
starts with all that is allotted to it. The main statement is
`Node.valid_config_founds_chain`.
-/

namespace CouncilLedger

open Outcome

/-! ## What the check of a configuration says -/

/-- Tokens that can be minted on an empty chain. -/
structure Issuable (ms : List Allocation) : Prop where
  address : ∀ a ∈ ms, Address.check a.address = .ok ()
  positive : ∀ a ∈ ms, a.amount ≠ 0
  total : (ms.map (·.amount.toNat)).sum < UInt64.size

/-- There are no more mints than tokens. -/
theorem Issuable.length_lt {ms : List Allocation} (h : Issuable ms) :
    ms.length < UInt64.size := by
  have hlength : (ms.map fun _ => 1).sum ≤ (ms.map (·.amount.toNat)).sum := by
    refine List.sum_le_sum fun a ha => Nat.one_le_iff_ne_zero.mpr fun hzero => ?_
    exact h.positive a ha (UInt64.toNat_inj.mp hzero)
  rw [List.map_const', List.sum_replicate_nat, Nat.mul_one] at hlength
  exact Nat.lt_of_le_of_lt hlength h.total

theorem Address.check_treasury : check treasury = .ok () := by decide

namespace Config

variable {config : Config}

theorem addAllocation_ok {supply total : Amount} {a : Allocation}
    (h : addAllocation supply a = .ok total) :
    Address.check a.address = .ok () ∧ Address.isReserved a.address = false ∧
      a.amount ≠ 0 ∧ total.toNat = supply.toNat + a.amount.toNat := by
  unfold addAllocation at h
  split at h
  · cases h
  · next haddress =>
    simp only [guard_eq_ok, Bool.not_eq_true] at h
    obtain ⟨hunreserved, hpositive, h⟩ := h
    split at h
    · cases h
    · next sum hsum =>
      cases h
      exact ⟨haddress, hunreserved, hpositive, Amount.toNat_of_add? hsum⟩

/-- Allocations that are all accepted. -/
theorem foldlM_addAllocation_ok {supply total : Amount}
    {allocations : List Allocation}
    (h : allocations.foldlM addAllocation supply = .ok total) :
    total.toNat = supply.toNat + (allocations.map (·.amount.toNat)).sum ∧
      ∀ a ∈ allocations, Address.check a.address = .ok () ∧
        Address.isReserved a.address = false ∧ a.amount ≠ 0 := by
  induction allocations generalizing supply with
  | nil => exact ⟨congrArg UInt64.toNat (pure_eq_ok.mp h).symm, nofun⟩
  | cons a rest ih =>
    obtain ⟨next, hnext, hrest⟩ := foldlM_cons_eq_ok.mp h
    obtain ⟨haddress, hunreserved, hpositive, hsum⟩ := addAllocation_ok hnext
    obtain ⟨htotal, hothers⟩ := ih hrest
    refine ⟨?_,
      List.forall_mem_cons.mpr ⟨⟨haddress, hunreserved, hpositive⟩, hothers⟩⟩
    rw [htotal, hsum, List.map_cons, List.sum_cons, Nat.add_assoc]

theorem check_eq_ok :
    config.check = .ok () ↔ ¬ 100 < config.rules.quorumPercent ∧
      ¬ config.rules.maxDuration = 0 ∧
      checkSender config.chain.defaultSender = .ok () ∧
      ∃ total,
        config.allocations.foldlM addAllocation config.treasury =
          .ok total := by
  simp only [check, throw_bind, guard_eq_ok, bind_eq_ok, pure_eq_ok, and_true,
    Unique.exists_iff]

theorem sum_mints (config : Config) (f : Allocation → Nat) :
    (config.mints.map f).sum =
      (config.allocations.map f).sum +
        if config.treasury = 0 then 0
        else f ⟨Address.treasury, config.treasury⟩ := by
  rw [mints, List.map_append, List.sum_append]
  split <;> simp

/-- **A valid configuration mints what can be minted.** -/
theorem issuable_mints (h : config.check = .ok ()) : Issuable config.mints := by
  obtain ⟨-, -, -, total, hfold⟩ := check_eq_ok.mp h
  obtain ⟨htotal, hall⟩ := foldlM_addAllocation_ok hfold
  have hmem : ∀ a ∈ config.mints, a ∈ config.allocations ∨
      config.treasury ≠ 0 ∧ a = ⟨Address.treasury, config.treasury⟩ := by
    intro a ha
    rcases List.mem_append.mp ha with ha | ha
    · exact .inl ha
    · split at ha
      · cases ha
      · next hsome => exact .inr ⟨hsome, List.mem_singleton.mp ha⟩
  refine ⟨?_, ?_, ?_⟩
  · intro a ha
    rcases hmem a ha with ha | ⟨-, rfl⟩
    · exact (hall a ha).1
    · exact Address.check_treasury
  · intro a ha
    rcases hmem a ha with ha | ⟨hsome, rfl⟩
    · exact (hall a ha).2.2
    · exact hsome
  · have hbound := total.toNat_lt
    rw [sum_mints]
    split
    · simp only [UInt64.size]
      omega
    · simp only [UInt64.size]
      omega

end Config

/-! ## Minting -/

/-- A mint fits where the balances add up to the supply and the supply has room
for it. -/
theorem Accounts.exists_mint {a : Accounts} (htotal : a.total = a.supply.toNat)
    (recipient : String) {amount : Amount} (hpositive : amount ≠ 0)
    (hroom : a.supply.toNat + amount.toNat < 2 ^ 64) :
    ∃ a', a.mint recipient amount = .ok a' := by
  have hheld := a.balance_le_total recipient
  have hcredited : (a.balance recipient).toNat + amount.toNat < 2 ^ 64 := by
    omega
  rw [mint, if_neg hpositive, Amount.add?_eq_some hroom,
    Amount.add?_eq_some hcredited]
  exact ⟨_, rfl⟩

/-- The transaction of a mint of some number in the block `hash`. -/
def Allocation.minting (hash : Digest) (timestamp : UInt64)
    (m : Allocation × Nat) : Transaction :=
  { Config.mintTransaction timestamp m.1 m.2 with blockHash := hash }

/-- Mints that are numbered on from the next nonce are applied one after the
other. -/
theorem Ledger.exists_foldlM_minting {ms : List Allocation} (hash : Digest)
    (timestamp : UInt64) (haddress : ∀ a ∈ ms, Address.check a.address = .ok ())
    (hpositive : ∀ a ∈ ms, a.amount ≠ 0) {l : Ledger} {k : Nat}
    (hnonce : l.accounts.nonce Address.genesis = UInt64.ofNat k)
    (htotal : l.accounts.total = l.accounts.supply.toNat)
    (hroom : l.accounts.supply.toNat + (ms.map (·.amount.toNat)).sum < 2 ^ 64) :
    ∃ l',
      ((ms.zipIdx k).map (Allocation.minting hash timestamp)).foldlM
          (apply 0 timestamp) l =
        .ok l' := by
  -- each mint uses up the nonce `k` and takes its amount out of the room that
  -- is left
  induction ms generalizing l k with
  | nil => exact ⟨l, rfl⟩
  | cons a rest ih =>
    rw [List.forall_mem_cons] at haddress hpositive
    rw [List.map_cons, List.sum_cons] at hroom
    obtain ⟨accounts, hmint⟩ := Accounts.exists_mint (a :=
        (l.withNonceUsed Address.genesis).accounts) htotal a.address hpositive.1
      (by simp only [withNonceUsed]; omega)
    obtain ⟨-, htotal', hsupply'⟩ := Accounts.mint_effect hmint
    have hstep :
        apply 0 timestamp l (Allocation.minting hash timestamp (a, k)) =
          .ok { l with accounts } := by
      have huse : l.accounts.useNonce Address.genesis (UInt64.ofNat k) =
          .ok (l.withNonceUsed Address.genesis).accounts := if_pos hnonce.symm
      refine bind_eq_ok.mpr ⟨_, huse, act_of_acted ?_⟩
      exact .mint rfl rfl rfl haddress.1 hmint
    have hnonce' : accounts.nonce Address.genesis = UInt64.ofNat (k + 1) := by
      obtain ⟨-, supply, credited, -, -, rfl⟩ := Accounts.mint_ok hmint
      show (l.withNonceUsed Address.genesis).accounts.nonce Address.genesis = _
      rw [nonce_withNonceUsed, if_pos rfl, hnonce, UInt64.ofNat_add]
      rfl
    obtain ⟨l', hrest⟩ :=
      ih haddress.2 hpositive.2 (l := { l with accounts }) hnonce'
      (by rw [htotal', hsupply']; exact congrArg (· + a.amount.toNat) htotal)
      (by simp only [hsupply', withNonceUsed]; omega)
    refine ⟨l', ?_⟩
    rw [List.zipIdx_cons, List.map_cons, foldlM_cons_eq_ok]
    exact ⟨_, hstep, hrest⟩

/-! ## The block -/

/-- Transactions under new and distinct names can be added. -/
theorem Archive.checkTransactions_eq_ok {a : Archive} {block : Digest}
    {seen : List Digest} {ts : List Transaction}
    (hnodup : (ts.map (·.hash)).Nodup)
    (hnew : ∀ t ∈ ts, t.hash ≠ block ∧ a.contains t.hash = false ∧
      t.hash ∉ seen) : a.checkTransactions block seen ts = .ok () := by
  induction ts generalizing seen with
  | nil => rfl
  | cons t rest ih =>
    obtain ⟨hfirst, hrest⟩ := List.nodup_cons.mp hnodup
    rw [List.forall_mem_cons] at hnew
    obtain ⟨⟨hblock, hunknown, hunseen⟩, hothers⟩ := hnew
    rw [checkTransactions, guard_eq_ok]
    refine ⟨by simp [hblock, hunknown, hunseen], ih hrest fun u hu => ?_⟩
    obtain ⟨hublock, huunknown, huunseen⟩ := hothers u hu
    refine ⟨hublock, huunknown, fun hmem => ?_⟩
    rcases List.mem_cons.mp hmem with heq | hmem
    · exact hfirst (List.mem_map.mpr ⟨u, hu, heq⟩)
    · exact huunseen hmem

namespace Config

variable {config : Config}

theorem transactions_genesisBlock (config : Config) :
    config.genesisBlock.transactions =
      config.mints.zipIdx.map (Allocation.minting config.genesisBlock.hash
        config.chain.genesisTimestamp) :=
  List.map_map

theorem check_genesisBlock (config : Config) :
    config.genesisBlock.check = .ok () := by
  rw [config.isMade_genesisBlock.check_eq]
  rfl

/-- The transactions of the first block are told apart by their numbers. -/
theorem nodup_hashes_genesisBlock (hvalid : config.check = .ok ())
    (hfree : Digest.CollisionFree config.genesisBlock.namedBytes) :
    (config.genesisBlock.transactions.map (·.hash)).Nodup := by
  have hlength := (issuable_mints hvalid).length_lt
  have hmem :
      ∀ m ∈ config.mints.zipIdx,
        (Allocation.minting config.genesisBlock.hash
            config.chain.genesisTimestamp m).bytes ∈
          config.genesisBlock.namedBytes := by
    intro m hm
    refine List.mem_cons_of_mem _ (List.mem_map_of_mem ?_)
    rw [transactions_genesisBlock]
    exact List.mem_map_of_mem hm
  have hdistinct : config.mints.zipIdx.Nodup := by
    refine List.Nodup.of_map Prod.snd ?_
    rw [List.zipIdx_map_snd]
    exact List.nodup_range'
  rw [transactions_genesisBlock, List.map_map]
  refine hdistinct.map_on ?_
  rintro ⟨a, i⟩ hi ⟨b, j⟩ hj heq
  -- one name means the same bytes, and these hold the number of the mint as a
  -- word
  have hbytes := hfree.eq (hmem _ hi) (hmem _ hj) heq
  have hfits : Encoding.LengthFits Address.genesis := by decide
  obtain ⟨-, hnonce, -⟩ := Transaction.sender_nonce_of_bytes hfits hfits hbytes
  rw [List.mem_zipIdx_iff_getElem?] at hi hj
  have hword : ∀ k c, config.mints[k]? = some c →
      k < UInt64.size := fun k c hk =>
    Nat.lt_trans (List.getElem?_eq_some_iff.mp hk).1 hlength
  have hij : i = j := by
    have htoNat := congrArg UInt64.toNat hnonce
    change (UInt64.ofNat i).toNat = (UInt64.ofNat j).toNat at htoNat
    rwa [UInt64.toNat_ofNat_of_lt' (hword i a hi),
      UInt64.toNat_ofNat_of_lt' (hword j b hj)] at htoNat
  subst hij
  rw [show a = b from Option.some.inj (hi.symm.trans hj)]

/-- **The first block of a valid configuration is valid on an empty chain.** -/
theorem exists_validate_genesisBlock (hvalid : config.check = .ok ())
    (hfree : Digest.CollisionFree config.genesisBlock.namedBytes) :
    ∃ after,
      (Chain.empty config.rules).validate config.genesisBlock = .ok after := by
  have hissuable := issuable_mints hvalid
  have hcheck := config.check_genesisBlock
  have hnew :
      ∀ t ∈ config.genesisBlock.transactions,
        t.hash ≠ config.genesisBlock.hash ∧
        Archive.empty.contains t.hash = false ∧ t.hash ∉ [] := by
    obtain ⟨hblock, hts⟩ := Block.exists_bytes_of_check hcheck
    intro t ht
    refine ⟨fun heq => ?_, rfl, List.not_mem_nil⟩
    rw [← hts t ht, ← hblock] at heq
    have hbytes := hfree.eq (List.mem_cons_of_mem _ (List.mem_map_of_mem ht))
      List.mem_cons_self heq
    exact config.genesisBlock.bytes_ne_transaction t hbytes
  have harchive : Archive.empty.check config.genesisBlock = .ok () :=
    Archive.check_eq_ok.mpr ⟨rfl, rfl, Archive.checkTransactions_eq_ok
      (nodup_hashes_genesisBlock hvalid hfree) hnew⟩
  obtain ⟨l, hfold⟩ := Ledger.exists_foldlM_minting config.genesisBlock.hash
    config.chain.genesisTimestamp hissuable.address hissuable.positive
    (l := (Chain.empty config.rules).ledger.settle
      config.chain.genesisTimestamp) (k := 0) rfl rfl
    (by
      rw [show UInt64.toNat _ = 0 from rfl, Nat.zero_add]
      exact hissuable.total)
  rw [← transactions_genesisBlock] at hfold
  refine ⟨l.settle config.chain.genesisTimestamp, ?_⟩
  refine bind_eq_ok.mpr
    ⟨(), hcheck, bind_eq_ok.mpr ⟨(), rfl, bind_eq_ok.mpr ⟨(), harchive, ?_⟩⟩⟩
  exact bind_eq_ok.mpr ⟨l, hfold, rfl⟩

/-! ## What the accounts start with -/

/-- All that is allotted to an account. -/
def allotted (config : Config) (address : String) : Nat :=
  (config.allocations.map fun a => if a.address = address then
    a.amount.toNat else 0).sum

theorem allotted_of_unlisted {address : String}
    (h : ∀ a ∈ config.allocations, a.address ≠ address) :
    config.allotted address = 0 := by
  rw [allotted, List.map_congr_left fun a ha => if_neg (h a ha), List.map_const',
    List.sum_replicate_nat, Nat.mul_zero]

theorem allotted_treasury (hvalid : config.check = .ok ()) :
    config.allotted Address.treasury = 0 := by
  obtain ⟨-, -, -, _, hfold⟩ := check_eq_ok.mp hvalid
  refine allotted_of_unlisted fun a ha heq => ?_
  have hunreserved := ((foldlM_addAllocation_ok hfold).2 a ha).2.1
  rw [heq] at hunreserved
  cases hunreserved

theorem received_genesisBlock (config : Config) (address : String) :
    Transaction.received config.genesisBlock.transactions address =
      config.allotted address +
        if address = Address.treasury then config.treasury.toNat else 0 := by
  have hmints : Transaction.received config.genesisBlock.transactions address =
      (config.mints.map fun a => if a.address = address then
        a.amount.toNat else 0).sum :=
    config.sum_genesisBlock fun t a action => by rw [Transaction.credit, action]
  rw [hmints, sum_mints]
  refine congrArg (config.allotted address + ·) ?_
  split
  · next hnone => simp [hnone]
  · exact if_congr eq_comm rfl rfl

theorem spent_genesisBlock (config : Config) (address : String) :
    Transaction.spent config.genesisBlock.transactions address = 0 := by
  have hmints : Transaction.spent config.genesisBlock.transactions address =
      (config.mints.map fun _ => 0).sum :=
    config.sum_genesisBlock fun t a action => by rw [Transaction.debit, action]
  rw [hmints, List.map_const', List.sum_replicate_nat, Nat.mul_zero]

end Config

namespace Node

variable {config : Config}

/-- What every account holds behind the first block. -/
theorem Tracks.balance_of_first {n : Node}
    (h : n.Tracks config [config.genesisBlock]) (address : String) :
    (n.chain.accounts.balance address).toNat =
      config.allotted address +
        if address = Address.treasury then config.treasury.toNat else 0 := by
  have hbalance := h.balanced.balance address
  rw [h.transactions_eq, List.flatMap_singleton, config.spent_genesisBlock,
    config.received_genesisBlock] at hbalance
  exact hbalance

/-- **A valid configuration founds a chain**: its first block passes its check
and commits to a new chain in memory, which is then at height zero. Every
account holds the sum of what is allotted to it, the treasury what it starts
with, an account that is not named nothing, and the supply is the sum of all
this. -/
theorem valid_config_founds_chain (hvalid : config.check = .ok ())
    (hfree : Digest.CollisionFree config.genesisBlock.namedBytes) (m : Moment) :
    config.genesisBlock.check = .ok () ∧ ∃ n, inMemory config m = .ok n ∧
      n.chain.blocks = [config.genesisBlock] ∧ n.chain.height = 0 ∧
      (∀ a ≠ Address.treasury,
        (n.chain.accounts.balance a).toNat = config.allotted a) ∧
      n.chain.accounts.balance Address.treasury = config.treasury ∧
      (∀ a ≠ Address.treasury, (∀ m ∈ config.allocations, m.address ≠ a) →
        n.chain.accounts.balance a = 0) ∧
      n.chain.accounts.supply.toNat =
        config.treasury.toNat +
          (config.allocations.map (·.amount.toNat)).sum := by
  obtain ⟨after, hafter⟩ := Config.exists_validate_genesisBlock hvalid hfree
  have hempty : (empty config none).Tracks config [] := tracks_empty nofun
  obtain ⟨n, hcommit, -, -, htracks⟩ :=
    hempty.exists_commit hafter (.inl rfl) (m := m)
  have hothers : ∀ a ≠ Address.treasury,
      (n.chain.accounts.balance a).toNat = config.allotted a := by
    intro a ha
    rw [htracks.balance_of_first, if_neg ha, Nat.add_zero]
  refine ⟨config.check_genesisBlock, n, afterSuccess_eq_ok.mpr hcommit,
    htracks.blocks_eq, ?_, hothers, ?_, ?_, ?_⟩
  · have hlength := htracks.records.length_eq (by simp)
    exact UInt64.toNat_inj.mp (Nat.succ.inj hlength).symm
  · have htreasury := htracks.balance_of_first Address.treasury
    rw [Config.allotted_treasury hvalid, if_pos rfl, Nat.zero_add] at htreasury
    exact UInt64.toNat_inj.mp htreasury
  · intro a ha hunlisted
    exact UInt64.toNat_inj.mp
      ((hothers a ha).trans (Config.allotted_of_unlisted hunlisted))
  · rw [htracks.supply, config.sum_mints, Nat.add_comm]
    congr 1
    split
    · next hnone => rw [hnone]; rfl
    · rfl

end Node

/-- An account that is named twice, before and behind another. -/
def Config.namedTwice : Config :=
  { treasury := 10, allocations := [⟨"ada", 5⟩, ⟨"ben", 3⟩, ⟨"ada", 2⟩] }

/-- An account that is named twice starts with both amounts. -/
theorem Node.valid_config_founds_chain_twice :
    ∃ n, inMemory .namedTwice ⟨0, true⟩ = .ok n ∧
      (n.chain.accounts.balance "ada").toNat = 5 + 2 ∧
      n.chain.accounts.balance "carl" = 0 ∧
      n.chain.accounts.supply.toNat = 20 := by
  have hvalid : Config.namedTwice.check = .ok () := by decide
  have hfree :
      Digest.CollisionFree Config.namedTwice.genesisBlock.namedBytes := by
    apply Digest.collisionFree_of_nodup
    decide +kernel
  obtain ⟨-, n, hn, -, -, hallotted, -, hunlisted, hsupply⟩ :=
    valid_config_founds_chain hvalid hfree ⟨0, true⟩
  exact ⟨n, hn, hallotted "ada" (by decide), hunlisted "carl" (by decide)
    (by decide), hsupply⟩

end CouncilLedger
