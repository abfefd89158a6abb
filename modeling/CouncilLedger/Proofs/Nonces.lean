import CouncilLedger.Proofs.Conservation
import CouncilLedger.Proofs.Durability

/-!
# Nonces

The nonces of the transactions of a sender count up from zero, in the order in
which they were committed, and the next one is their number. They are words, so
that this is exact as long as there are no more transactions than words. Up to
there no two transactions share sender and nonce, and a block that would bring
in such a pair is refused. The invariant is `Ledger.Numbered`; the main
statement is `Node.nonces_count_and_forbid_replay`.
-/

namespace CouncilLedger

/-! ## The transactions of a sender -/

namespace Transaction

/-- The transactions of a sender. -/
def sentBy (ts : List Transaction) (a : String) : List Transaction :=
  ts.filter (·.sender = a)

/-- What a transaction uses up: a nonce of its sender. -/
def slot (t : Transaction) : String × UInt64 := (t.sender, t.nonce)

theorem sentBy_snoc (ts : List Transaction) (t : Transaction) (a : String) :
    sentBy (ts ++ [t]) a =
      if a = t.sender then sentBy ts a ++ [t] else sentBy ts a := by
  rw [sentBy, List.filter_append, List.filter_singleton]
  by_cases h : a = t.sender
  · simp [h, sentBy]
  · simp [h, Ne.symm h, sentBy]

theorem length_sentBy_le (ts : List Transaction) (a : String) :
    (sentBy ts a).length ≤ ts.length :=
  List.length_filter_le _ _

/-- Where no sender uses a nonce twice, no two transactions use up the same. -/
theorem nodup_slots {ts : List Transaction}
    (h : ∀ a, ((sentBy ts a).map (·.nonce)).Nodup) : (ts.map slot).Nodup := by
  rw [List.Nodup, List.pairwise_map, List.pairwise_iff_getElem]
  intro i j hi hj hij heq
  have hapart := h ts[j].sender
  rw [List.Nodup, List.pairwise_map, sentBy, List.pairwise_filter,
    List.pairwise_iff_getElem] at hapart
  exact hapart i j hi hj hij (decide_eq_true (congrArg Prod.fst heq))
    (decide_eq_true rfl) (congrArg Prod.snd heq)

end Transaction

/-! ## Counting -/

namespace Ledger

open Transaction (sentBy length_sentBy_le)

/-- The nonces of every sender are those of some transactions, counted from
zero. -/
structure Numbered (l : Ledger) (ts : List Transaction) : Prop where
  nonces : ∀ a, (sentBy ts a).map (·.nonce) =
    (List.range (sentBy ts a).length).map UInt64.ofNat
  next : ∀ a, l.accounts.nonce a = UInt64.ofNat (sentBy ts a).length

variable {l l' : Ledger} {ts : List Transaction} {t : Transaction}
    {height now : UInt64}

theorem nonce_withNonceUsed (l : Ledger) (sender a : String) :
    (l.withNonceUsed sender).accounts.nonce a =
      if a = sender then l.accounts.nonce sender + 1 else l.accounts.nonce a :=
  SortedMap.getD_insert _ _ _ _ _

/-- A nonce is used up before the action, which uses up no other. -/
theorem Acted.nonces (h : Acted height now l t l') :
    l'.accounts.nonces = l.accounts.nonces := by
  have hmove :
      ∀ {sender recipient : String} {amount : Amount} {accounts : Accounts},
        l.accounts.move sender recipient amount = .ok accounts →
        accounts.nonces = l.accounts.nonces := by
    intro sender recipient amount accounts hok
    obtain ⟨-, -, ⟨-, rfl⟩ | ⟨-, credited, -, rfl⟩⟩ :=
      Accounts.move_ok hok <;> rfl
  cases h with
  | mint _ _ _ _ ok =>
    obtain ⟨-, supply, credited, -, -, rfl⟩ := Accounts.mint_ok ok
    rfl
  | transfer _ _ _ _ ok => exact hmove (Accounts.transfer_ok ok).2.2
  | payOut _ _ _ _ _ _ ok => exact hmove (Accounts.payOut_ok ok).2
  | propose | vote | delegate | revoke => rfl

namespace Numbered

theorem start (rules : Rules) : (Chain.empty rules).ledger.Numbered [] :=
  ⟨fun _ => rfl, fun _ => rfl⟩

theorem settle (h : l.Numbered ts) (now : UInt64) :
    (l.settle now).Numbered ts :=
  ⟨h.nonces, h.next⟩

/-- **A transaction takes the next number of its sender**, and no other
changes. -/
theorem apply (h : l.Numbered ts) (hok : Ledger.apply height now l t = .ok l') :
    l'.Numbered (ts ++ [t]) := by
  obtain ⟨hnonce, hact⟩ := apply_ok hok
  have hnext : ∀ a, l'.accounts.nonce a = if a = t.sender then
      l.accounts.nonce t.sender + 1 else l.accounts.nonce a := by
    intro a
    rw [← nonce_withNonceUsed, Accounts.nonce, hact.nonces, Accounts.nonce]
  refine ⟨fun a => ?_, fun a => ?_⟩
  · rw [Transaction.sentBy_snoc]
    split
    · next heq =>
      rw [List.map_append, h.nonces, List.length_append, List.length_singleton,
        List.range_succ, List.map_append, List.map_singleton,
        List.map_singleton, hnonce, ← heq, h.next]
    · exact h.nonces a
  · rw [hnext, Transaction.sentBy_snoc]
    split
    · next heq =>
      rw [← heq, h.next, List.length_append, List.length_singleton,
        UInt64.ofNat_add]
      rfl
    · exact h.next a

theorem applyBlock (h : l.Numbered ts) {b : Block}
    (hok : l.applyBlock b = .ok l') : l'.Numbered (ts ++ b.transactions) :=
  applyBlock_append_induction (P := fun ts l => l.Numbered ts) hok h
    (fun _ _ hm => hm.settle _) fun _ _ _ _ _ hm hstep => hm.apply hstep

/-! ### While there are nonces left -/

theorem toNat_nonces (h : l.Numbered ts) (hfits : ts.length ≤ UInt64.size)
    (a : String) :
    (sentBy ts a).map (·.nonce.toNat) = List.range (sentBy ts a).length := by
  have hword :
      ∀ i ∈ List.range (sentBy ts a).length,
        (UInt64.toNat ∘ UInt64.ofNat) i = i := by
    intro i hi
    have hlength := length_sentBy_le ts a
    exact UInt64.toNat_ofNat_of_lt' (by rw [List.mem_range] at hi; omega)
  have hmap := congrArg (List.map UInt64.toNat) (h.nonces a)
  rwa [List.map_map, List.map_map, List.map_congr_left hword,
    List.map_id'] at hmap

theorem toNat_next (h : l.Numbered ts) (hfits : ts.length < UInt64.size)
    (a : String) : (l.accounts.nonce a).toNat = (sentBy ts a).length := by
  rw [h.next]
  exact UInt64.toNat_ofNat_of_lt'
    (Nat.lt_of_le_of_lt (length_sentBy_le ts a) hfits)

/-- No nonce is used twice. -/
theorem nodup_slots (h : l.Numbered ts) (hfits : ts.length ≤ UInt64.size) :
    (ts.map Transaction.slot).Nodup := by
  refine Transaction.nodup_slots fun a => List.Nodup.of_map UInt64.toNat ?_
  rw [List.map_map]
  exact (h.toNat_nonces hfits a).symm ▸ List.nodup_range

end Numbered
end Ledger

theorem Chain.numbered_of_ofBlocks {rules : Rules} {blocks : List Block}
    {c : Chain} (h : ofBlocks rules blocks = .ok c) :
    c.ledger.Numbered (blocks.flatMap (·.transactions)) :=
  ofBlocks_transactions_induction (P := fun ts l => l.Numbered ts) h
    (.start rules) fun _ _ _ _ hl hblock => hl.applyBlock hblock

/-! ## Replays -/

namespace Node

open Transaction (sentBy slot)

variable {config : Config} {n next : Node} {blocks : List Block}

namespace Tracks

theorem numbered (h : n.Tracks config blocks) :
    n.chain.ledger.Numbered n.chain.transactions := by
  rw [h.transactions_eq]
  exact Chain.numbered_of_ofBlocks h.history

/-- No block commits that uses up a nonce again. -/
theorem exists_commit_error (h : n.Tracks config blocks) (hne : blocks ≠ [])
    {b : Block}
    (hfits : n.chain.transactions.length + b.transactions.length ≤ UInt64.size)
    (hagain : ¬ ((n.chain.transactions ++ b.transactions).map slot).Nodup)
    (m : Moment) : ∃ r, n.commit m b = (.error r, n) := by
  cases hcommit : (n.commit m b).1 with
  | error r => exact ⟨r, h.commit_refused hne hcommit⟩
  | ok u =>
    have hwhole : n.commit m b = (.ok (), (n.commit m b).2) :=
      Prod.ext hcommit rfl
    have happended := h.transactions_commit hwhole
    obtain ⟨-, -, -, -, hnext⟩ := h.of_commit_eq_ok hwhole
    have hslots :=
      hnext.numbered.nodup_slots (by rwa [happended, List.length_append])
    rw [happended] at hslots
    exact absurd hslots hagain

end Tracks

/-- **Nonces number the transactions of each sender and forbid replay.** Of
every sender the committed transactions carry the nonces from zero on, and the
next nonce is their number; a block or write that is refused changes nothing. So
a block with a transaction of the same sender and nonce as one that was
committed at any earlier point, or with two such transactions, is refused and
changes nothing, unless it goes beyond the number of nonces there are. -/
theorem nonces_count_and_forbid_replay (h : n.Reachable config)
    (hfits : n.chain.transactions.length < UInt64.size) :
    (∀ a,
        (sentBy n.chain.transactions a).map (·.nonce.toNat) =
          List.range (sentBy n.chain.transactions a).length ∧
        (n.chain.accounts.nonce a).toNat =
          (sentBy n.chain.transactions a).length) ∧
      (∀ m b r, (n.commit m b).1 = .error r → n.commit m b = (.error r, n)) ∧
      (∀ m sender action r, (n.submit m sender action).1 = .error r →
        n.submit m sender action = (.error r, n)) ∧
      (∀ m r, (n.tick m).1 = .error r → n.tick m = (.error r, n)) ∧
      ∀ later, Run config n later →
        ∀ b : Block,
          later.chain.transactions.length + b.transactions.length ≤
            UInt64.size →
          ((∃ t ∈ b.transactions, ∃ u ∈ n.chain.transactions,
              t.sender = u.sender ∧ t.nonce = u.nonce) ∨
            ¬ (b.transactions.map slot).Nodup) →
          ∀ m, ∃ r, later.commit m b = (.error r, later) := by
  obtain ⟨rest, htracks⟩ := h.tracks
  have hne : config.genesisBlock :: rest ≠ [] := List.cons_ne_nil _ _
  have hnumbered := htracks.numbered
  refine ⟨fun a => ⟨hnumbered.toNat_nonces hfits.le a,
      hnumbered.toNat_next hfits a⟩,
    fun _ _ _ => htracks.commit_refused hne,
    fun _ _ _ _ => htracks.submit_refused hne,
    fun _ _ => htracks.tick_refused hne, ?_⟩
  intro later hrun b hroom hagain m
  obtain ⟨more, hlater⟩ := htracks.run hne hrun
  refine hlater.exists_commit_error (by simp) hroom ?_ m
  rw [List.map_append, List.nodup_append]
  rintro ⟨-, hblock, hapart⟩
  rcases hagain with ⟨t, ht, u, hu, hsender, hnonce⟩ | htwice
  · -- what was committed earlier still is
    have hkept := htracks.mem_transactions_run hne hrun hu
    exact hapart _ (List.mem_map_of_mem hkept) _ (List.mem_map_of_mem ht)
      (Prod.ext hsender.symm hnonce.symm)
  · exact htwice hblock

/-- After the block with the first vote, no block takes in the second
transaction of "ada" again. -/
theorem nonces_count_and_forbid_replay_voted :
    ∃ n, Reachable .twoHolders n ∧
      (∃ u ∈ n.chain.transactions, u.sender = "ada" ∧ u.nonce = 1) ∧
      ∀ b, (b.transactions.map slot).length < 1000 →
        ("ada", 1) ∈ b.transactions.map slot →
        ∀ m, ∃ r, n.commit m b = (.error r, n) := by
  obtain ⟨n, -, hn, -, -, htracks, -⟩ := exists_firstVote
  have htransactions :
      n.chain.transactions =
        Config.twoHolders.genesisBlock.transactions ++
          (Block.firstVote
            (some Config.twoHolders.genesisBlock.hash)).transactions := by
    rw [htracks.transactions_eq]
    simp
  have hfive : n.chain.transactions.length = 5 := by
    rw [htransactions]
    rfl
  obtain ⟨u, hu, hada, hone⟩ : ∃ u ∈ n.chain.transactions, u.sender = "ada" ∧
    u.nonce = 1 := by
    rw [htransactions]
    exact ⟨_, List.mem_append_right _ (.tail _ (.tail _ (.head _))), rfl, rfl⟩
  refine ⟨n, hn, ⟨u, hu, hada, hone⟩, fun b hsmall hagain m => ?_⟩
  obtain ⟨t, ht, hslot⟩ := List.mem_map.mp hagain
  rw [List.length_map] at hsmall
  have hsize : UInt64.size = 2 ^ 64 := rfl
  exact (nonces_count_and_forbid_replay hn (by omega)).2.2.2.2 n
    .refl b (by omega)
    (.inl ⟨t, ht, u, hu, (congrArg Prod.fst hslot).trans hada.symm,
      (congrArg Prod.snd hslot).trans hone.symm⟩) m

end Node
end CouncilLedger
