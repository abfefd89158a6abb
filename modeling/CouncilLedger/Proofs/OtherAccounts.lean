import CouncilLedger.Proofs.Lending
import CouncilLedger.Proofs.Nonces
import CouncilLedger.Proofs.Proposals

/-!
# Accounts that send nothing

A block may name an account that sends none of its transactions: tokens and
payouts go to it, power is lent to it, and its own power may stand behind the
vote of another. It loses nothing by that. `Ledger.Spares` says what a step
keeps for the account; settlement keeps it for all, and a transaction for all
but its sender and the treasury. The main statement is
`Chain.nobody_acts_for_another`.
-/

namespace CouncilLedger

open Outcome

/-! ## One step -/

namespace Accounts

/-- A move takes from its sender only. -/
theorem balance_le_of_move {a a' : Accounts} {sender recipient q : String}
    {amount : Amount} (h : a.move sender recipient amount = .ok a')
    (hq : sender ≠ q) : a.balance q ≤ a'.balance q := by
  have hmoved := (move_effect h).1 q
  rw [if_neg hq, Nat.add_zero] at hmoved
  rw [UInt64.le_iff_toNat_le, hmoved]
  exact Nat.le_add_right _ _

end Accounts

namespace Delegations

/-- A transaction changes the delegation of its sender only. -/
theorem Becomes.get?_of_ne {ds ds' : Delegations} {now : UInt64}
    {t : Transaction} {a : String} (h : ds.Becomes now t ds')
    (ha : t.sender ≠ a) : ds'.get? a = ds.get? a := by
  cases h with
  | same => rfl
  | lent => exact SortedMap.get?_insert_of_ne _ ha.symm _
  | revoked => exact SortedMap.get?_insert_of_ne _ ha.symm _

end Delegations

/-- What became of a proposal without a vote of an account. -/
structure Proposal.WithoutVoteOf (a : String) (p q : Proposal) : Prop where
  id : q.id = p.id
  creator : q.creator = p.creator
  votes : ∀ v ∈ q.votes.values, v.voter = a → v ∈ p.votes.values

/-- Each proposal is one from before without a vote of an account, or the
account has no part in it. -/
def Council.WithoutPartOf (a : String) (before after : List Proposal) : Prop :=
  ∀ q ∈ after, (∃ p ∈ before, p.WithoutVoteOf a q) ∨
    q.creator ≠ a ∧ ∀ v ∈ q.votes.values, v.voter ≠ a

/-- What a ledger keeps for an account. -/
structure Ledger.Spares (a : String) (l l' : Ledger) : Prop where
  balance : l.accounts.balance a ≤ l'.accounts.balance a
  nonce : l'.accounts.nonces.get? a = l.accounts.nonces.get? a
  delegation : l'.council.delegations.get? a = l.council.delegations.get? a
  /-- No new proposal is of the account, and no new vote. -/
  proposals : Council.WithoutPartOf a l.council.proposals l'.council.proposals

namespace Ledger

variable {a : String} {l m l' : Ledger} {t : Transaction} {height now : UInt64}

namespace Spares

theorem refl (a : String) (l : Ledger) : l.Spares a l :=
  ⟨UInt64.le_refl _, rfl, rfl, fun q hq =>
    .inl ⟨q, hq, rfl, rfl, fun _ hv _ => hv⟩⟩

theorem trans (h : l.Spares a m) (h' : m.Spares a l') : l.Spares a l' where
  balance := UInt64.le_trans h.balance h'.balance
  nonce := h'.nonce.trans h.nonce
  delegation := h'.delegation.trans h.delegation
  proposals := by
    intro r hr
    rcases h'.proposals r hr with ⟨q, hq, hqr⟩ | hr
    · rcases h.proposals q hq with ⟨p, hp, hpq⟩ | ⟨hcreator, hvotes⟩
      · refine .inl ⟨p, hp, hqr.id.trans hpq.id,
          hqr.creator.trans hpq.creator, ?_⟩
        exact fun v hv hvoter => hpq.votes v (hqr.votes v hv hvoter) hvoter
      · refine .inr ⟨hqr.creator ▸ hcreator, ?_⟩
        exact fun v hv hvoter => hvotes v (hqr.votes v hv hvoter) hvoter
    · exact .inr hr

end Spares

/-- Settlement records statuses and nothing else. -/
theorem settle_spares (a : String) (l : Ledger) (now : UInt64) :
    l.Spares a (l.settle now) where
  balance := UInt64.le_refl _
  nonce := rfl
  delegation := rfl
  proposals := by
    intro q hq
    obtain ⟨p, hp, rfl⟩ := List.mem_map.mp hq
    exact .inl ⟨p, hp, rfl, rfl, fun _ hv _ => hv⟩

/-- Tokens are taken from the sender of a transfer, and from the treasury by a
payout. -/
theorem Acted.balance_le (hact : Acted height now l t l')
    (hsender : t.sender ≠ a) (htreasury : a ≠ Address.treasury) :
    l.accounts.balance a ≤ l'.accounts.balance a := by
  cases hact with
  | mint _ _ _ _ ok =>
    rw [UInt64.le_iff_toNat_le, (Accounts.mint_effect ok).1 a]
    exact Nat.le_add_right _ _
  | transfer _ _ _ _ ok =>
    exact Accounts.balance_le_of_move (Accounts.transfer_ok ok).2.2 hsender
  | payOut _ _ _ _ _ _ ok =>
    exact Accounts.balance_le_of_move (Accounts.payOut_ok ok).2 htreasury.symm
  | propose | vote | delegate | revoke => exact UInt64.le_refl _

/-- A proposal is opened in the name of the sender, and so is a vote
recorded. -/
theorem Acted.withoutPartOf (hact : Acted height now l t l')
    (hsender : t.sender ≠ a) :
    Council.WithoutPartOf a l.council.proposals l'.council.proposals := by
  intro q hq
  rcases hact.exists_before hq with ⟨p, hp, hbecomes, hvotes⟩ | ⟨draft, -, rfl⟩
  · refine .inl ⟨p, hp, hbecomes.id, by rw [hbecomes.terms], ?_⟩
    intro v hv hvoter
    exact (hvotes v hv).resolve_right fun hsent =>
      hsender (hsent.symm.trans hvoter)
  · exact .inr ⟨hsender, nofun⟩

/-- **A transaction spares all but its sender** and the treasury. -/
theorem apply_spares (hok : apply height now l t = .ok l')
    (hsender : t.sender ≠ a) (htreasury : a ≠ Address.treasury) :
    l.Spares a l' := by
  obtain ⟨-, hact⟩ := apply_ok hok
  refine ⟨hact.balance_le hsender htreasury, ?_,
    hact.delegations.get?_of_ne hsender, hact.withoutPartOf hsender⟩
  rw [hact.nonces]
  exact SortedMap.get?_insert_of_ne _ hsender.symm _

/-- A block spares every account that sends none of its transactions, other than
the treasury. -/
theorem applyBlock_spares {b : Block} (hblock : l.applyBlock b = .ok l')
    (hsenders : ∀ t ∈ b.transactions, t.sender ≠ a)
    (htreasury : a ≠ Address.treasury) : l.Spares a l' := by
  refine applyBlock_induction (P := l.Spares a) hblock (.refl a l) ?_ ?_
  · exact fun m hm => hm.trans (settle_spares a m b.timestamp)
  · exact fun t ht m m' hm hstep =>
      hm.trans (apply_spares hstep (hsenders t ht) htreasury)

/-- Whatever is not a mint is sent by no reserved account. -/
theorem Acted.unreserved (hact : Acted height now l t l')
    (hkind : t.kind ≠ .mint) : Address.isReserved t.sender = false := by
  cases hact with
  | mint action => exact absurd (congrArg Action.kind action) hkind
  | transfer _ may | propose _ may | vote _ may | payOut _ may
  | delegate _ may | revoke _ may =>
    exact may.unreserved

theorem applyBlock_unreserved {b : Block} (hblock : l.applyBlock b = .ok l')
    (ht : t ∈ b.transactions) (hkind : t.kind ≠ .mint) :
    Address.isReserved t.sender = false := by
  obtain ⟨m, hm, -⟩ := applyBlock_ok hblock
  obtain ⟨k, k', hstep⟩ := step_of_foldlM hm ht
  exact (apply_ok hstep).2.unreserved hkind

end Ledger

/-! ## Chains -/

namespace Chain

variable {rules : Rules} {blocks : List Block} {b : Block} {c d : Chain}

/-- A chain commits a block that it can grow by. -/
theorem commit_of_grow (h : ofBlocks rules blocks = .ok c) (hb : b.IsMade)
    (hgrow : c.grow b = .ok d) :
    c.commit b = .ok d ∧ ofBlocks rules (blocks ++ [b]) = .ok d := by
  obtain ⟨after, hvalid, rfl⟩ := (grow_eq_ok hb).mp hgrow
  have hcommit := commit_of_validate (records_of_ofBlocks h).inStep hvalid
  exact ⟨hcommit, ofBlocks_snoc.mpr ⟨c, h, hcommit⟩⟩

/-- **Nobody acts for another account.** A block that commits on a chain leaves
an account that sends none of its transactions, unless it is the treasury, with
at least its balance, with its nonce and its delegation as they were, and
without a new vote or proposal of it. And of all transactions that have been
committed, the reserved accounts sent only mints. -/
theorem nobody_acts_for_another (h : ofBlocks rules blocks = .ok c) :
    (∀ b c', c.commit b = .ok c' → ∀ a, a ≠ Address.treasury →
        (∀ t ∈ b.transactions, t.sender ≠ a) → c.ledger.Spares a c'.ledger) ∧
      ∀ t ∈ blocks.flatMap (·.transactions), t.kind ≠ .mint →
        Address.isReserved t.sender = false := by
  refine ⟨?_, ?_⟩
  · intro b c' hcommit a htreasury hsenders
    obtain ⟨after, hvalid, rfl⟩ :=
      commit_ok (records_of_ofBlocks h).inStep hcommit
    exact Ledger.applyBlock_spares (validate_ok hvalid).2.2.2 hsenders htreasury
  · intro t ht hkind
    obtain ⟨b, hb, ht⟩ := List.mem_flatMap.mp ht
    obtain ⟨l, after, hblock⟩ := applyBlock_of_mem h hb
    exact Ledger.applyBlock_unreserved hblock ht hkind

end Chain

/-! ## A run in which an account is named -/

/-- A block in which one account gives a token to another, asks for a payout to
it, and votes with the power that the other has lent. -/
def Block.allForBen (parent : Option Digest) : Block :=
  let proposal := Transaction.ofAction "ada" 3 1 (.propose
    { title := "Trees", description := "More", kind := .treasury
      mode := .weighted, duration := 60, threshold := 50
      funding := some ⟨"ben", 1⟩ })
  .build 2 parent 1
    [.ofAction "ada" 2 1 (.transfer "ben" 1), proposal,
      .ofAction "ada" 4 1 (.vote proposal.hash.hex .yes)]

theorem Block.isMade_allForBen (parent : Option Digest) :
    (allForBen parent).IsMade :=
  isMade_build (by simp)

/-- What is lent stands behind a vote on a proposal of another, for the lender's
own good: the lender sends nothing in the block, gets a token, and has the same
nonce and delegation. -/
theorem Chain.nobody_acts_for_another_lent :
    ∃ rules blocks c b c', ofBlocks rules blocks = .ok c ∧ c.commit b = .ok c' ∧
      c.ledger.Spares "ben" c'.ledger ∧
      c.accounts.balance "ben" < c'.accounts.balance "ben" ∧
      (∃ p ∈ c'.council.proposals, p.funding = some ⟨"ben", 1⟩ ∧
        ∃ v ∈ p.votes.values, v.delegators = ["ben"]) ∧
      ∀ t ∈ (blocks ++ [b]).flatMap (·.transactions), t.kind ≠ .mint →
        Address.isReserved t.sender = false := by
  let second (d : Chain) : Block := .allForBen (d.tip.map (·.hash))
  -- the kernel evaluates the run, and the rest reads the answer
  have hrun : ((empty Config.twoHolders.rules).grow
      Config.twoHolders.genesisBlock).toOption.any (fun c =>
        (c.grow (.firstVote (c.tip.map (·.hash)))).toOption.any fun d =>
          (d.grow (second d)).toOption.any fun e =>
            (∀ t ∈ (second d).transactions, t.sender ≠ "ben") ∧
            d.accounts.balance "ben" < e.accounts.balance "ben" ∧
            ∃ p ∈ e.council.proposals, p.funding = some ⟨"ben", 1⟩ ∧
              ∃ v ∈ p.votes.values, v.delegators = ["ben"]) = true := by
    decide +kernel
  obtain ⟨c, hc, hrun⟩ := exists_of_any_toOption hrun
  obtain ⟨d, hd, hrun⟩ := exists_of_any_toOption hrun
  obtain ⟨e, he, hfound⟩ := exists_of_any_toOption hrun
  obtain ⟨hsenders, hgain, hcarried⟩ := of_decide_eq_true hfound
  have hempty :
      ofBlocks Config.twoHolders.rules [] =
        .ok (empty Config.twoHolders.rules) := rfl
  obtain ⟨-, hfirst⟩ :=
    commit_of_grow hempty Config.twoHolders.isMade_genesisBlock hc
  obtain ⟨-, hbefore⟩ := commit_of_grow hfirst (Block.isMade_firstVote _) hd
  obtain ⟨hcommit, hafter⟩ :=
    commit_of_grow hbefore (Block.isMade_allForBen _) he
  have hspared := (nobody_acts_for_another hbefore).1 _ _ hcommit "ben"
    (by decide) hsenders
  exact ⟨_, _, d, _, e, hbefore, hcommit, hspared, hgain, hcarried,
    (nobody_acts_for_another hafter).2⟩

end CouncilLedger
