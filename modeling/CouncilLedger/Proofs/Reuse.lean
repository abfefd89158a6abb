import CouncilLedger.Proofs.Electorate
import CouncilLedger.Proofs.Tally
import Mathlib.Algebra.BigOperators.Group.Finset.Piecewise

/-!
# Tokens that vote again

A vote is weighted from the balances at its time. Tokens that its accounts
transfer afterwards to an account that has not voted can vote there once more on
the same proposal, so the weights of all votes may exceed the supply, by no more
than such transfers have moved. The invariant is `Proposal.Weighed`: the weights
are covered by what the accounts behind the votes still hold and what they have
moved on. The main statement is `Node.weights_within_supply_and_reuse`.
-/

namespace CouncilLedger

open Outcome

/-! ## Moving on what has voted -/

/-- What a transaction transfers from an account that is used up to one that is
not. -/
def Transaction.movedOn (t : Transaction) (used : String → Bool) : Nat :=
  match t.action with
  | .transfer recipient amount =>
    if used t.sender && !used recipient then amount.toNat else 0
  | _ => 0

/-- Whether a vote of one of some transactions carries the power of an
account. -/
def carriedIn (votes : List Vote) (seen : List Digest) (a : String) : Bool :=
  votes.any fun v => seen.contains v.transaction && v.accounts.contains a

/-- What some transactions move on, each from the accounts of votes in those
before it; the hashes of earlier transactions are `seen`. -/
def reusedFrom (votes : List Vote) (seen : List Digest) : List Transaction → Nat
  | [] => 0
  | t :: rest =>
    t.movedOn (carriedIn votes seen) + reusedFrom votes (seen ++ [t.hash]) rest

namespace Proposal

/-- The accounts that the votes carry. -/
def carried (p : Proposal) : Finset String :=
  (p.votes.values.flatMap Vote.accounts).toFinset

/-- What some transactions move from accounts that have voted on the proposal to
accounts that have not. -/
def reused (p : Proposal) (ts : List Transaction) : Nat :=
  reusedFrom p.votes.values [] ts

end Proposal

variable {votes : List Vote} {seen : List Digest} {ts : List Transaction}
    {t : Transaction}

theorem Transaction.movedOn_of_vote {text : String} {choice : Choice}
    (h : t.action = .vote text choice) (used : String → Bool) :
    t.movedOn used = 0 := by
  rw [movedOn, h]

theorem reusedFrom_snoc :
    reusedFrom votes seen (ts ++ [t]) =
      reusedFrom votes seen ts +
        t.movedOn (carriedIn votes (seen ++ ts.map (·.hash))) := by
  induction ts generalizing seen with
  | nil => simp [reusedFrom]
  | cons u rest ih =>
    rw [List.cons_append, reusedFrom, reusedFrom, ih, List.map_cons,
      List.append_assoc, List.singleton_append, Nat.add_assoc]

/-- A vote of a later transaction moves nothing on before it. -/
theorem reusedFrom_of_perm {votes' : List Vote} {v : Vote}
    (hperm : votes'.Perm (v :: votes)) (hseen : v.transaction ∉ seen)
    (hts : v.transaction ∉ ts.map (·.hash)) :
    reusedFrom votes' seen ts = reusedFrom votes seen ts := by
  induction ts generalizing seen with
  | nil => rfl
  | cons u rest ih =>
    rw [List.map_cons, List.mem_cons, not_or] at hts
    have hcarried : carriedIn votes' seen = carriedIn votes seen := by
      funext a
      rw [carriedIn, hperm.any_eq, List.any_cons]
      simp [hseen, carriedIn]
    have hseen' : v.transaction ∉ seen ++ [u.hash] := by simp [hseen, hts.1]
    rw [reusedFrom, reusedFrom, hcarried, ih hseen' hts.2]

/-! ## The invariant -/

namespace Accounts

/-- What some accounts hold together. -/
def holds (a : Accounts) (s : Finset String) : Nat :=
  ∑ q ∈ s, (a.balance q).toNat

theorem holds_le_total (a : Accounts) (s : Finset String) :
    a.holds s ≤ a.total :=
  SortedMap.sum_getD_le_sumBy (f := UInt64.toNat) rfl a.balances s

theorem holds_move {a a' : Accounts} {sender recipient : String}
    {amount : Amount} (h : a.move sender recipient amount = .ok a')
    (s : Finset String) :
    a'.holds s + (if sender ∈ s then amount.toNat else 0) =
      a.holds s + if recipient ∈ s then amount.toNat else 0 := by
  have hsum := Finset.sum_congr rfl fun q (_ : q ∈ s) => (move_effect h).1 q
  rw [Finset.sum_add_distrib, Finset.sum_add_distrib, Finset.sum_ite_eq,
    Finset.sum_ite_eq] at hsum
  exact hsum

end Accounts

/-- Accounts other than the treasury lose no more than the transaction moves on
to others. -/
theorem Ledger.Acted.holds_le {height now : UInt64} {l l' : Ledger}
    (h : Acted height now l t l') {s : Finset String}
    (htreasury : Address.treasury ∉ s) :
    l.accounts.holds s ≤
      l'.accounts.holds s + t.movedOn fun a => decide (a ∈ s) := by
  cases h with
  | mint _ _ _ _ ok =>
    refine Nat.le_trans (Finset.sum_le_sum fun q _ => ?_) (Nat.le_add_right _ _)
    exact Nat.le.intro ((Accounts.mint_effect ok).1 q).symm
  | @transfer recipient amount accounts action _ _ _ ok =>
    have hmove := Accounts.holds_move (Accounts.transfer_ok ok).2.2 s
    rw [Transaction.movedOn, action]
    show l.accounts.holds s ≤ accounts.holds s +
      if decide (t.sender ∈ s) && !decide (recipient ∈ s) then amount.toNat
      else 0
    by_cases hsender : t.sender ∈ s
    · by_cases hrecipient : recipient ∈ s
      · rw [if_pos hsender, if_pos hrecipient] at hmove
        omega
      · rw [if_pos hsender, if_neg hrecipient] at hmove
        simp only [hsender, hrecipient, decide_true, decide_false,
          Bool.not_false, Bool.and_self, if_true]
        omega
    · rw [if_neg hsender] at hmove
      omega
  | @payOut _ _ _ _ _ _ accounts _ _ _ _ _ _ ok =>
    have hmove := Accounts.holds_move (Accounts.payOut_ok ok).2 s
    rw [if_neg htreasury] at hmove
    show l.accounts.holds s ≤ accounts.holds s + _
    omega
  | propose | vote | delegate | revoke => exact Nat.le_add_right _ _

/-- The weights of the votes are covered by what their accounts still hold and
what these have moved on to others. -/
structure Proposal.Weighed (p : Proposal) (accounts : Accounts)
    (ts : List Transaction) : Prop where
  cast : ∀ v ∈ p.votes.values, v.transaction ∈ ts.map (·.hash)
  covered : p.castWeight ≤ accounts.holds p.carried + p.reused ts

namespace Proposal.Weighed

variable {p p' : Proposal} {accounts accounts' : Accounts}

theorem unvoted (hvotes : p.votes = .empty) : p.Weighed accounts ts := by
  refine ⟨?_, ?_⟩
  · intro v hv
    rw [hvotes] at hv
    cases hv
  · rw [Proposal.castWeight, hvotes]
    exact Nat.zero_le _

/-- By now, the accounts of votes are those that the votes carry. -/
theorem carriedIn_eq (h : p.Weighed accounts ts) :
    carriedIn p.votes.values (ts.map (·.hash)) =
      fun a => decide (a ∈ p.carried) := by
  funext a
  rw [Bool.eq_iff_iff, decide_eq_true_eq, carriedIn, List.any_eq_true,
    Proposal.carried, List.mem_toFinset, List.mem_flatMap]
  refine exists_congr fun v => and_congr_right fun hv => ?_
  rw [Bool.and_eq_true, List.contains_iff_mem, List.contains_iff_mem]
  exact and_iff_right (h.cast v hv)

/-- A transaction without a vote on the proposal, which leaves the accounts of
its votes what they had but for what it moves on. -/
theorem snoc (h : p.Weighed accounts ts) (hvotes : p'.votes = p.votes)
    (hheld : accounts.holds p.carried ≤
      accounts'.holds p.carried + t.movedOn fun a => decide (a ∈ p.carried)) :
    p'.Weighed accounts' (ts ++ [t]) := by
  have hcarried : p'.carried = p.carried := by
    rw [Proposal.carried, hvotes, Proposal.carried]
  refine ⟨?_, ?_⟩
  · intro v hv
    rw [hvotes] at hv
    rw [List.map_append]
    exact List.mem_append_left _ (h.cast v hv)
  · have hbefore := h.covered
    have hreused : p'.reused (ts ++ [t]) =
        p.reused ts + t.movedOn fun a => decide (a ∈ p.carried) := by
      rw [Proposal.reused, hvotes, reusedFrom_snoc, List.nil_append,
        h.carriedIn_eq, Proposal.reused]
    have hweight : p'.castWeight = p.castWeight := by
      rw [Proposal.castWeight, hvotes, Proposal.castWeight]
    rw [hweight, hcarried, hreused]
    omega

/-- A vote of accounts that were not carried yet, with no more weight than they
hold. -/
theorem withVote (h : p.Weighed accounts ts) (hapart : p.PowerApart) {v : Vote}
    (hnodup : v.accounts.Nodup)
    (hunused : ∀ a ∈ v.accounts, p.powerUsedBy a = false)
    (hnew : v.transaction ∉ ts.map (·.hash)) (hhash : v.transaction = t.hash)
    {text : String} {choice : Choice} (haction : t.action = .vote text choice)
    (hweight : v.weight.toNat ≤
      (v.accounts.map fun a => (accounts.balance a).toNat).sum)
    (e : Electorate) : (p.withVote v e).Weighed accounts (ts ++ [t]) := by
  have hfresh :=
    Proposal.get?_votes_of_unused (hunused v.voter List.mem_cons_self)
  have hperm : (p.withVote v e).votes.values.Perm (v :: p.votes.values) :=
    SortedMap.values_insert_perm v hfresh
  refine ⟨?_, ?_⟩
  · intro w hw
    rw [List.map_append]
    rcases List.mem_cons.mp (hperm.mem_iff.mp hw) with rfl | hw
    · exact List.mem_append_right _ (by simp [hhash])
    · exact List.mem_append_left _ (h.cast w hw)
  · have hbefore := h.covered
    have hcast :
        (p.withVote v e).castWeight = v.weight.toNat + p.castWeight := by
      have hsum := (hperm.map fun w => w.weight.toNat).sum_eq
      rwa [List.map_cons, List.sum_cons] at hsum
    have hreused : (p.withVote v e).reused (ts ++ [t]) = p.reused ts := by
      rw [Proposal.reused, reusedFrom_snoc, Transaction.movedOn_of_vote haction,
        reusedFrom_of_perm hperm List.not_mem_nil hnew]
      rfl
    -- the accounts of the new vote are apart from those of the others
    have hcarried :
        (p.withVote v e).carried = v.accounts.toFinset ∪ p.carried := by
      ext a
      simp only [Proposal.carried, List.mem_toFinset, Finset.mem_union,
        (hperm.flatMap_right Vote.accounts).mem_iff, List.flatMap_cons,
        List.mem_append]
    have hdisjoint : Disjoint v.accounts.toFinset p.carried := by
      rw [Finset.disjoint_left]
      intro a ha hcarried
      have hused := hapart.powerUsedBy_iff.mpr (List.mem_toFinset.mp hcarried)
      rw [hunused a (List.mem_toFinset.mp ha)] at hused
      cases hused
    have hholds :
        accounts.holds (p.withVote v e).carried =
          (v.accounts.map fun a => (accounts.balance a).toNat).sum +
            accounts.holds p.carried := by
      rw [hcarried, Accounts.holds, Finset.sum_union hdisjoint,
        List.sum_toFinset _ hnodup]
      rfl
    rw [hcast, hreused, hholds]
    omega

end Proposal.Weighed

/-! ## Transactions and blocks -/

namespace Ledger

/-- What holds of a ledger after some transactions whose hashes are distinct. -/
structure Weighed (l : Ledger) (now : UInt64) (ts : List Transaction) :
    Prop where
  apart : l.council.PowerApart
  franchise : l.council.Franchise now
  proposals : ∀ p ∈ l.council.proposals, p.Weighed l.accounts ts

variable {l l' : Ledger} {height now : UInt64}

theorem treasury_not_mem_carried (h : l.council.Franchise now) {p : Proposal}
    (hp : p ∈ l.council.proposals) : Address.treasury ∉ p.carried := by
  intro hcarried
  obtain ⟨v, hv, ha⟩ := List.mem_flatMap.mp (List.mem_toFinset.mp hcarried)
  have hunreserved := h.voters p hp v hv Address.treasury ha
  cases hunreserved

namespace Weighed

/-- **Every action keeps weights covered.** -/
theorem acted (h : l.Weighed now ts) (hnew : t.hash ∉ ts.map (·.hash))
    (hact : Acted height now l t l') : l'.Weighed now (ts ++ [t]) := by
  -- a proposal with the same votes as before
  have hkeep : ∀ p ∈ l.council.proposals, ∀ q : Proposal, q.votes = p.votes →
      q.Weighed l'.accounts (ts ++ [t]) := fun p hp q hvotes =>
    (h.proposals p hp).snoc hvotes
      (hact.holds_le (treasury_not_mem_carried h.franchise hp))
  refine ⟨hact.powerApart h.apart, hact.franchise h.apart h.franchise, ?_⟩
  cases hact with
  | mint | transfer => exact fun p hp => hkeep p hp p rfl
  | propose _ _ _ ok =>
    obtain ⟨-, -, -, rfl⟩ := Council.propose_ok ok
    intro q hq
    rcases List.mem_append.mp hq with hq | hq
    · exact hkeep q hq q rfl
    · rw [List.mem_singleton.mp hq]
      exact .unvoted rfl
  | @vote _ _ choice p _ action _ _ found ok =>
    obtain ⟨r, hr, -, hvoter, -, -, rfl⟩ := Council.vote_ok ok
    -- the proposal that the weight was taken from is the one that is voted on
    cases found.symm.trans hr
    have hp := Council.mem_of_proposal? found
    have hdelegations : l.standing.delegations.Keyed := h.apart.delegations
    have hweighed := h.proposals p hp
    have hapart := h.apart.proposals p hp
    intro q hq
    rcases mem_replaceFirst hq with rfl | hq
    · refine hweighed.withVote hapart ?_ ?_ hnew rfl action ?_ _
      · exact Standing.nodup_backing hdelegations
      · exact Standing.powerUsedBy_of_backing hvoter
      · exact Nat.le_trans (p.mode.weight_le _)
          (l.standing.backing_le_balances _ _ _)
    · exact hkeep q hq q rfl
  | payOut _ _ _ _ authorized =>
    obtain ⟨p, hp, -, -, -, -, rfl⟩ := Council.authorizePayout_ok authorized
    intro q hq
    rcases mem_replaceFirst hq with rfl | hq
    · exact hkeep p (Council.mem_of_proposal? hp) _ rfl
    · exact hkeep q hq q rfl
  | delegate _ _ _ ok =>
    obtain ⟨-, -, -, -, -, -, -, -, -, rfl⟩ := Council.delegate_ok ok
    exact fun p hp => hkeep p hp p rfl
  | revoke _ _ ok =>
    obtain ⟨d, -, -, rfl⟩ := Council.revoke_ok ok
    exact fun p hp => hkeep p hp p rfl

theorem apply (h : l.Weighed now ts) (hnew : t.hash ∉ ts.map (·.hash))
    (hok : Ledger.apply height now l t = .ok l') :
    l'.Weighed now (ts ++ [t]) := by
  have hused : (l.withNonceUsed t.sender).Weighed now ts :=
    ⟨h.apart, h.franchise, fun p hp =>
      ⟨(h.proposals p hp).cast, (h.proposals p hp).covered⟩⟩
  exact hused.acted hnew (apply_ok hok).2

theorem settle (h : l.Weighed now ts) (time : UInt64) :
    (l.settle time).Weighed now ts := by
  refine ⟨h.apart.settle _ _, h.franchise.settle _ _, ?_⟩
  intro q hq
  obtain ⟨p, hp, rfl⟩ := List.mem_map.mp hq
  exact ⟨(h.proposals p hp).cast, (h.proposals p hp).covered⟩

theorem applyBlock {b : Block} (h : l.Weighed b.timestamp ts)
    (hhashes : ((ts ++ b.transactions).map (·.hash)).Nodup)
    (hok : l.applyBlock b = .ok l') :
    l'.Weighed b.timestamp (ts ++ b.transactions) := by
  refine applyBlock_append_induction (P := fun ts l => (ts.map (·.hash)).Nodup →
    l.Weighed b.timestamp ts) hok (fun _ => h) ?_ ?_ hhashes
  · exact fun _ _ hm hnodup => (hm hnodup).settle _
  · intro seen t _ m m' hm hstep hnodup
    rw [List.map_append, List.map_singleton, List.nodup_append] at hnodup
    obtain ⟨hseen, -, hothers⟩ := hnodup
    exact (hm hseen).apply
      (fun hmem => hothers _ hmem _ List.mem_cons_self rfl) hstep

end Weighed
end Ledger

/-! ## Chains -/

namespace Chain

variable {rules : Rules} {blocks : List Block} {c : Chain}

theorem weighed_of_ofBlocks (h : ofBlocks rules blocks = .ok c) :
    c.ledger.Weighed c.time (blocks.flatMap (·.transactions)) := by
  refine ofBlocks_validate_induction (P := fun bs c => c.ledger.Weighed c.time
      (bs.flatMap (·.transactions))) h ?_ ?_
  · exact ⟨.ofRules rules, .ofRules rules _, fun _ hp => nomatch hp⟩
  · intro before m b after hm hweighed hvalid
    obtain ⟨-, hlink, harchive, hblock⟩ := validate_ok hvalid
    have hindexes : (m.extended b after).Indexes _ :=
      (indexes_of_ofBlocks hm).extended harchive
    have hstart :
        m.ledger.Weighed b.timestamp (before.flatMap (·.transactions)) :=
      ⟨hweighed.apart, hweighed.franchise.mono (time_le_timestamp hlink),
        hweighed.proposals⟩
    rw [List.flatMap_append, List.flatMap_singleton]
    exact hstart.applyBlock hindexes.distinct hblock

end Chain

/-! ### A run in which tokens vote again -/

/-- Three accounts that hold tokens. -/
def Config.threeHolders : Config :=
  { treasury := 0, allocations := [⟨"ada", 2⟩, ⟨"ben", 4⟩, ⟨"carl", 2⟩] }

/-- A block in which the tokens of one vote go on to an account that abstains,
and from there to one that has not voted, before another vote passes the
proposal. -/
def Block.votedAgain (parent : Option Digest) : Block :=
  let proposal := Transaction.ofAction "ada" 0 0 (.propose
    { title := "Trees", description := "More", kind := .general
      mode := .weighted, duration := 60, threshold := 50, funding := none })
  .build 1 parent 0
    [proposal, .ofAction "ben" 0 0 (.vote proposal.hash.hex .yes),
      .ofAction "ben" 1 0 (.transfer "dora" 4),
      .ofAction "dora" 0 0 (.vote proposal.hash.hex .abstain),
      .ofAction "dora" 1 0 (.transfer "ada" 4),
      .ofAction "carl" 0 0 (.vote proposal.hash.hex .yes)]

theorem Block.isMade_votedAgain (parent : Option Digest) :
    (votedAgain parent).IsMade :=
  isMade_build (by simp)

/-- What that block leads to: the proposal has passed by more weight than there
are tokens, and an account that has not voted holds as much as was cast for
it. -/
structure Proposal.VotedAgain (p : Proposal) (n : Node) : Prop where
  supply : n.chain.accounts.supply = 8
  mode : p.mode = .weighted
  castWeight : p.castWeight = 10
  reused : p.reused n.chain.transactions = 8
  passed : p.status = .passed
  endsAt : p.endsAt = 60
  yes : p.tally.yes = 6
  no : p.tally.no = 0
  lendsNot : n.chain.council.delegations.delegateOf? "ada" 0 = none
  unused : p.powerUsedBy "ada" = false
  backing : (n.chain.standing.backing "ada" 0 p).balance = 6

instance (p : Proposal) (n : Node) : Decidable (p.VotedAgain n) :=
  decidable_of_iff
    (n.chain.accounts.supply = 8 ∧ p.mode = .weighted ∧ p.castWeight = 10 ∧
      p.reused n.chain.transactions = 8 ∧ p.status = .passed ∧ p.endsAt = 60 ∧
      p.tally.yes = 6 ∧ p.tally.no = 0 ∧
      n.chain.council.delegations.delegateOf? "ada" 0 = none ∧
      p.powerUsedBy "ada" = false ∧
      (n.chain.standing.backing "ada" 0 p).balance = 6)
    ⟨fun ⟨a, b, c, d, e, f, g, h, i, j, k⟩ => ⟨a, b, c, d, e, f, g, h, i, j, k⟩,
      fun ⟨a, b, c, d, e, f, g, h, i, j, k⟩ => ⟨a, b, c, d, e, f, g, h, i, j, k⟩⟩

namespace Node

/-- A run reaches a node after that block. -/
theorem exists_votedAgain :
    ∃ first after n b p, Reachable .threeHolders first ∧
      first.chain.validate b = .ok after ∧ Reachable .threeHolders n ∧
      n.chain = first.chain.extended b after ∧
      first.chain.council.proposals = [] ∧ b.timestamp = 0 ∧
      p ∈ n.chain.council.proposals ∧ p.VotedAgain n := by
  -- the kernel evaluates the run
  obtain ⟨first, after, n, hfirst, hvalid, hn, hchain, hnone, p, hp, hvoted⟩ :=
    exists_of_commit .threeHolders (fun c => .votedAgain (c.tip.map (·.hash)))
    (fun _ => Block.isMade_votedAgain _)
    (fun first n => first.chain.council.proposals = [] ∧
      ∃ p ∈ n.chain.council.proposals, p.VotedAgain n) (by decide +kernel)
  exact ⟨first, after, n, _, p, hfirst, hvalid, hn, hchain, hnone,
    rfl, hp, hvoted⟩

/-! ### The main statement -/

variable {config : Config} {n : Node}

/-- **Weights stay within the supply and what was moved on**: the votes on a
proposal weigh no more together than there are tokens and than transfers have
moved from accounts that have voted on it to accounts that have not. While that
fits into 64 bits, the tally is exact. -/
theorem weights_within_supply_and_reuse (h : n.Reachable config) :
    ∀ p ∈ n.chain.council.proposals,
      p.castWeight ≤
        n.chain.accounts.supply.toNat + p.reused n.chain.transactions ∧
      (n.chain.accounts.supply.toNat + p.reused n.chain.transactions <
          UInt64.size →
        p.tally.yes.toNat = p.weightOf .yes ∧
          p.tally.no.toNat = p.weightOf .no ∧
          p.tally.abstain.toNat = p.weightOf .abstain ∧
          p.tally.cast.toNat =
            p.tally.yes.toNat + p.tally.no.toNat + p.tally.abstain.toNat) := by
  obtain ⟨rest, htracks⟩ := h.tracks
  have hweighed := Chain.weighed_of_ofBlocks htracks.history
  rw [← htracks.blocks_eq] at hweighed
  intro p hp
  have hbound :
      p.castWeight ≤
        n.chain.accounts.supply.toNat + p.reused n.chain.transactions := by
    have hcovered : p.castWeight ≤ n.chain.accounts.holds p.carried + _ :=
      (hweighed.proposals p hp).covered
    have htotal : n.chain.accounts.total = _ := htracks.balanced.total
    have hheld := n.chain.accounts.holds_le_total p.carried
    exact Nat.le_trans hcovered (Nat.add_le_add_right (htotal ▸ hheld) _)
  exact ⟨hbound, fun hfits => p.tally_exact (Nat.lt_of_le_of_lt hbound hfits)⟩

/-- Ten votes of eight tokens, eight of which were moved on. -/
theorem weights_within_supply_and_reuse_votedAgain :
    ∃ n, Reachable .threeHolders n ∧
      ∃ p ∈ n.chain.council.proposals, p.castWeight = 10 ∧ 10 ≤ 8 + 8 ∧
        p.tally.cast.toNat =
          p.tally.yes.toNat + p.tally.no.toNat + p.tally.abstain.toNat := by
  obtain ⟨-, -, n, -, p, -, -, hn, -, -, -, hmem, hp⟩ := exists_votedAgain
  obtain ⟨hbound, hexact⟩ := weights_within_supply_and_reuse hn p hmem
  rw [hp.supply, hp.reused] at hbound hexact
  rw [hp.castWeight] at hbound
  exact ⟨n, hn, p, hmem, hp.castWeight, hbound, (hexact (by decide)).2.2.2⟩

/-- Tokens that are moved on after a vote let weights exceed the supply. -/
theorem weights_exceed_supply :
    ¬ ∀ config n, Reachable config n →
      ∀ p ∈ n.chain.council.proposals, p.mode = .weighted →
        p.castWeight ≤ n.chain.accounts.supply.toNat ∧
          p.tally.cast.toNat =
            p.tally.yes.toNat + p.tally.no.toNat + p.tally.abstain.toNat := by
  intro h
  obtain ⟨-, -, n, -, p, -, -, hn, -, -, -, hmem, hp⟩ := exists_votedAgain
  obtain ⟨hbound, -⟩ := h .threeHolders n hn p hmem hp.mode
  rw [hp.castWeight, hp.supply] at hbound
  exact absurd hbound (by decide)

end Node
end CouncilLedger
