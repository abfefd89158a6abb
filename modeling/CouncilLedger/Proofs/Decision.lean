import CouncilLedger.Proofs.Proposals
import CouncilLedger.Proofs.Reuse

/-!
# How certain an early pass is

A proposal passes before its deadline when yes has more than half of the power
that the electorate has at that moment. Votes keep the weights they were taken
with, and the electorate is that of the moment. So after the block, yes beats no
together with all that may still be cast but for two differences: the weight
that yes and no voters no longer have, and what the electorate has grown since.
The main statement is `Node.early_pass_margin`.
-/

namespace CouncilLedger

open Outcome

/-! ## Decisive votes -/

namespace Proposal

/-- Whether yes has more than half of an electorate's power, and the threshold's
share of it. -/
structure Decisive (p : Proposal) (e : Electorate) : Prop where
  majority : (e.power p.mode).toNat < p.tally.yes.toNat * 2
  share : p.threshold.toNat * (e.power p.mode).toNat ≤ p.tally.yes.toNat * 100

/-- The weight that the votes for yes and for no were taken with, and that their
voters do not have any more. -/
def lost (p : Proposal) (s : Standing) (t : UInt64) : Nat :=
  ((p.votes.values.filter (·.choice ≠ .abstain)).map fun v =>
    v.weight.toNat - (p.mode.weight (s.effective v.voter t)).toNat).sum

variable {p : Proposal} {e : Electorate}

theorem decisive_of_earlyOutcome
    (h : (p.earlyOutcome e).getD .running = .passed) : p.Decisive e := by
  unfold earlyOutcome at h
  dsimp only at h
  split at h
  · cases h
  · split at h
    · next hdecisive => exact ⟨hdecisive.1, hdecisive.2⟩
    · split at h
      · cases h
      · cases h

/-- A vote that passes a running proposal makes yes decisive. -/
theorem decisive_withVote {v : Vote} (hrunning : p.status = .running)
    (hpassed : (p.withVote v e).status = .passed) :
    (p.withVote v e).Decisive e := by
  unfold withVote at hpassed
  dsimp only at hpassed
  rw [hrunning] at hpassed
  have hdecisive := decisive_of_earlyOutcome hpassed
  exact ⟨hdecisive.majority, hdecisive.share⟩

/-- A proposal that a step passes before its deadline is one on which yes is
decisive. -/
theorem Becomes.decisive {q : Proposal} {now : UInt64}
    {electorate : UInt64 → Electorate} {rules : Rules}
    (h : Becomes now electorate rules p q) (hrunning : p.status = .running)
    (hpassed : q.status = .passed) (hearly : now < q.endsAt) :
    q.Decisive (electorate now) := by
  rw [h.endsAt] at hearly
  cases h with
  | same => cases hrunning.symm.trans hpassed
  | settled =>
    have hstatus : p.settledStatus now electorate rules = .passed := hpassed
    rw [settledStatus_of_early hrunning hearly] at hstatus
    have hdecisive := decisive_of_earlyOutcome hstatus
    exact ⟨hdecisive.majority, hdecisive.share⟩
  | voted => exact decisive_withVote hrunning hpassed
  | paid _ passed =>
    rw [statusAt, if_pos (.inr hearly)] at passed
    cases hrunning.symm.trans passed

theorem weightOf_yes_add_no (p : Proposal) :
    p.weightOf .yes + p.weightOf .no =
      ((p.votes.values.filter (·.choice ≠ .abstain)).map
        (·.weight.toNat)).sum := by
  unfold weightOf
  induction p.votes.values with
  | nil => rfl
  | cons v rest ih =>
    cases hchoice : v.choice <;> simp [hchoice] at ih ⊢ <;> omega

end Proposal

/-! ## What may still be cast -/

namespace Standing

variable {s : Standing} {now : UInt64} {p : Proposal}

/-- What some accounts could still cast on a proposal. -/
def castable (s : Standing) (t : UInt64) (p : Proposal)
    (voters : Finset String) : Nat :=
  ∑ a ∈ voters, (p.mode.weight (s.backing a t p).balance).toNat

/-- **Votes and what may still be cast** are part of the electorate, but for
weight that is lost. -/
theorem decided_add_castable_le (hsound : s.Sound now) (hapart : p.PowerApart)
    (hcarried : ∀ v ∈ p.votes.values, ∀ a ∈ v.accounts,
      Address.isReserved a = false) (t : UInt64) {voters : Finset String}
    (hvoters : ∀ a ∈ voters, Address.isReserved a = false ∧
      p.powerUsedBy a = false) :
    p.weightOf .yes + p.weightOf .no + s.castable t p voters ≤
      p.lost s t + ((s.electorateAt t).power p.mode).toNat := by
  let deciding := p.votes.values.filter (·.choice ≠ .abstain)
  let weight (a : String) : Nat := (p.mode.weight (s.effective a t)).toNat
  have hmem :
      ∀ a ∈ deciding.map (·.voter), ∃ v ∈ p.votes.values, v.voter = a := by
    intro a ha
    obtain ⟨v, hv, rfl⟩ := List.mem_map.mp ha
    exact ⟨v, List.mem_of_mem_filter hv, rfl⟩
  have hnodup : (deciding.map (·.voter)).Nodup :=
    hapart.nodup_voters.sublist (List.filter_sublist.map _)
  -- what each of the votes was taken with, its voter has lost or still has
  have hkept : (deciding.map (·.weight.toNat)).sum ≤
      p.lost s t + ((deciding.map (·.voter)).map weight).sum := by
    rw [Proposal.lost, List.map_map, ← List.sum_map_add]
    refine List.sum_le_sum fun v _ => ?_
    show v.weight.toNat ≤ v.weight.toNat - weight v.voter + weight v.voter
    omega
  have hcast : s.castable t p voters ≤ ∑ a ∈ voters, weight a :=
    Finset.sum_le_sum fun a _ => p.mode.weight_mono
      (s.backing_le_effective a t p)
  -- who may still vote is not among the voters
  have hdisjoint : Disjoint (deciding.map (·.voter)).toFinset voters := by
    rw [Finset.disjoint_left]
    intro a ha hvoter
    obtain ⟨v, hv, rfl⟩ := hmem a (List.mem_toFinset.mp ha)
    have hused : p.powerUsedBy v.voter = true :=
      hapart.powerUsedBy_iff.mpr
        (List.mem_flatMap.mpr ⟨v, hv, List.mem_cons_self⟩)
    rw [(hvoters v.voter hvoter).2] at hused
    cases hused
  have hall : ∑ a ∈ (deciding.map (·.voter)).toFinset ∪ voters, weight a ≤
      ((s.electorateAt t).power p.mode).toNat := by
    refine sum_weight_le_power hsound p.mode _ fun a ha => ?_
    rcases Finset.mem_union.mp ha with ha | ha
    · obtain ⟨v, hv, rfl⟩ := hmem a (List.mem_toFinset.mp ha)
      exact hcarried v hv v.voter List.mem_cons_self
    · exact (hvoters a ha).1
  rw [Finset.sum_union hdisjoint, List.sum_toFinset weight hnodup] at hall
  rw [p.weightOf_yes_add_no]
  show (deciding.map (·.weight.toNat)).sum + _ ≤ _
  omega

end Standing

/-! ## The step that closes a proposal -/

/-- Two states of a proposal between which nobody votes. -/
structure Proposal.SameBallot (p q : Proposal) : Prop where
  id : p.id = q.id
  mode : p.mode = q.mode
  threshold : p.threshold = q.threshold
  endsAt : p.endsAt = q.endsAt
  votes : p.votes = q.votes

theorem Proposal.Decisive.of_sameBallot {p q : Proposal} {e : Electorate}
    (h : p.Decisive e) (hsame : p.SameBallot q) : q.Decisive e := by
  have htally : q.tally.yes = p.tally.yes := by simp only [tally, hsame.votes]
  refine ⟨?_, ?_⟩
  · rw [htally, ← hsame.mode]
    exact h.majority
  · rw [htally, ← hsame.mode, ← hsame.threshold]
    exact h.share

namespace Ledger

variable {l l' m m' : Ledger} {b : Block} {q : Proposal}

/-- Where a proposal that has passed before its deadline comes from: it had
passed before, or it was running and the votes are decisive now. -/
def PassedFrom (l : Ledger) (now : UInt64) (q : Proposal) : Prop :=
  ∃ p ∈ l.council.proposals, p.id = q.id ∧
    (p.status = .passed ∧ p.SameBallot q ∨
      p.status = .running ∧ q.Decisive (l.standing.electorateAt now))

/-- A proposal that has passed before its deadline had passed before the step,
or the step makes yes decisive. -/
theorem Stage.passedFrom (h : Stage b l m m') (hq : q ∈ m'.council.proposals)
    (hpassed : q.status = .passed) (hearly : b.timestamp < q.endsAt) :
    m.PassedFrom b.timestamp q := by
  rcases h.moves.exists_before hq with ⟨p, hp, hbecomes⟩ | ⟨_, _, _, _, rfl⟩
  · refine ⟨p, hp, hbecomes.id.symm, ?_⟩
    by_cases hrunning : p.status = .running
    · exact .inr ⟨hrunning, hbecomes.decisive hrunning hpassed hearly⟩
    · obtain ⟨hkept, hballot⟩ := hbecomes.of_closed hrunning
      exact .inl ⟨hkept ▸ hpassed, hbecomes.id.symm, hbecomes.mode.symm,
        hbecomes.threshold.symm, hbecomes.endsAt.symm, hballot.symm⟩
  · cases hpassed

/-- Only a vote on a running proposal makes an action pass it before its
deadline: no other action changes a proposal that is not yet paid, and a payout
is for one that has passed. -/
theorem Acted.vote_of_passed {height now : UInt64} {t : Transaction}
    (hact : Acted height now l t l') (hapart : l.council.PowerApart)
    {p : Proposal} (hp : p ∈ l.council.proposals)
    (hrunning : p.status = .running) (hq : q ∈ l'.council.proposals)
    (hid : p.id = q.id) (hpassed : q.status = .passed)
    (hearly : now < q.endsAt) :
    ∃ text choice, t.action = .vote text choice ∧
      Council.normalizeId text = .ok q.id := by
  have hunique : ∀ r ∈ l.council.proposals, r.id = q.id → r = p :=
    fun r hr hrid =>
      List.inj_on_of_nodup_map hapart.ids hr hp (hrid.trans hid.symm)
  have hnew : q ∉ l.council.proposals := by
    intro hold
    rw [hunique q hold rfl, hrunning] at hpassed
    cases hpassed
  cases hact with
  | mint | transfer => exact absurd hq hnew
  | propose _ _ _ ok =>
    obtain ⟨-, -, -, rfl⟩ := Council.propose_ok ok
    rcases List.mem_append.mp hq with hq | hq
    · exact absurd hq hnew
    · rw [List.mem_singleton.mp hq] at hpassed
      cases hpassed
  | @vote text id choice _ _ action _ names _ ok =>
    obtain ⟨r, hr, -, -, -, -, rfl⟩ := Council.vote_ok ok
    rcases mem_replaceFirst hq with rfl | hq
    · have hrid : r.id = id := Council.id_of_proposal? hr
      exact ⟨text, choice, action, names.trans (congrArg Except.ok hrid.symm)⟩
    · exact absurd hq hnew
  | payOut _ _ _ _ authorized =>
    obtain ⟨r, hr, -, hdone, -, -, rfl⟩ := Council.authorizePayout_ok authorized
    rcases mem_replaceFirst hq with rfl | hq
    · have hsame : r = p := hunique r (Council.mem_of_proposal? hr) rfl
      subst hsame
      rw [Proposal.statusAt_eq_running_iff.mpr ⟨hrunning, hearly⟩] at hdone
      cases hdone
    · exact absurd hq hnew
  | delegate _ _ _ ok =>
    obtain ⟨-, -, -, -, -, -, -, -, -, rfl⟩ := Council.delegate_ok ok
    exact absurd hq hnew
  | revoke _ _ ok =>
    obtain ⟨d, -, -, rfl⟩ := Council.revoke_ok ok
    exact absurd hq hnew

/-- The step at which a block closes a proposal: it is running before, it has
passed after, and the electorate before is one that yes decides. Where the step
is a transaction, that is a vote on the proposal. -/
structure Closes (b : Block) (m m' : Ledger) (q : Proposal) : Prop where
  running : ∃ p ∈ m.council.proposals, p.id = q.id ∧ p.status = .running
  passed : ∃ p ∈ m'.council.proposals, p.id = q.id ∧ p.status = .passed
  decisive : q.Decisive (m.standing.electorateAt b.timestamp)
  vote : ∀ t, apply b.height b.timestamp m t = .ok m' →
    ∃ text choice, t.action = .vote text choice ∧
      Council.normalizeId text = .ok q.id

/-- **A proposal that a block has closed early was closed at one of its
steps.** -/
theorem exists_closes (hblock : l.applyBlock b = .ok l')
    (hapart : l.council.PowerApart) (hq : q ∈ l'.council.proposals)
    (hpassed : q.status = .passed) (hearly : b.timestamp < q.endsAt)
    (hopen : ∀ p ∈ l.council.proposals, p.id = q.id → p.status = .running) :
    ∃ m m', Stage b l m m' ∧ Closes b m m' q := by
  refine applyBlock_stage_induction
    (P := fun k => ∀ q ∈ k.council.proposals, q.status = .passed →
      b.timestamp < q.endsAt →
      (∀ p ∈ l.council.proposals, p.id = q.id → p.status = .running) →
        ∃ m m', Stage b l m m' ∧ Closes b m m' q)
    hblock ?_ ?_ q hq hpassed hearly hopen
  · intro q hq hpassed _ hopen
    rw [hopen q hq rfl] at hpassed
    cases hpassed
  · intro m m' hstage ih q hq hpassed hearly hopen
    obtain ⟨p, hp, hid, ⟨hbefore, hsame⟩ | ⟨hrunning, hdecisive⟩⟩ :=
      hstage.passedFrom hq hpassed hearly
    · -- it had passed at an earlier step
      obtain ⟨k, k', hearlier, hcloses⟩ :=
        ih p hp hbefore (hsame.endsAt ▸ hearly) (hid ▸ hopen)
      exact ⟨k, k', hearlier, hid ▸ hcloses.running, hid ▸ hcloses.passed,
        hcloses.decisive.of_sameBallot hsame, hid ▸ hcloses.vote⟩
    · have hapart' : m.council.PowerApart :=
        hstage.induction (P := fun k => k.council.PowerApart) hapart
          fun _ _ hearlier => hearlier.powerApart
      refine ⟨m, m', hstage, ⟨p, hp, hid, hrunning⟩, ⟨q, hq, rfl, hpassed⟩,
        hdecisive, fun t ht => ?_⟩
      exact (apply_ok ht).2.vote_of_passed hapart' hp hrunning hq hid
        hpassed hearly

end Ledger

/-! ## Nodes -/

namespace Node

variable {config : Config} {n : Node}

/-- **The margin of an early pass**: a proposal that a block closes as passed
before the deadline has more than half of the electorate's power behind yes at
one step of the block, which settles or is a vote on the proposal. After the
block, no and all that accounts with unused power could still cast, with that
power, stay below yes, the weight that voters for yes or no have lost, and the
power of the electorate by then. -/
theorem early_pass_margin (h : n.Reachable config) {b : Block} {after : Ledger}
    (hvalid : n.chain.validate b = .ok after) {q : Proposal}
    (hq : q ∈ after.council.proposals) (hpassed : q.status = .passed)
    (hearly : b.timestamp < q.endsAt)
    (hopen : ∀ p ∈ n.chain.council.proposals, p.id = q.id →
      p.status = .running) :
    ∃ m m', Ledger.Stage b n.chain.ledger m m' ∧ Ledger.Closes b m m' q ∧
      ∀ voters : Finset String,
        (∀ a ∈ voters, Address.isReserved a = false ∧ q.powerUsedBy a = false) →
        q.tally.no.toNat + after.standing.castable b.timestamp q voters +
            ((m.standing.electorateAt b.timestamp).power q.mode).toNat <
          q.tally.yes.toNat + q.lost after.standing b.timestamp +
            ((after.standing.electorateAt b.timestamp).power q.mode).toNat := by
  obtain ⟨rest, htracks⟩ := h.tracks
  obtain ⟨-, -, -, hblock⟩ := Chain.validate_ok hvalid
  have hbefore := Chain.powerApart_of_ofBlocks htracks.history
  obtain ⟨m, m', hstage, hcloses⟩ :=
    Ledger.exists_closes hblock hbefore hq hpassed hearly hopen
  refine ⟨m, m', hstage, hcloses, ?_⟩
  intro voters hvoters
  -- the chain with the block has all that holds of chains
  have hcommit := Chain.commit_of_validate htracks.records.inStep hvalid
  have hnext :
      Chain.ofBlocks config.rules (_ ++ [b]) = .ok (n.chain.extended b after) :=
    Chain.ofBlocks_snoc.mpr ⟨n.chain, htracks.history, hcommit⟩
  have hapart : after.council.PowerApart := Chain.powerApart_of_ofBlocks hnext
  have hfranchise : after.council.Franchise b.timestamp :=
    Chain.franchise_of_ofBlocks hnext
  have hsound : after.standing.Sound b.timestamp :=
    Chain.sound_of_ofBlocks hnext
  have hparts := after.standing.decided_add_castable_le hsound
    (hapart.proposals q hq) (hfranchise.voters q hq) b.timestamp hvoters
  have hmajority := hcloses.decisive.majority
  have hyes : q.tally.yes.toNat = _ := q.toNat_sumOf .yes
  have hno : q.tally.no.toNat = _ := q.toNat_sumOf .no
  omega

/-- The run in which tokens vote again, as the commit of a block. -/
theorem exists_closedAgain :
    ∃ first b after q, Reachable .threeHolders first ∧
      first.chain.validate b = .ok after ∧ q ∈ after.council.proposals ∧
      q.status = .passed ∧ b.timestamp < q.endsAt ∧
      first.chain.council.proposals = [] ∧
      (∀ a ∈ ({"ada"} : Finset String), Address.isReserved a = false ∧
        after.council.delegations.delegateOf? a b.timestamp = none ∧
        q.powerUsedBy a = false) ∧
      q.tally.yes.toNat = 6 ∧ q.tally.no.toNat = 0 ∧
      after.standing.castable b.timestamp q {"ada"} = 6 := by
  obtain ⟨first, after, n, b, q, hfirst, hvalid, -, hchain, hnone,
    htime, hmem, hq⟩ :=
    exists_votedAgain
  have hstanding : n.chain.standing = after.standing := by rw [hchain]; rfl
  have hcouncil : n.chain.council = after.council := by rw [hchain]; rfl
  have hlends := hq.lendsNot
  have hbacking := hq.backing
  rw [hcouncil] at hmem hlends
  rw [hstanding] at hbacking
  refine ⟨first, b, after, q, hfirst, hvalid, hmem, hq.passed, ?_, hnone,
    ?_, ?_, ?_, ?_⟩
  · rw [htime, hq.endsAt]
    decide
  · intro a ha
    rw [Finset.mem_singleton.mp ha, htime]
    exact ⟨rfl, hlends, hq.unused⟩
  · rw [hq.yes]
    rfl
  · rw [hq.no]
    rfl
  · rw [Standing.castable, Finset.sum_singleton, htime, hbacking, hq.mode]
    rfl

/-- The proposal of the run passes with yes at six and no at none, and six may
still be cast. -/
theorem early_pass_margin_votedAgain :
    ∃ first b after q, Reachable .threeHolders first ∧
      first.chain.validate b = .ok after ∧ q ∈ after.council.proposals ∧
      ∃ m m', Ledger.Closes b m m' q ∧
        0 + 6 + ((m.standing.electorateAt b.timestamp).power q.mode).toNat <
          6 + q.lost after.standing b.timestamp +
            ((after.standing.electorateAt b.timestamp).power q.mode).toNat := by
  obtain ⟨first, b, after, q, hfirst, hvalid, hq, hpassed, hearly, hnone, hada,
    hyes, hno, hcastable⟩ :=
    exists_closedAgain
  obtain ⟨m, m', -, hcloses, hmargin⟩ := early_pass_margin hfirst hvalid hq
    hpassed hearly (by rw [hnone]; exact fun _ hp => nomatch hp)
  have hbound := hmargin {"ada"} fun a ha => ⟨(hada a ha).1, (hada a ha).2.2⟩
  rw [hyes, hno, hcastable] at hbound
  exact ⟨first, b, after, q, hfirst, hvalid, hq, m, m', hcloses, hbound⟩

/-- An early pass need not be decisive: tokens that yes was voted with can still
be cast against it. -/
theorem early_pass_not_decisive :
    ¬ ∀ config n, Reachable config n →
      ∀ b after, n.chain.validate b = .ok after →
        ∀ q ∈ after.council.proposals, q.status = .passed →
          b.timestamp < q.endsAt →
          (∀ p ∈ n.chain.council.proposals, p.id = q.id → p.status = .running) →
          ∀ voters : Finset String,
            (∀ a ∈ voters, Address.isReserved a = false ∧
              after.council.delegations.delegateOf? a b.timestamp = none ∧
              q.powerUsedBy a = false) →
            q.tally.no.toNat + after.standing.castable b.timestamp q voters <
              q.tally.yes.toNat := by
  intro h
  obtain ⟨first, b, after, q, hfirst, hvalid, hq, hpassed, hearly, hnone, hada,
    hyes, hno, hcastable⟩ :=
    exists_closedAgain
  have hbound := h .threeHolders first hfirst b after hvalid q hq hpassed hearly
    (by rw [hnone]; exact fun _ hp => nomatch hp) {"ada"} hada
  rw [hyes, hno, hcastable] at hbound
  exact absurd hbound (by decide)

end Node
end CouncilLedger
