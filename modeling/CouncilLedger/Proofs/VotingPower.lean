import CouncilLedger.Proofs.Eligibility
import CouncilLedger.Query

/-!
# Voting power as it is shown and as it is cast

What an account can vote with is shown as of the clock, and a vote is cast as of
its block, whose time does not go back behind the tip. Where the delegations
from and to the account are in force at both of these times alike, as they are
while the clock is not behind the tip, the power that is shown is that of a vote
on a proposal without votes, and none is shown just when such a vote is refused
for power that is lent out or for want of any. Where the clock is behind, power
can be shown that the next vote does not have, because it was lent since. The
main statements are `Node.votingPower_is_cast` and `Node.votingPower_behind`.
-/

namespace CouncilLedger

/-! ## What is in force at two times -/

namespace Delegations

variable {ds : Delegations} {a : String} {t u : UInt64}

/-- The delegations from and to an account that are in force at one time are
those at another. -/
def SameFor (ds : Delegations) (a : String) (t u : UInt64) : Prop :=
  ∀ d ∈ ds.values, d.delegator = a ∨ d.delegate = a →
    d.isActiveAt t = d.isActiveAt u

/-- Time that has not gone back is that of the block. -/
theorem sameFor_max (ds : Delegations) (a : String) {clock time : UInt64}
    (h : time ≤ clock) : ds.SameFor a clock (max clock time) := by
  have hmax : max clock time = clock := by
    rw [← UInt64.toNat_inj, Amount.toNat_max]
    exact Nat.max_eq_left h
  rw [hmax]
  exact fun _ _ _ => rfl

theorem SameFor.delegateOf?_eq (h : ds.SameFor a t u) (hkeyed : ds.Keyed) :
    ds.delegateOf? a t = ds.delegateOf? a u := by
  unfold delegateOf?
  cases hd : ds.get? a with
  | none => rfl
  | some d =>
    rw [Option.filter_some, Option.filter_some,
      h d (SortedMap.mem_values_of_get? hd) (.inl (hkeyed a d hd).1)]

theorem SameFor.toDelegate_eq (h : ds.SameFor a t u) :
    ds.toDelegate a t = ds.toDelegate a u := by
  refine List.filter_congr fun d hd => ?_
  by_cases hto : d.delegate = a
  · rw [h d hd (.inr hto)]
  · simp [hto]

end Delegations

namespace Standing

variable {s : Standing} {a : String} {now t u : UInt64}

theorem effective_eq_of_sameFor (h : s.delegations.SameFor a t u)
    (hkeyed : s.delegations.Keyed) : s.effective a t = s.effective a u := by
  rw [effective, effective, own, own, delegated, delegated,
    h.delegateOf?_eq hkeyed, h.toDelegate_eq]

/-- Who lends its power has none. -/
theorem effective_eq_zero_of_lends (hsound : s.Sound now)
    (hlends : s.delegations.delegateOf? a t ≠ none) : s.effective a t = 0 := by
  rw [effective, own, if_pos (Option.isSome_iff_ne_none.mpr hlends), delegated,
    hsound.oneHop.toDelegate_eq_nil hsound.keyed hlends]
  rfl

end Standing

/-! ## Votes without power -/

/-- What a vote without power is refused for: the power is lent, or there is
none. -/
def Delegations.withoutPower (ds : Delegations) (a : String) (t : UInt64) :
    Rejection :=
  match ds.delegateOf? a t with
  | some delegate => .unauthorized (.lentPower a delegate)
  | none => .insufficientBalance a 0 1

namespace Council

variable {c : Council} {id voter : String} {p : Proposal} {choice : Choice}
    {backing : Backing}
variable {now : UInt64} {e : UInt64 → Electorate} {transaction : Digest}

theorem vote_without_power (hp : c.proposal? id = some p)
    (hunused : p.powerUsedBy voter = false) (hnothing : backing.balance = 0) :
    c.vote id voter choice backing now e transaction =
      .error (c.delegations.withoutPower voter now) := by
  cases hlends : c.delegations.delegateOf? voter now <;>
    simp [vote, Delegations.withoutPower, hlends, proposal_eq_ok.mpr hp,
      hunused, hnothing, VotingMode.weight_zero, bind, Except.bind, throw,
      throwThe, MonadExceptOf.throw]

end Council

/-- A vote is as its council takes it. -/
theorem Ledger.act_vote {l : Ledger} {t : Transaction} {height now : UInt64}
    {text id : String} {choice : Choice} {p : Proposal}
    (haction : t.action = .vote text choice) (hmay : MaySend t height)
    (hname : Council.normalizeId text = .ok id)
    (hp : l.council.proposal? id = some p) :
    l.act t height now =
      (l.council.vote id t.sender choice (l.standing.backing t.sender now p) now
        (fun _ => l.standing.electorateAt now) t.hash).map
        fun council => { l with council } := by
  have hvote : l.act t height now = l.vote t now text choice := by
    rw [act, haction]
    exact (if_neg hmay.late).trans
      (if_neg (by rw [hmay.unreserved]; exact Bool.false_ne_true))
  rw [hvote, vote, hname]
  show (l.council.proposal id >>= _) = _
  rw [Council.proposal_eq_ok.mpr hp]
  show (l.council.vote _ _ _ _ _ _ _ >>= _) = _
  cases l.council.vote id t.sender choice (l.standing.backing t.sender now p)
    now (fun _ => l.standing.electorateAt now) t.hash <;> rfl

theorem Chain.act_vote_without_power {rules : Rules} {blocks : List Block}
    {c : Chain} {u : Transaction} {height t : UInt64} {text : String}
    {choice : Choice} {p : Proposal} (h : ofBlocks rules blocks = .ok c)
    (ht : c.time ≤ t) (hmay : Ledger.MaySend u height)
    (haction : u.action = .vote text choice) (hp : p ∈ c.council.proposals)
    (hname : Council.normalizeId text = .ok p.id) (hearly : t < p.endsAt)
    (hunused : p.powerUsedBy u.sender = false)
    (hnothing : (c.standing.backing u.sender t p).balance = 0) :
    (c.readyFor u.sender t).act u height t =
      .error (c.council.delegations.withoutPower u.sender t) := by
  have hcouncil := readyFor_council h ht u.sender
  have hfound := proposal?_closedAt h ht hp hearly
  rw [← hcouncil] at hfound
  have hsame :
      ((c.readyFor u.sender t).standing.backing u.sender t p).balance =
        0 := hnothing
  rw [Ledger.act_vote haction hmay hname hfound,
    Council.vote_without_power hfound hunused hsame, hcouncil]
  rfl

/-- On an open proposal without votes an account may vote if it has any
power. -/
theorem Chain.eligible_of_effective {rules : Rules} {blocks : List Block}
    {c : Chain} {a : String} {t : UInt64} {p : Proposal}
    (h : ofBlocks rules blocks = .ok c) (hp : p ∈ c.council.proposals)
    (hrunning : p.status = .running) (hearly : t < p.endsAt)
    (hvotes : p.votes = .empty) (hpower : c.standing.effective a t ≠ 0) :
    c.Eligible a p t ∧
      (c.standing.effective a t).toNat = c.standing.support a t p := by
  have hsound := sound_of_ofBlocks h
  have hapart := powerApart_of_ofBlocks h
  have hunlent : c.council.delegations.delegateOf? a t = none := by
    by_contra hlends
    exact hpower (Standing.effective_eq_zero_of_lends hsound hlends)
  have hsupport :=
    Standing.toNat_backing_eq_support hsound (hapart.proposals p hp) hunlent
  rw [Standing.backing_eq_effective hvotes] at hsupport
  refine ⟨⟨hrunning, hearly,
    hapart.delegations.delegateOf?_eq_none_iff.mp hunlent, ?_, ?_⟩, hsupport⟩
  · rw [hvotes]
    exact List.not_mem_nil
  · rw [← hsupport]
    exact Nat.pos_of_ne_zero fun hzero => hpower (UInt64.toNat_inj.mp hzero)

theorem Chain.votingPower_eq {c : Chain} {a : String}
    (haddress : Address.check a = .ok ()) (clock : UInt64) :
    c.votingPower clock a =
      .ok ⟨a, c.standing.own a clock, c.standing.delegated a clock,
           c.standing.effective a clock⟩ := by
  rw [votingPower, haddress]
  rfl

/-! ## The main statements -/

namespace Node

variable {config : Config} {n : Node} {m : Moment} {a text : String}
    {choice : Choice}
variable {p : Proposal}

namespace Tracks

variable {blocks : List Block} (h : n.Tracks config blocks) (hne : blocks ≠ [])
variable (hunreserved : Address.isReserved a = false)
variable (hlimits : n.chain.WithinLimits m.clock a (.vote text choice))
variable (haddress : Address.check a = .ok ())
    (htakes : n.dir = none ∨ m.diskTakes = true)
variable (hp : p ∈ n.chain.council.proposals)
    (hname : Council.normalizeId text = .ok p.id)

include h hne hunreserved hlimits haddress htakes hp hname

/-- The vote of an account with nothing behind it is refused for that. -/
theorem vote_without_power (hearly : max m.clock n.chain.time < p.endsAt)
    (hunused : p.powerUsedBy a = false)
    (hnothing : (n.chain.standing.backing a (max m.clock n.chain.time)
        p).balance =
      0) :
    (n.submit m a (.vote text choice)).1 =
      .error (n.chain.council.delegations.withoutPower a
        (max m.clock n.chain.time)) := by
  obtain ⟨tip, htip⟩ := h.records.exists_tip hne
  obtain ⟨t, b, hblock⟩ :=
    Chain.exists_blockFor haddress htip m.clock (.vote text choice)
  rw [h.submit_eq_act hlimits hblock htakes]
  have hlate := h.height_ne_zero hne hlimits hblock
  have ht := Chain.time_le_of_blockFor hblock
  rw [← Chain.timestamp_of_blockFor hblock] at hearly hnothing ⊢
  obtain ⟨rfl, haction⟩ := Chain.sent_of_blockFor hblock
  have hact := Chain.act_vote_without_power
    (u := { t with blockHash := b.hash }) h.history ht
    ⟨hlate, hunreserved⟩ haction hp hname hearly hunused hnothing
  rw [hact]
  rfl

/-- The vote of an account with power on an open proposal without votes is
weighted from it. -/
theorem vote_with_power (hrunning : p.status = .running)
    (hearly : max m.clock n.chain.time < p.endsAt) (hvotes : p.votes = .empty)
    (hpower : n.chain.standing.effective a (max m.clock n.chain.time) ≠ 0) :
    ∃ receipt v, (n.submit m a (.vote text choice)).1 = .ok receipt ∧
      v.transaction = receipt.transaction ∧ v.voter = a ∧ v.choice = choice ∧
      v.weight =
        p.mode.weight
          (n.chain.standing.effective a (max m.clock n.chain.time)) ∧
      n.chain.Gains (n.submit m a (.vote text choice)).2.chain p v := by
  obtain ⟨heligible, hsupport⟩ :=
    Chain.eligible_of_effective h.history hp hrunning hearly hvotes hpower
  obtain ⟨receipt, v, hreceipt, hv, htransaction, hgains⟩ :=
    h.vote_of_eligible hne hunreserved hlimits haddress htakes hp hname heligible
  obtain ⟨balance, hbalance, hweight⟩ := hv.weight
  rw [UInt64.toNat_inj.mp (hbalance.trans hsupport.symm)] at hweight
  exact ⟨receipt, v, hreceipt, htransaction, hv.voter, hv.choice,
    hweight, hgains⟩

end Tracks

/-- **The power that is shown is the power that is cast.** A well-formed account
that is not reserved is shown its power, and where its delegations are in force
alike as of the clock and as of the time of a write, this is what its vote on an
open proposal without votes is weighted from. None is shown exactly when this
vote is refused for want of power; otherwise it is taken with the weight of what
was shown. -/
theorem votingPower_is_cast (h : n.Reachable config)
    (hunreserved : Address.isReserved a = false)
    (haddress : Address.check a = .ok ())
    (hsame : n.chain.council.delegations.SameFor a m.clock
      (max m.clock n.chain.time)) (hp : p ∈ n.chain.council.proposals)
    (hname : Council.normalizeId text = .ok p.id)
    (hrunning : p.status = .running)
    (hearly : max m.clock n.chain.time < p.endsAt) (hvotes : p.votes = .empty)
    (htakes : n.dir = none ∨ m.diskTakes = true)
    (hlimits : n.chain.WithinLimits m.clock a (.vote text choice)) :
    ∃ view, n.chain.votingPower m.clock a = .ok view ∧
      (n.chain.standing.backing a (max m.clock n.chain.time) p).balance =
        view.effective ∧
      (view.effective = 0 ↔
        (n.submit m a (.vote text choice)).1 =
          .error (n.chain.council.delegations.withoutPower a
            (max m.clock n.chain.time))) ∧
      (view.effective ≠ 0 →
        ∃ receipt v, (n.submit m a (.vote text choice)).1 = .ok receipt ∧
          v.transaction = receipt.transaction ∧ v.voter = a ∧
          v.choice = choice ∧ v.weight = p.mode.weight view.effective ∧
          n.chain.Gains (n.submit m a (.vote text choice)).2.chain p v) := by
  obtain ⟨rest, htracks⟩ := h.tracks
  have hne : config.genesisBlock :: rest ≠ [] := List.cons_ne_nil _ _
  have hunused : p.powerUsedBy a = false := by
    rw [Proposal.powerUsedBy, hvotes]; rfl
  have hshown : n.chain.standing.effective a m.clock =
      n.chain.standing.effective a (max m.clock n.chain.time) :=
    Standing.effective_eq_of_sameFor hsame
      (Chain.powerApart_of_ofBlocks htracks.history).delegations
  have hcast :
      (n.chain.standing.backing a (max m.clock n.chain.time) p).balance =
        n.chain.standing.effective a (max m.clock n.chain.time) :=
    Standing.backing_eq_effective hvotes
  have htaken := htracks.vote_with_power hne hunreserved hlimits haddress htakes
    hp hname hrunning hearly hvotes
  refine ⟨_, Chain.votingPower_eq haddress m.clock, ?_⟩
  dsimp only
  rw [hshown]
  refine ⟨hcast, ⟨fun hnone => ?_, fun hrefused => ?_⟩, htaken⟩
  · exact htracks.vote_without_power hne hunreserved hlimits haddress htakes hp
      hname hearly hunused (hcast.trans hnone)
  · by_contra hpower
    obtain ⟨receipt, -, hreceipt, -⟩ := htaken hpower
    cases hrefused.symm.trans hreceipt

/-- The eight tokens behind "ada" are shown, and its vote weighs as much. -/
theorem votingPower_is_cast_lent :
    ∃ n p receipt v view, Reachable .lateStart n ∧
      p ∈ n.chain.council.proposals ∧ n.chain.votingPower 104 "ada" = .ok view ∧
      view.effective = 8 ∧
      (n.submit ⟨104, true⟩ "ada"
          (.vote (Transaction.benches 100).hash.hex .yes)).1 =
        .ok receipt ∧
      v.transaction = receipt.transaction ∧ v.weight = 8 ∧
      n.chain.Gains (n.submit ⟨104, true⟩ "ada"
        (.vote (Transaction.benches 100).hash.hex .yes)).2.chain p v := by
  obtain ⟨n, hn, p, hp, hlent⟩ := exists_lentToProposer
  have hlate : n.chain.time ≤ 104 := by rw [hlent.time]; decide
  have hearly : max 104 n.chain.time < p.endsAt := by
    rw [hlent.time]
    exact hlent.eligible.early
  obtain ⟨view, hview, -, -, htaken⟩ :=
    votingPower_is_cast (m := ⟨104, true⟩) hn (by decide) (by decide)
      (n.chain.council.delegations.sameFor_max "ada" hlate) hp hlent.named
      hlent.eligible.running hearly hlent.votes
      (.inl (Option.isNone_iff_eq_none.mp hlent.inMemory))
      (hn.withinLimits hlent.fits)
  have height : view.effective = 8 := by
    cases hview.symm.trans (Chain.votingPower_eq (by decide) 104)
    exact hlent.effective
  rw [height] at htaken
  obtain ⟨receipt, v, hreceipt, htransaction, -, -, hweight, hgains⟩ :=
    htaken (by decide)
  refine ⟨n, p, receipt, v, view, hn, hp, hview, height, hreceipt,
    htransaction, ?_, hgains⟩
  rw [hweight, hlent.mode]
  rfl

/-- While the clock is behind the block in which "ben" lent its power, its three
tokens are still shown, but its vote has none. -/
theorem votingPower_behind :
    ∃ n p view, Reachable .lateStart n ∧ n.dir = none ∧
      p ∈ n.chain.council.proposals ∧ p.status = .running ∧
      max 0 n.chain.time < p.endsAt ∧ p.votes = .empty ∧
      n.chain.votingPower 0 "ben" = .ok view ∧ view.effective = 3 ∧
      (n.chain.standing.backing "ben" (max 0 n.chain.time) p).balance = 0 ∧
      (n.submit ⟨0, true⟩ "ben"
          (.vote (Transaction.benches 100).hash.hex .yes)).1 =
        .error (.unauthorized (.lentPower "ben" "ada")) ∧
      Council.normalizeId (Transaction.benches 100).hash.hex = .ok p.id := by
  obtain ⟨n, hn, p, hp, hlent⟩ := exists_lentToProposer
  obtain ⟨rest, htracks⟩ := hn.tracks
  have hmax : max 0 n.chain.time = 100 := by rw [hlent.time]; rfl
  have hearly : max 0 n.chain.time < p.endsAt := by
    rw [hmax]
    exact UInt64.lt_trans (by decide) hlent.eligible.early
  have hlends :
      n.chain.standing.delegations.delegateOf? "ben" (max 0 n.chain.time) =
        some "ada" := by
    rw [hmax]
    exact hlent.lent
  have hnothing :
      (n.chain.standing.backing "ben" (max 0 n.chain.time) p).balance = 0 := by
    rw [Standing.backing_eq_effective hlent.votes]
    exact Standing.effective_eq_zero_of_lends
      (Chain.sound_of_ofBlocks htracks.history) (by rw [hlends]; nofun)
  have hinMemory := Option.isNone_iff_eq_none.mp hlent.inMemory
  have hrefused := htracks.vote_without_power (m := ⟨0, true⟩)
    (List.cons_ne_nil _ _) (by decide)
    (hn.withinLimits hlent.fitsBehind) (by decide)
      (.inl hinMemory) hp hlent.named hearly
    (by rw [Proposal.powerUsedBy, hlent.votes]; rfl) hnothing
  refine ⟨n, p, _, hn, hinMemory, hp, hlent.eligible.running, hearly,
    hlent.votes, Chain.votingPower_eq (by decide) 0, hlent.effectiveBefore,
    hnothing, ?_, hlent.named⟩
  rw [hrefused, Delegations.withoutPower]
  show Except.error (match n.chain.standing.delegations.delegateOf? "ben"
    (max 0 n.chain.time) with
    | some delegate => _ | none => _) = _
  rw [hlends]

end Node
end CouncilLedger
