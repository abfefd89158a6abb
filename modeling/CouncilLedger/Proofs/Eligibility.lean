import CouncilLedger.Proofs.Castable
import CouncilLedger.Proofs.Closing
import CouncilLedger.Proofs.Writes

/-!
# Who may vote

A vote is written in a block that first closes what is due, and then passes the
checks of the ledger and of the council. All of it comes to this: the proposal
is open and has time left, the voter has not lent its power, no vote on the
proposal carries that power yet, and the voter and those who lend to it hold
something. A vote that is taken carries just these lenders, and changes nothing
but the votes on its proposal. The main statement is
`Node.vote_taken_iff_eligible`.
-/

namespace CouncilLedger

open Outcome

/-! ## What stands behind a voter -/

namespace Standing

/-- The accounts that lend their power to a voter, but for those that a vote on
the proposal carries. -/
def lenders (s : Standing) (voter : String) (t : UInt64) (p : Proposal) :
    List String :=
  ((s.delegations.active t).filter fun d =>
    d.delegate = voter ∧
      d.delegator ∉ p.votes.values.flatMap Vote.accounts).map (·.delegator)

/-- What a voter holds together with these. -/
def support (s : Standing) (voter : String) (t : UInt64) (p : Proposal) : Nat :=
  (s.accounts.balance voter).toNat +
    ((s.lenders voter t p).map fun a => (s.accounts.balance a).toNat).sum

variable {s : Standing} {voter : String} {now t : UInt64} {p : Proposal}

theorem delegators_backing (hapart : p.PowerApart) :
    (s.backing voter t p).delegators = s.lenders voter t p := by
  rw [backing_delegators, lenders, Delegations.toDelegate, Delegations.active,
    List.filter_filter, List.filter_filter]
  congr 1
  refine List.filter_congr fun d _ => ?_
  have hused : p.powerUsedBy d.delegator =
      decide (d.delegator ∈ p.votes.values.flatMap Vote.accounts) :=
    Bool.eq_iff_iff.mpr (hapart.powerUsedBy_iff.trans decide_eq_true_iff.symm)
  rw [hused]
  grind

/-- A vote is weighted from all of it, to the last token. -/
theorem toNat_backing_eq_support (hsound : s.Sound now) (hapart : p.PowerApart)
    (hunlent : s.delegations.delegateOf? voter t = none) :
    (s.backing voter t p).balance.toNat = s.support voter t p := by
  have hown : s.own voter t = s.accounts.balance voter := by
    rw [own, hunlent]
    rfl
  have hfits := sum_backing_lt hsound voter t p
  rw [toNat_backing]
  rw [hown, delegators_backing hapart] at hfits ⊢
  exact Nat.min_eq_left (Nat.le_sub_one_of_lt hfits)

end Standing

/-! ## The votes of a council -/

namespace Council

/-- The votes on each proposal, under its id. -/
def ballots (c : Council) : List (String × SortedMap String Vote) :=
  c.proposals.map fun p => (p.id, p.votes)

theorem ballots_settle (c : Council) (now : UInt64) (e : UInt64 → Electorate) :
    (c.settle now e).ballots = c.ballots := by
  simp only [ballots, settle, List.map_map, Function.comp_def]

/-- Another state of one proposal changes its votes only. -/
theorem ballots_setProposal {c : Council} {id : String} {p q : Proposal}
    (hids : (c.proposals.map (·.id)).Nodup) (hp : c.proposal? id = some p)
    (hid : q.id = p.id) :
    (c.setProposal q).ballots =
      c.ballots.map fun b => (b.1, if b.1 = p.id then q.votes else b.2) := by
  obtain ⟨before, after, hold, hnew⟩ := setProposal_of_proposal? hp hid
  rw [hold, List.map_append, List.map_cons, List.nodup_append] at hids
  obtain ⟨-, hafter, hbefore⟩ := hids
  have hsame : ∀ l : List Proposal, (∀ r ∈ l, r.id ≠ p.id) →
      (l.map fun r => (r.id, r.votes)).map (fun b =>
        (b.1, if b.1 = p.id then q.votes else b.2)) =
        l.map fun r => (r.id, r.votes) := by
    intro l hl
    rw [List.map_map]
    exact List.map_congr_left fun r hr => congrArg (Prod.mk r.id)
      (if_neg (hl r hr))
  rw [ballots, ballots,
    hnew, hold, List.map_append, List.map_cons, List.map_append, List.map_cons,
    List.map_append, List.map_cons, hsame before, hsame after, if_pos rfl, hid]
  · intro r hr heq
    exact (List.nodup_cons.mp hafter).1 (List.mem_map.mpr ⟨r, hr, heq⟩)
  · intro r hr
    exact hbefore _ (List.mem_map.mpr ⟨r, hr, rfl⟩) _ List.mem_cons_self

end Council

/-! ## Eligible voters -/

namespace Chain

/-- An account may vote on a proposal at a time. -/
structure Eligible (c : Chain) (voter : String) (p : Proposal) (t : UInt64) :
    Prop where
  running : p.status = .running
  early : t < p.endsAt
  unlent : ∀ d ∈ c.council.delegations.active t, d.delegator ≠ voter
  unused : voter ∉ p.votes.values.flatMap Vote.accounts
  supported : 0 < c.standing.support voter t p

/-- The vote of an account on a proposal at a time. -/
def voteOf (c : Chain) (voter : String) (p : Proposal) (choice : Choice)
    (t : UInt64) (transaction : Digest) : Vote :=
  let backing := c.standing.backing voter t p
  ⟨voter, choice, p.mode.weight backing.balance, t, transaction,
    backing.delegators⟩

variable {rules : Rules} {blocks : List Block} {c : Chain} {p : Proposal}
    {t height : UInt64}
variable {u : Transaction} {text : String} {choice : Choice} {l : Ledger}

theorem readyFor_council (h : ofBlocks rules blocks = .ok c) (ht : c.time ≤ t)
    (sender : String) : (c.readyFor sender t).council = c.closedAt t :=
  settle_eq_closedAt h ht

/-- To close what is due leaves a proposal open only if it is the same. -/
theorem closed_eq_of_running (h : (c.closed t p).status = .running) :
    c.closed t p = p := by
  unfold closed at h ⊢
  split at h
  · exact absurd h (p.finalOutcome_ne_running _ _)
  · next hopen => rw [if_neg hopen]

/-- The ledger after a vote that is taken. -/
def withVoteOf (c : Chain) (voter : String) (p : Proposal) (choice : Choice)
    (t : UInt64) (transaction : Digest) : Ledger :=
  { c.readyFor voter t with
    council := (c.closedAt t).setProposal (p.withVote
        (c.voteOf voter p choice t transaction) (c.standing.electorateAt t)) }

/-- The vote of an account that has not lent its power weighs something if
anything supports it. -/
theorem weight_ne_zero_iff_supported (h : ofBlocks rules blocks = .ok c)
    {voter : String} (hp : p ∈ c.council.proposals)
    (hunlent : c.council.delegations.delegateOf? voter t = none) :
    p.mode.weight (c.standing.backing voter t p).balance ≠ 0 ↔
      0 < c.standing.support voter t p := by
  have hapart := (powerApart_of_ofBlocks h).proposals p hp
  rw [p.mode.weight_ne_zero_iff,
    Standing.toNat_backing_eq_support (sound_of_ofBlocks h) hapart hunlent]

theorem closedAt_powerApart (h : ofBlocks rules blocks = .ok c)
    (ht : c.time ≤ t) : (c.closedAt t).PowerApart :=
  settle_eq_closedAt h ht ▸ (powerApart_of_ofBlocks h).settle _ _

/-- A proposal that has time left is found as it is when what is due is
closed. -/
theorem proposal?_closedAt (h : ofBlocks rules blocks = .ok c) (ht : c.time ≤ t)
    (hp : p ∈ c.council.proposals) (hearly : t < p.endsAt) :
    (c.closedAt t).proposal? p.id = some p := by
  have hopen : c.closed t p = p :=
    if_neg fun hdue => UInt64.not_le.mpr hearly (Proposal.isDue_iff.mp hdue).2
  exact (closedAt_powerApart h ht).proposal?_of_mem
    (List.mem_map.mpr ⟨p, hp, hopen⟩)

theorem Eligible.powerUsedBy_eq_false {voter : String}
    (heligible : c.Eligible voter p t) (h : ofBlocks rules blocks = .ok c)
    (hp : p ∈ c.council.proposals) : p.powerUsedBy voter = false := by
  rw [← Bool.not_eq_true,
    ((powerApart_of_ofBlocks h).proposals p hp).powerUsedBy_iff]
  exact heligible.unused

/-- **A vote is taken from those who are eligible** on an open proposal, and
from nobody else. -/
theorem act_vote_eq_ok (h : ofBlocks rules blocks = .ok c) (ht : c.time ≤ t)
    (hlate : height ≠ 0) (hunreserved : Address.isReserved u.sender = false)
    (haction : u.action = .vote text choice) :
    (c.readyFor u.sender t).act u height t = .ok l ↔
      ∃ p ∈ c.council.proposals, Council.normalizeId text = .ok p.id ∧
        c.Eligible u.sender p t ∧
        l = c.withVoteOf u.sender p choice t u.hash := by
  have hcouncil := readyFor_council h ht u.sender
  have hapart : c.council.PowerApart := powerApart_of_ofBlocks h
  -- what stands behind the voter is not changed by closing or by its nonce
  have hbacking (p : Proposal) :
      (c.readyFor u.sender t).standing.backing u.sender t p =
        c.standing.backing u.sender t p := rfl
  constructor
  · intro hact
    cases Ledger.acted_of_act hact with
    | @vote text' id choice' p' council action may names found ok =>
      cases haction.symm.trans action
      rw [hcouncil] at found ok
      obtain ⟨q, hq, hunlent, hunused, hnonzero, hopen, rfl⟩ :=
        Council.vote_ok ok
      cases found.symm.trans hq
      obtain ⟨hrunning, hearly⟩ := Proposal.statusAt_eq_running_iff.mp hopen
      obtain ⟨p, hp, hclosing⟩ :=
        List.mem_map.mp (Council.mem_of_proposal? found)
      obtain rfl : p = p' := by
        rw [← hclosing] at hrunning ⊢
        exact (closed_eq_of_running hrunning).symm
      rw [hbacking] at hnonzero
      refine ⟨p, hp, ?_, ⟨hrunning, hearly, ?_, ?_, ?_⟩, rfl⟩
      · rw [names, Council.id_of_proposal? found]
      · exact hapart.delegations.delegateOf?_eq_none_iff.mp hunlent
      · rw [← (hapart.proposals p hp).powerUsedBy_iff, hunused]
        exact Bool.false_ne_true
      · exact (weight_ne_zero_iff_supported h hp hunlent).mp hnonzero
    | mint action | transfer action | propose action | payOut action
    | delegate action | revoke action => cases haction.symm.trans action
  · rintro ⟨p, hp, hname, heligible, rfl⟩
    have hfound := proposal?_closedAt h ht hp heligible.early
    have hunlent :=
      hapart.delegations.delegateOf?_eq_none_iff.mpr heligible.unlent
    have hunused := heligible.powerUsedBy_eq_false h hp
    have hvote :
        (c.closedAt t).vote p.id u.sender choice
            (c.standing.backing u.sender t p) t
            (fun _ => c.standing.electorateAt t) u.hash =
          .ok (c.withVoteOf u.sender p choice t u.hash).council :=
      Council.vote_of hfound hunlent hunused
        ((weight_ne_zero_iff_supported h hp hunlent).mpr heligible.supported)
        (Proposal.statusAt_eq_running_iff.mpr ⟨heligible.running,
          heligible.early⟩)
    rw [← hcouncil] at hfound hvote
    exact Ledger.act_of_acted
      (.vote haction ⟨hlate, hunreserved⟩ hname hfound hvote)

/-! ## What a vote changes -/

/-- A chain after a vote: the proposal has one vote more, of a voter who had
none. -/
structure Gains (c d : Chain) (p : Proposal) (v : Vote) : Prop where
  fresh : p.votes.get? v.voter = none
  ballots : d.council.ballots = c.council.ballots.map fun b =>
    (b.1, if b.1 = p.id then p.votes.insert v.voter v else b.2)
  balances : d.accounts.balances = c.accounts.balances
  supply : d.accounts.supply = c.accounts.supply
  delegations : d.council.delegations = c.council.delegations

theorem gains_of_eligible (h : ofBlocks rules blocks = .ok c) (ht : c.time ≤ t)
    (hp : p ∈ c.council.proposals) {voter : String}
    (heligible : c.Eligible voter p t) (choice : Choice) (transaction : Digest)
    (b : Block) :
    c.Gains
      (c.extended b ((c.withVoteOf voter p choice t transaction).settle t)) p
      (c.voteOf voter p choice t transaction) := by
  refine ⟨Proposal.get?_votes_of_unused (heligible.powerUsedBy_eq_false h hp),
    ?_, rfl, rfl, rfl⟩
  have hclosing : (c.closedAt t).ballots = c.council.ballots :=
    settle_eq_closedAt h ht ▸ c.council.ballots_settle t _
  show (Council.settle _ t _).ballots = _
  rw [Council.ballots_settle, ← hclosing]
  exact Council.ballots_setProposal (closedAt_powerApart h ht).ids
    (proposal?_closedAt h ht hp heligible.early) rfl

end Chain

/-- A vote of an account with all that stands behind it. -/
structure Vote.IsOf (v : Vote) (s : Standing) (account : String) (p : Proposal)
    (said : Choice) (t : UInt64) : Prop where
  voter : v.voter = account
  choice : v.choice = said
  timestamp : v.timestamp = t
  weight : ∃ balance : Amount, balance.toNat = s.support account t p ∧
    v.weight = p.mode.weight balance
  delegators : v.delegators = s.lenders account t p

theorem Chain.Eligible.voteOf_isOf {rules : Rules} {blocks : List Block}
    {c : Chain} {voter : String} {p : Proposal} {t : UInt64}
    (heligible : c.Eligible voter p t) (h : ofBlocks rules blocks = .ok c)
    (hp : p ∈ c.council.proposals) (choice : Choice) (transaction : Digest) :
    (c.voteOf voter p choice t transaction).IsOf c.standing voter p choice
      t := by
  have hapart : c.council.PowerApart := powerApart_of_ofBlocks h
  have hunlent := hapart.delegations.delegateOf?_eq_none_iff.mpr heligible.unlent
  have hsupport :=
    Standing.toNat_backing_eq_support (sound_of_ofBlocks h)
      (hapart.proposals p hp) hunlent
  exact ⟨rfl, rfl, rfl, ⟨_, hsupport, rfl⟩, Standing.delegators_backing
    (hapart.proposals p hp)⟩

/-! ## The main statement -/

namespace Node

variable {config : Config} {n : Node} {m : Moment}

namespace Tracks

variable {blocks : List Block} {voter text : String}
    {choice : Choice} {p : Proposal}
variable (h : n.Tracks config blocks) (hne : blocks ≠ [])
variable (hunreserved : Address.isReserved voter = false)
variable (hlimits : n.chain.WithinLimits m.clock voter (.vote text choice))

include h hne hunreserved hlimits

/-- In the block of a write, a vote is taken from those who are eligible. -/
theorem act_vote_iff {t : Transaction} {b : Block}
    (hblock : n.chain.blockFor m.clock voter (.vote text choice) = .ok (t, b))
    {l : Ledger} :
    (n.chain.readyFor voter b.timestamp).act { t with blockHash := b.hash }
          b.height b.timestamp =
        .ok l ↔
      ∃ p ∈ n.chain.council.proposals, Council.normalizeId text = .ok p.id ∧
        n.chain.Eligible voter p b.timestamp ∧
        l = n.chain.withVoteOf voter p choice b.timestamp t.hash := by
  have hlate := h.height_ne_zero hne hlimits hblock
  have ht := Chain.time_le_of_blockFor hblock
  obtain ⟨rfl, haction⟩ := Chain.sent_of_blockFor hblock
  exact Chain.act_vote_eq_ok h.history ht hlate hunreserved haction

/-- A vote that succeeds is that of an account that was eligible. -/
theorem eligible_of_vote {receipt : Receipt}
    (hreceipt : (n.submit m voter (.vote text choice)).1 = .ok receipt) :
    ∃ p ∈ n.chain.council.proposals, Council.normalizeId text = .ok p.id ∧
      n.chain.Eligible voter p (max m.clock n.chain.time) ∧
      ∃ v : Vote,
        v.IsOf n.chain.standing voter p choice (max m.clock n.chain.time) ∧
        v.transaction = receipt.transaction ∧
        n.chain.Gains (n.submit m voter (.vote text choice)).2.chain p v := by
  obtain ⟨t, b, l, hblock, rfl, hact, hchain⟩ :=
    h.of_write (Prod.ext hreceipt rfl)
  obtain ⟨p, hp, hname, heligible, rfl⟩ :=
    (h.act_vote_iff hne hunreserved hlimits hblock).mp hact
  have hgains := Chain.gains_of_eligible h.history
    (Chain.time_le_of_blockFor hblock) hp heligible choice t.hash b
  rw [← hchain] at hgains
  have hof := heligible.voteOf_isOf h.history hp choice t.hash
  rw [Chain.timestamp_of_blockFor hblock] at heligible hof hgains
  exact ⟨p, hp, hname, heligible, _, hof, rfl, hgains⟩

/-- The vote of an account that is eligible succeeds. -/
theorem vote_of_eligible (haddress : Address.check voter = .ok ())
    (htakes : n.dir = none ∨ m.diskTakes = true)
    (hp : p ∈ n.chain.council.proposals)
    (hname : Council.normalizeId text = .ok p.id)
    (heligible : n.chain.Eligible voter p (max m.clock n.chain.time)) :
    ∃ receipt v, (n.submit m voter (.vote text choice)).1 = .ok receipt ∧
      v.IsOf n.chain.standing voter p choice (max m.clock n.chain.time) ∧
      v.transaction = receipt.transaction ∧
      n.chain.Gains (n.submit m voter (.vote text choice)).2.chain p v := by
  obtain ⟨tip, htip⟩ := h.records.exists_tip hne
  obtain ⟨t, b, hblock⟩ :=
    Chain.exists_blockFor haddress htip m.clock (.vote text choice)
  rw [← Chain.timestamp_of_blockFor hblock] at heligible
  have hact := (h.act_vote_iff hne hunreserved hlimits hblock).mpr
    ⟨p, hp, hname, heligible, rfl⟩
  have hreceipt :
      (n.submit m voter (.vote text choice)).1 = .ok (Chain.receipt t b) := by
    rw [h.submit_eq_act hlimits hblock htakes, hact]
    rfl
  obtain ⟨q, hq, hnamed, -, v, hv⟩ :=
    h.eligible_of_vote hne hunreserved hlimits hreceipt
  -- no two proposals have one id
  obtain rfl : p = q := List.inj_on_of_nodup_map (Chain.powerApart_of_ofBlocks
    h.history).ids hp hq (Except.ok.inj (hname.symm.trans hnamed))
  exact ⟨_, v, hreceipt, hv⟩

end Tracks

/-- **A vote is taken exactly when its voter is eligible.** Within the limits of
the format, and where the disk takes the block, a well-formed account that is
not reserved votes with success if and only if the text names a proposal on
which it may vote at the time of the write. Then this proposal has one vote
more, which weighs what the voter and its lenders hold and carries just these
lenders; no other votes, no balances and no delegations are different. -/
theorem vote_taken_iff_eligible (h : n.Reachable config) {voter text : String}
    {choice : Choice} (hunreserved : Address.isReserved voter = false)
    (haddress : Address.check voter = .ok ())
    (htakes : n.dir = none ∨ m.diskTakes = true)
    (hlimits : n.chain.WithinLimits m.clock voter (.vote text choice)) :
    ((∃ receipt, (n.submit m voter (.vote text choice)).1 = .ok receipt) ↔
        ∃ p ∈ n.chain.council.proposals, Council.normalizeId text = .ok p.id ∧
          n.chain.Eligible voter p (max m.clock n.chain.time)) ∧
      ∀ receipt, (n.submit m voter (.vote text choice)).1 = .ok receipt →
        ∃ p ∈ n.chain.council.proposals, Council.normalizeId text = .ok p.id ∧
          n.chain.Eligible voter p (max m.clock n.chain.time) ∧
          ∃ v : Vote,
            v.IsOf n.chain.standing voter p choice (max m.clock n.chain.time) ∧
            v.transaction = receipt.transaction ∧
            n.chain.Gains (n.submit m voter (.vote text choice)).2.chain p
              v := by
  obtain ⟨rest, htracks⟩ := h.tracks
  have hne : config.genesisBlock :: rest ≠ [] := List.cons_ne_nil _ _
  refine ⟨⟨?_, ?_⟩, fun receipt =>
    htracks.eligible_of_vote hne hunreserved hlimits⟩
  · rintro ⟨receipt, hreceipt⟩
    obtain ⟨p, hp, hname, heligible, -⟩ :=
      htracks.eligible_of_vote hne hunreserved hlimits hreceipt
    exact ⟨p, hp, hname, heligible⟩
  · rintro ⟨p, hp, hname, heligible⟩
    obtain ⟨receipt, -, hreceipt, -⟩ :=
      htracks.vote_of_eligible hne hunreserved hlimits haddress htakes hp
        hname heligible
    exact ⟨receipt, hreceipt⟩

end Node

/-! ## A vote that carries a lender -/

/-- A proposal that "ada" makes. -/
def Transaction.benches (now : UInt64) : Transaction :=
  .ofAction "ada" 0 now (.propose
    { title := "Benches", description := "Two", kind := .general
      mode := .weighted, duration := 60, threshold := 50, funding := none })

/-- A block with this proposal, in which "ben" lends its power to "ada". -/
def Block.lentToProposer (now : UInt64) (parent : Option Digest) : Block :=
  .build 1 parent now [.ofAction "ben" 0 now (.delegate "ada" 60), .benches now]

theorem Block.isMade_lentToProposer (now : UInt64) (parent : Option Digest) :
    (lentToProposer now parent).IsMade :=
  isMade_build (by simp [Transaction.benches])

instance (c : Chain) (voter : String) (p : Proposal) (t : UInt64) :
    Decidable (c.Eligible voter p t) :=
  decidable_of_iff (p.status = .running ∧ t < p.endsAt ∧
      (∀ d ∈ c.council.delegations.active t, d.delegator ≠ voter) ∧
      voter ∉ p.votes.values.flatMap Vote.accounts ∧
      0 < c.standing.support voter t p)
    ⟨fun ⟨a, b, c, d, e⟩ => ⟨a, b, c, d, e⟩,
      fun ⟨a, b, c, d, e⟩ => ⟨a, b, c, d, e⟩⟩

/-- What is found of a node in memory after that block, and of its proposal. -/
structure Proposal.LentToProposer (p : Proposal) (n : Node) : Prop where
  inMemory : n.dir.isNone = true
  time : n.chain.time = 100
  fits : n.chain.fits 104 "ada"
    (.vote (Transaction.benches 100).hash.hex .yes) = true
  fitsBehind : n.chain.fits 0 "ben"
    (.vote (Transaction.benches 100).hash.hex .yes) = true
  id : p.id = (Transaction.benches 100).hash.hex
  mode : p.mode = .weighted
  votes : p.votes = .empty
  eligible : n.chain.Eligible "ada" p 104
  support : n.chain.standing.support "ada" 104 p = 8
  lenders : n.chain.standing.lenders "ada" 104 p = ["ben"]
  effective : n.chain.standing.effective "ada" 104 = 8
  lent : n.chain.council.delegations.delegateOf? "ben" 100 = some "ada"
  effectiveBefore : n.chain.standing.effective "ben" 0 = 3

instance (p : Proposal) (n : Node) : Decidable (p.LentToProposer n) :=
  decidable_of_iff (n.dir.isNone = true ∧ n.chain.time = 100 ∧
      n.chain.fits 104 "ada" (.vote (Transaction.benches 100).hash.hex .yes) =
        true ∧
      n.chain.fits 0 "ben" (.vote (Transaction.benches 100).hash.hex .yes) =
        true ∧
      p.id = (Transaction.benches 100).hash.hex ∧ p.mode = .weighted ∧
      p.votes = .empty ∧
      n.chain.Eligible "ada" p 104 ∧ n.chain.standing.support "ada" 104 p = 8 ∧
      n.chain.standing.lenders "ada" 104 p = ["ben"] ∧
      n.chain.standing.effective "ada" 104 = 8 ∧
      n.chain.council.delegations.delegateOf? "ben" 100 = some "ada" ∧
      n.chain.standing.effective "ben" 0 = 3)
    ⟨fun ⟨a, b, c, d, e, f, g, h, i, j, k, l, m⟩ =>
        ⟨a, b, c, d, e, f, g, h, i, j, k, l, m⟩,
      fun ⟨a, b, c, d, e, f, g, h, i, j, k, l, m⟩ =>
        ⟨a, b, c, d, e, f, g, h, i, j, k, l, m⟩⟩

theorem Proposal.LentToProposer.named {p : Proposal} {n : Node}
    (h : p.LentToProposer n) :
    Council.normalizeId (Transaction.benches 100).hash.hex = .ok p.id := by
  rw [Council.normalizeId, Digest.ofHex_hex, h.id]
  rfl

namespace Node

/-- A run reaches such a node. -/
theorem exists_lentToProposer : ∃ n, Reachable .lateStart n ∧
    ∃ p ∈ n.chain.council.proposals, p.LentToProposer n := by
  -- the kernel evaluates the run
  obtain ⟨-, -, n, -, -, hn, -, hfound⟩ := exists_of_commit .lateStart
    (fun c => .lentToProposer 100 (c.tip.map (·.hash)))
    (fun _ => Block.isMade_lentToProposer 100 _)
    (fun _ n => ∃ p ∈ n.chain.council.proposals, p.LentToProposer n)
    (by decide +kernel)
  exact ⟨n, hn, hfound⟩

/-- The vote of "ada" is taken, with all eight tokens and with "ben". -/
theorem vote_taken_iff_eligible_lent :
    ∃ n receipt p v, Reachable .lateStart n ∧
      (n.submit ⟨104, true⟩ "ada"
          (.vote (Transaction.benches 100).hash.hex .yes)).1 =
        .ok receipt ∧
      p ∈ n.chain.council.proposals ∧ v.transaction = receipt.transaction ∧
      n.chain.Gains (n.submit ⟨104, true⟩ "ada"
        (.vote (Transaction.benches 100).hash.hex .yes)).2.chain p v ∧
      v.weight.toNat = 8 ∧ v.delegators = ["ben"] := by
  obtain ⟨n, hn, p, hp, hlent⟩ := exists_lentToProposer
  have hmax : max 104 n.chain.time = 104 := by rw [hlent.time]; rfl
  obtain ⟨hiff, hgains⟩ :=
    vote_taken_iff_eligible (m := ⟨104, true⟩) hn (by decide) (by decide)
    (.inl (Option.isNone_iff_eq_none.mp hlent.inMemory))
      (hn.withinLimits hlent.fits)
  rw [hmax] at hiff hgains
  obtain ⟨receipt, hreceipt⟩ := hiff.mpr ⟨p, hp, hlent.named, hlent.eligible⟩
  obtain ⟨q, hq, hnamed, -, v, hv, htransaction, hgain⟩ :=
    hgains receipt hreceipt
  obtain ⟨rest, htracks⟩ := hn.tracks
  have hids := (Chain.powerApart_of_ofBlocks htracks.history).ids
  obtain rfl : p = q :=
    List.inj_on_of_nodup_map hids hp hq
      (Except.ok.inj (hlent.named.symm.trans hnamed))
  obtain ⟨balance, hbalance, hweight⟩ := hv.weight
  refine ⟨n, receipt, p, v, hn, hreceipt, hp, htransaction, hgain, ?_,
    hv.delegators.trans hlent.lenders⟩
  have hpositive : balance ≠ 0 := by
    rintro rfl
    exact absurd (hbalance.trans hlent.support) (by decide)
  rw [hweight, hlent.mode, VotingMode.weight, if_neg hpositive,
    hbalance, hlent.support]

end Node
end CouncilLedger
