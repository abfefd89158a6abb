import CouncilLedger.Proofs.Decision

/-!
# Quorum and majority

The quorum is a rule of the deadline: a proposal that passes when its deadline
has come has the turnout that the rules ask for. Before the deadline it passes
by more than half of the whole electorate and the threshold's share of it,
whatever the quorum. So a quorum of more than both may be missed then, and any
other is met on every path. The main statement is
`Node.pass_meets_quorum_or_majority`.
-/

namespace CouncilLedger

open Outcome

namespace Proposal

/-- Whether a share of an electorate's power, in percent, has been cast. -/
def HasTurnout (p : Proposal) (e : Electorate) (percent : Nat) : Prop :=
  percent * (e.power p.mode).toNat ≤ p.tally.cast.toNat * 100

variable {p q : Proposal} {e : Electorate}

instance (p : Proposal) (e : Electorate) (percent : Nat) :
    Decidable (p.HasTurnout e percent) :=
  inferInstanceAs (Decidable (_ ≤ _))

theorem HasTurnout.mono {percent more : Nat} (h : p.HasTurnout e more)
    (hle : percent ≤ more) : p.HasTurnout e percent :=
  Nat.le_trans (Nat.mul_le_mul_right _ hle) h

theorem yes_le_cast (p : Proposal) :
    p.tally.yes.toNat ≤ p.tally.cast.toNat := by
  have hcast :
      p.tally.cast =
        Amount.addCapped (Amount.addCapped p.tally.yes p.tally.no)
          p.tally.abstain := rfl
  have hyes := p.tally.yes.toNat_lt
  rw [hcast, Amount.toNat_addCapped, Amount.toNat_addCapped]
  simp only [UInt64.size]
  omega

/-- A majority of the whole electorate is a turnout of half of it, and of the
threshold's share. -/
theorem Decisive.hasTurnout (h : p.Decisive e) :
    p.HasTurnout e (max 50 p.threshold.toNat) := by
  have hcast := p.yes_le_cast
  have hmajority := h.majority
  have hshare := h.share
  unfold HasTurnout
  rcases Nat.le_total 50 p.threshold.toNat with hle | hle
  · rw [Nat.max_eq_right hle]
    omega
  · rw [Nat.max_eq_left hle]
    omega

/-- A final outcome counts votes only when the quorum is met. -/
theorem hasTurnout_of_finalOutcome {rules : Rules}
    (h : p.finalOutcome (e.power p.mode) rules = .passed) :
    p.HasTurnout e rules.quorumPercent.toNat := by
  unfold finalOutcome at h
  dsimp only at h
  split at h
  · cases h
  · next hquorum =>
    rw [not_or] at hquorum
    exact Nat.not_lt.mp hquorum.2

theorem Becomes.hasTurnout_of_due {now : UInt64}
    {electorate : UInt64 → Electorate} {rules : Rules}
    (h : Becomes now electorate rules p q) (hrunning : p.status = .running)
    (hpassed : q.status = .passed) (hdue : q.endsAt ≤ now) :
    q.HasTurnout (electorate q.endsAt) rules.quorumPercent.toNat := by
  rw [h.endsAt] at hdue ⊢
  obtain ⟨hstatus, hvotes⟩ :=
    h.status_of_due hrunning hdue (by rw [hpassed]; nofun)
  have hfinal := hasTurnout_of_finalOutcome (hstatus.symm.trans hpassed)
  have htally : q.tally.cast = p.tally.cast := by simp only [tally, hvotes]
  rwa [HasTurnout, h.mode, htally]

end Proposal

/-! ## A run with a quorum of four fifths -/

/-- Ten tokens, and a quorum of four fifths of them. -/
def Config.fourFifths : Config :=
  { rules := { quorumPercent := 80 }
    treasury := 0, allocations := [⟨"ada", 5⟩, ⟨"ben", 4⟩, ⟨"dora", 1⟩] }

/-- A block with two proposals, while an account lends its power for half of the
time that they last. Six of the ten tokens vote for the first of them. All are
cast on the second, and no majority of them for yes. -/
def Block.twoProposals (parent : Option Digest) : Block :=
  let draft (threshold : UInt64) : Draft :=
    { title := "Trees", description := "More", kind := .general
      mode := .weighted, duration := 60, threshold, funding := none }
  let first := Transaction.ofAction "ada" 0 0 (.propose (draft 50))
  let second := Transaction.ofAction "ada" 2 0 (.propose (draft 40))
  .build 1 parent 0
    [.ofAction "dora" 0 0 (.delegate "ada" 30), first,
      .ofAction "ada" 1 0 (.vote first.hash.hex .yes), second,
      .ofAction "ben" 0 0 (.vote second.hash.hex .yes),
      .ofAction "ada" 3 0 (.vote second.hash.hex .abstain)]

theorem Block.isMade_twoProposals (parent : Option Digest) :
    (twoProposals parent).IsMade :=
  isMade_build (by simp)

namespace Node

/-- What the two proposals come to: the block on the node `first` passes one of
them by a vote, with six of ten tokens, and leaves the other to its deadline,
which passes it with all. -/
structure TwoProposals (b : Block) (first n : Node) : Prop where
  early : ((b.transactions.take 2).foldlM (Ledger.apply 1 0)
    (first.chain.ledger.settle 0)).toOption.any fun m =>
      ((b.transactions.take 3).foldlM (Ledger.apply 1 0)
        (first.chain.ledger.settle 0)).toOption.any fun m' =>
          ∃ p ∈ m.council.proposals, p.status = .running ∧
            ∃ q ∈ m'.council.proposals, q.id = p.id ∧ q.status = .passed ∧
            q.endsAt = 60 ∧ ¬ q.HasTurnout (m.standing.electorateAt 0) 80
  late : ∃ p ∈ n.chain.council.proposals, p.status = .running ∧ p.endsAt = 60 ∧
    p.settledStatus 60 n.chain.standing.electorateAt
    n.chain.council.rules = .passed
  /-- The block that closes the other. -/
  closing : (n.chain.closingBlock 60).toOption.any fun found =>
    found.any fun (due, b) =>
    due = 1 && b.timestamp = 60 && (n.chain.validate b).isOk
  blocks : n.chain.blocks.length = 2
  /-- The account that lends counts on its own from the middle on. -/
  holders : (n.chain.standing.electorateAt 29).holders = 2 ∧
    (n.chain.standing.electorateAt 30).holders = 3

instance (b : Block) (first n : Node) : Decidable (TwoProposals b first n) :=
  decidable_of_iff (_ ∧ _ ∧ _ ∧ _ ∧ _) ⟨fun ⟨a, b, c, d, e⟩ => ⟨a, b, c, d, e⟩,
      fun ⟨a, b, c, d, e⟩ => ⟨a, b, c, d, e⟩⟩

/-- A run reaches the nodes before and after that block. -/
theorem exists_twoProposals :
    ∃ first n b after, Reachable .fourFifths first ∧ Reachable .fourFifths n ∧
      first.chain.validate b = .ok after ∧
      b = .twoProposals (first.chain.tip.map (·.hash)) ∧
      TwoProposals b first n := by
  -- the kernel evaluates the run
  obtain ⟨first, after, n, hfirst, hvalid, hn, -, hfacts⟩ :=
    exists_of_commit .fourFifths (fun c => .twoProposals (c.tip.map (·.hash)))
    (fun _ => Block.isMade_twoProposals _) (fun first n =>
      TwoProposals (.twoProposals (first.chain.tip.map (·.hash))) first n)
    (by decide +kernel)
  exact ⟨first, n, _, after, hfirst, hn, hvalid, rfl, hfacts⟩

/-! ## The main statement -/

variable {config : Config} {n : Node}

/-- **Quorum or majority**: a step that passes a proposal at its deadline finds
the quorum met by the electorate of the deadline. One that passes it before has
more than half of the electorate of that moment behind yes, and the threshold's
share of it; the quorum is met as far as it does not ask for more than both. -/
theorem pass_meets_quorum_or_majority (h : n.Reachable config) {b : Block}
    {m m' : Ledger} (hstage : Ledger.Stage b n.chain.ledger m m')
    {p q : Proposal} (hp : p ∈ m.council.proposals)
    (hq : q ∈ m'.council.proposals) (hid : q.id = p.id)
    (hrunning : p.status = .running) (hpassed : q.status = .passed) :
    (q.endsAt ≤ b.timestamp →
        q.HasTurnout (m.standing.electorateAt q.endsAt)
          config.rules.quorumPercent.toNat) ∧
      (b.timestamp < q.endsAt →
        q.Decisive (m.standing.electorateAt b.timestamp) ∧
          q.HasTurnout (m.standing.electorateAt b.timestamp)
            (min config.rules.quorumPercent.toNat
              (max 50 q.threshold.toNat))) := by
  obtain ⟨rest, htracks⟩ := h.tracks
  -- the step starts with the rules of the configuration, and with one proposal
  -- of each id
  have hapart : m.council.PowerApart :=
    hstage.induction (P := fun m => m.council.PowerApart)
      (Chain.powerApart_of_ofBlocks htracks.history)
      fun _ _ hstep => hstep.powerApart
  have hrules : m.council.rules = config.rules :=
    hstage.induction (P := fun m => m.council.rules = config.rules)
      (Chain.rules_of_ofBlocks htracks.history)
      fun _ _ hstep hm => hstep.rules.trans hm
  have hbecomes :
      p.Becomes b.timestamp m.standing.electorateAt config.rules q := by
    rw [← hrules]
    rcases hstage.moves.exists_before hq with
      ⟨p', hp', hbecomes⟩ | ⟨_, _, _, _, rfl⟩
    · rwa [List.inj_on_of_nodup_map hapart.ids hp hp'
        (hid.symm.trans hbecomes.id)]
    · cases hpassed
  refine ⟨hbecomes.hasTurnout_of_due hrunning hpassed, ?_⟩
  intro hearly
  have hdecisive := hbecomes.decisive hrunning hpassed hearly
  exact ⟨hdecisive, hdecisive.hasTurnout.mono (Nat.min_le_right _ _)⟩

/-- The vote that passes the first proposal is a step of the block. -/
theorem TwoProposals.exists_early {first : Node} {parent : Option Digest}
    (h : TwoProposals (.twoProposals parent) first n) :
    ∃ m m' p q, Ledger.Stage (.twoProposals parent) first.chain.ledger m m' ∧
      p ∈ m.council.proposals ∧ q ∈ m'.council.proposals ∧ q.id = p.id ∧
      p.status = .running ∧ q.status = .passed ∧ q.endsAt = 60 ∧
      ¬ q.HasTurnout (m.standing.electorateAt 0) 80 := by
  obtain ⟨m, hm, hfacts⟩ := exists_of_any_toOption h.early
  obtain ⟨m', hm', hfacts⟩ := exists_of_any_toOption hfacts
  obtain ⟨p, hp, hrunning, q, hq, hid, hpassed, hends, hturnout⟩ :=
    of_decide_eq_true hfacts
  obtain ⟨t, hvoting, hsplit⟩ : ∃ t,
      (Block.twoProposals parent).transactions.take 3 =
        (Block.twoProposals parent).transactions.take 2 ++ [t] ∧
      (Block.twoProposals parent).transactions =
        (Block.twoProposals parent).transactions.take 2 ++
          t :: (Block.twoProposals parent).transactions.drop 3 := ⟨_, rfl, rfl⟩
  rw [hvoting] at hm'
  obtain ⟨k, hk, hvote⟩ := foldlM_snoc_eq_ok.mp hm'
  cases hm.symm.trans hk
  exact ⟨m, m', p, q, .acting hsplit hm hvote, hp, hq, hid, hrunning, hpassed,
    hends, hturnout⟩

/-- One proposal passes at the deadline with a turnout of four fifths, and one
before it with a turnout of half. -/
theorem pass_meets_quorum_or_majority_fourFifths :
    ∃ first n, Reachable .fourFifths first ∧ Reachable .fourFifths n ∧
      (∃ b m m' q, Ledger.Stage b n.chain.ledger m m' ∧
        q ∈ m'.council.proposals ∧ q.endsAt ≤ b.timestamp ∧
        q.HasTurnout (m.standing.electorateAt q.endsAt) 80) ∧
      ∃ b m m' q, Ledger.Stage b first.chain.ledger m m' ∧
        q ∈ m'.council.proposals ∧ b.timestamp < q.endsAt ∧
        q.HasTurnout (m.standing.electorateAt b.timestamp) 50 := by
  obtain ⟨first, n, b, after, hfirst, hn, hvalid, rfl, hfacts⟩ :=
    exists_twoProposals
  refine ⟨first, n, hfirst, hn, ?_, ?_⟩
  · obtain ⟨p, hp, hrunning, hends, hpassed⟩ := hfacts.late
    let b : Block := .build 2 (n.chain.tip.map (·.hash)) 60 []
    have hq : { p with
        status := p.settledStatus 60 n.chain.standing.electorateAt
          n.chain.council.rules } ∈
          (n.chain.ledger.settle b.timestamp).council.proposals :=
      List.mem_map.mpr ⟨p, hp, rfl⟩
    have hdue : p.endsAt ≤ b.timestamp := by
      rw [hends]
      exact UInt64.le_refl _
    have hquorum := pass_meets_quorum_or_majority hn
      (b := b) .opening hp hq rfl hrunning hpassed
    exact ⟨b, _, _, _, .opening, hq, hdue, hquorum.1 hdue⟩
  · obtain ⟨m, m', p, q, hstage, hp, hq, hid, hrunning, hpassed, hends, -⟩ :=
      hfacts.exists_early
    have hearly :
        (Block.twoProposals (first.chain.tip.map (·.hash))).timestamp <
          q.endsAt := by
      rw [hends]
      show (0 : UInt64) < 60
      decide
    have hmajority :=
      pass_meets_quorum_or_majority hfirst hstage hp hq hid hrunning hpassed
    refine ⟨_, m, m', q, hstage, hq, hearly, (hmajority.2 hearly).2.mono ?_⟩
    exact Nat.le_min.mpr ⟨by decide, Nat.le_max_left _ _⟩

/-- Before the deadline, a proposal may pass without the quorum. -/
theorem quorum_missed_early : ¬ ∀ config : Config, config.check = .ok () →
    ∀ n, Reachable config n → ∀ b after, n.chain.validate b = .ok after →
    ∀ m m', Ledger.Stage b n.chain.ledger m m' →
    ∀ p ∈ m.council.proposals, ∀ q ∈ m'.council.proposals, q.id = p.id →
    p.status = .running → q.status = .passed →
    q.HasTurnout (m.standing.electorateAt (min q.endsAt b.timestamp))
      config.rules.quorumPercent.toNat := by
  intro h
  obtain ⟨first, n, b, after, hfirst, -, hvalid, rfl, hfacts⟩ :=
    exists_twoProposals
  obtain ⟨m, m', p, q, hstage, hp, hq, hid, hrunning, hpassed,
    hends, hturnout⟩ :=
    hfacts.exists_early
  have hquorum := h .fourFifths (by decide +kernel) first hfirst _ after hvalid
    m m' hstage p hp q hq
    hid hrunning hpassed
  rw [hends] at hquorum
  exact hturnout hquorum

end Node
end CouncilLedger
