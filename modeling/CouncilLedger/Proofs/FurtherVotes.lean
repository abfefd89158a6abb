import CouncilLedger.Proofs.Quorum

/-!
# Votes after a decision

The early outcome measures one side against the power of the whole electorate,
and the final one the two sides against each other and against what was cast.
They agree: whatever else of that power is cast after an early outcome, the
deadline does not decide otherwise. A majority of the electorate also is a
turnout of half, so it passes for every quorum up to that. The main statement is
`Proposal.earlyOutcome_is_kept`.
-/

namespace CouncilLedger.Proposal

variable {p q : Proposal} {e : Electorate}

/-! ## Further votes -/

/-- The proposal with the votes of some more voters, each of whom is new to
it. -/
inductive MoreVotes (p : Proposal) : Proposal → Prop
  | here : MoreVotes p p
  | vote {q : Proposal} {v : Vote} (before : MoreVotes p q)
      (new : q.votes.get? v.voter = none) :
    MoreVotes p { q with votes := q.votes.insert v.voter v }

/-- A vote of a new voter adds its weight to that of its choice. -/
theorem weightOf_insert {v : Vote} (hnew : p.votes.get? v.voter = none)
    (choice : Choice) :
    ({ p with votes := p.votes.insert v.voter v } : Proposal).weightOf choice =
      (if v.choice = choice then v.weight.toNat else 0) +
        p.weightOf choice := by
  have hreplace := p.weightOf_replace v.voter v choice
  rw [hnew, Option.map_none, Option.getD_none, Nat.add_zero] at hreplace
  rw [hreplace, Nat.add_comm]
  rfl

namespace MoreVotes

/-- Further votes change nothing but the votes. -/
theorem eq_withVotes (h : p.MoreVotes q) : q = { p with votes := q.votes } := by
  induction h with
  | here => rfl
  | vote _ _ ih => rw [ih]

theorem status (h : p.MoreVotes q) :
    q.status = p.status := by rw [h.eq_withVotes]

theorem mode (h : p.MoreVotes q) : q.mode = p.mode := by rw [h.eq_withVotes]

theorem endsAt (h : p.MoreVotes q) :
    q.endsAt = p.endsAt := by rw [h.eq_withVotes]

theorem threshold (h : p.MoreVotes q) :
    q.threshold = p.threshold := by rw [h.eq_withVotes]

/-- No choice loses weight. -/
theorem weightOf_le (h : p.MoreVotes q) (choice : Choice) :
    p.weightOf choice ≤ q.weightOf choice := by
  induction h with
  | here => exact Nat.le_refl _
  | vote _ hnew ih =>
    rw [weightOf_insert hnew]
    omega

theorem sumOf_le (h : p.MoreVotes q) (choice : Choice) :
    (sumOf choice p.votes.values).toNat ≤
      (sumOf choice q.votes.values).toNat := by
  have hweight := h.weightOf_le choice
  rw [toNat_sumOf, toNat_sumOf]
  omega

end MoreVotes

/-! ## What further votes keep -/

theorem Decisive.of_moreVotes (h : p.Decisive e) (hmore : p.MoreVotes q) :
    q.Decisive e := by
  have hyes : p.tally.yes.toNat ≤ q.tally.yes.toNat := hmore.sumOf_le .yes
  obtain ⟨hmajority, hshare⟩ := h
  rw [← hmore.mode] at hmajority hshare
  rw [← hmore.threshold] at hshare
  exact ⟨by omega, by omega⟩

/-- Whether no has at least half of an electorate's power. -/
def Blocked (p : Proposal) (e : Electorate) : Prop :=
  (e.power p.mode).toNat ≤ p.tally.no.toNat * 2

theorem blocked_of_earlyOutcome (h : p.earlyOutcome e = some .rejected) :
    p.Blocked e := by
  unfold earlyOutcome at h
  dsimp only at h
  split at h
  · cases h
  · split at h
    · cases h
    · split at h
      · next hhalf => exact hhalf
      · cases h

theorem Blocked.of_moreVotes (h : p.Blocked e) (hmore : p.MoreVotes q) :
    q.Blocked e := by
  have hno : p.tally.no.toNat ≤ q.tally.no.toNat := hmore.sumOf_le .no
  unfold Blocked at h ⊢
  rw [hmore.mode]
  omega

/-! ## The count at the deadline -/

theorem thresholdMet_iff : p.tally.thresholdMet = true ↔
    p.tally.no.toNat < p.tally.yes.toNat ∧
      p.threshold.toNat * p.tally.cast.toNat ≤ p.tally.yes.toNat * 100 :=
  decide_eq_true_iff

section

variable (hcast : p.castWeight ≤ (e.power p.mode).toNat)
include hcast

/-- Votes that an electorate has the power for are counted in full. -/
theorem sides_le_cast :
    p.tally.yes.toNat + p.tally.no.toNat ≤ p.tally.cast.toNat ∧
      p.tally.cast.toNat ≤ (e.power p.mode).toNat := by
  have hbound := (e.power p.mode).toNat_lt
  have hsum := p.castWeight_eq
  obtain ⟨hyes, hno, habstain, hall⟩ :=
    p.tally_exact (Nat.lt_of_le_of_lt hcast hbound)
  omega

theorem Decisive.thresholdMet (h : p.Decisive e) :
    p.tally.thresholdMet = true := by
  obtain ⟨hsides, hpower⟩ := sides_le_cast hcast
  have hmajority := h.majority
  refine thresholdMet_iff.mpr ⟨by omega, ?_⟩
  calc p.threshold.toNat * p.tally.cast.toNat
      ≤ p.threshold.toNat * (e.power p.mode).toNat :=
        Nat.mul_le_mul_left _ hpower
    _ ≤ p.tally.yes.toNat * 100 := h.share

theorem Decisive.finalOutcome {rules : Rules} (h : p.Decisive e)
    (hquorum : rules.quorumPercent ≤ 50) :
    p.finalOutcome (e.power p.mode) rules = .passed := by
  have hturnout : p.HasTurnout e rules.quorumPercent.toNat :=
    h.hasTurnout.mono (Nat.le_trans (UInt8.le_iff_toNat_le.mp hquorum)
      (Nat.le_max_left _ _))
  have hsome : p.tally.cast ≠ 0 := by
    intro hzero
    have hyes := p.yes_le_cast
    have hmajority := h.majority
    rw [hzero, UInt64.toNat_zero] at hyes
    omega
  unfold Proposal.finalOutcome
  rw [if_neg (not_or.mpr ⟨hsome, Nat.not_lt.mpr hturnout⟩),
    if_pos (h.thresholdMet hcast)]

theorem Blocked.finalOutcome_ne_passed (h : p.Blocked e) (rules : Rules) :
    p.finalOutcome (e.power p.mode) rules ≠ .passed := by
  have hlost : ¬ p.tally.thresholdMet = true := by
    intro hmet
    have hbeats := (thresholdMet_iff.mp hmet).1
    obtain ⟨hsides, hpower⟩ := sides_le_cast hcast
    unfold Blocked at h
    omega
  unfold finalOutcome
  dsimp only
  rw [if_neg hlost]
  split <;> nofun

end

/-! ## The main statement -/

/-- **A decision is kept**: take a running proposal, an electorate, and votes of
further voters such that all votes together weigh no more than the electorate's
power. If the first votes pass the proposal early, the tally of all meets the
threshold, and the deadline passes the proposal for every quorum up to half. If
they reject it early, the deadline passes it for no quorum. -/
theorem earlyOutcome_is_kept (hrunning : p.status = .running)
    (hmore : p.MoreVotes q) (hcast : q.castWeight ≤ (e.power p.mode).toNat)
    {now : UInt64} (hdue : p.endsAt ≤ now) (electorate : UInt64 → Electorate)
    (hthen : electorate p.endsAt = e) :
    (p.earlyOutcome e = some .passed →
        q.tally.thresholdMet = true ∧
          ∀ rules : Rules, rules.quorumPercent ≤ 50 →
            q.statusAt now electorate rules = .passed) ∧
      (p.earlyOutcome e = some .rejected →
        ∀ rules, q.statusAt now electorate rules ≠ .passed) := by
  have hstatus (rules : Rules) :
      q.statusAt now electorate rules =
        q.finalOutcome (e.power q.mode) rules := by
    rw [statusAt_of_due (hmore.status.trans hrunning) (hmore.endsAt ▸ hdue),
      hmore.endsAt, hthen]
  rw [← hmore.mode] at hcast
  refine ⟨?_, ?_⟩
  · intro hpassed
    have hdecisive : p.Decisive e :=
      decisive_of_earlyOutcome (by rw [hpassed]; rfl)
    have hstill := hdecisive.of_moreVotes hmore
    refine ⟨hstill.thresholdMet hcast, ?_⟩
    intro rules hquorum
    rw [hstatus]
    exact hstill.finalOutcome hcast hquorum
  · intro hrejected rules
    rw [hstatus]
    have hblocked := (blocked_of_earlyOutcome hrejected).of_moreVotes hmore
    exact hblocked.finalOutcome_ne_passed hcast rules

/-- A vote that carries the given weight. -/
def ballot (voter : String) (choice : Choice) (weight : Amount) : Vote where
  voter := voter
  choice := choice
  weight := weight
  timestamp := 0
  transaction := .zero
  delegators := []

/-- A proposal with one vote, for three fifths of what is cast. -/
def votedOnce (v : Vote) : Proposal :=
  let draft : Draft :=
    { title := "Trees", description := "More", kind := .general
      mode := .weighted, duration := 60, threshold := 60, funding := none }
  { ofDraft "trees" "ada" draft 0 1 with
    votes := SortedMap.empty.insert v.voter v }

/-- Three of five are just over half and just the threshold's share, and two of
four just half. The rest of the power is cast for the other side. -/
theorem earlyOutcome_is_kept_boundary :
    let won := votedOnce (ballot "ada" .yes 3)
    let lost := votedOnce (ballot "ada" .no 2)
    let last : Proposal :=
      { won with votes := won.votes.insert "ben" (ballot "ben" .no 2) }
    let last' : Proposal :=
      { lost with votes := lost.votes.insert "ben" (ballot "ben" .yes 2) }
    won.earlyOutcome ⟨2, 5, 0⟩ = some .passed ∧ lost.earlyOutcome ⟨2, 4, 0⟩ =
      some .rejected ∧
    last.statusAt 60 (fun _ => ⟨2, 5, 0⟩) { quorumPercent := 50 } = .passed ∧
    last'.statusAt 60 (fun _ => ⟨2, 4, 0⟩) {} ≠ .passed := by
  intro won lost last last'
  have hwon : won.earlyOutcome ⟨2, 5, 0⟩ = some .passed := by decide +kernel
  have hlost : lost.earlyOutcome ⟨2, 4, 0⟩ = some .rejected := by decide +kernel
  have hlast : won.MoreVotes last :=
    .vote (v := ballot "ben" .no 2) .here (by decide +kernel)
  have hlast' : lost.MoreVotes last' :=
    .vote (v := ballot "ben" .yes 2) .here (by decide +kernel)
  have hdue : won.endsAt ≤ 60 := UInt64.le_refl _
  have hpass := earlyOutcome_is_kept rfl hlast (by decide +kernel) hdue
    (fun _ => ⟨2, 5, 0⟩) rfl
  have hreject := earlyOutcome_is_kept rfl hlast' (by decide +kernel) hdue
    (fun _ => ⟨2, 4, 0⟩) rfl
  exact ⟨hwon, hlost, (hpass.1 hwon).2 _ (UInt8.le_refl _), hreject.2 hlost _⟩

end CouncilLedger.Proposal
