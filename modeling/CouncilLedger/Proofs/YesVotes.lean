import CouncilLedger.Proofs.FurtherVotes

/-!
# Yes votes at the deadline

A yes vote counts on three lines of the tally: for the side that has to win, for
the turnout, and for the cast power that the threshold takes its share of. The
last two help the others only as long as the yes side keeps up with what is
cast, and each sum stops at the largest amount on its own. The main statement is
`Proposal.yes_never_hurts`.
-/

namespace CouncilLedger.Proposal

variable {p q r : Proposal}

/-! ## Votes that come to the yes side -/

/-- The proposal with some more yes votes: of new voters, or in place of another
choice that a voter has made, with the same weight. -/
inductive MoreYes (p : Proposal) : Proposal → Prop
  | here : MoreYes p p
  | vote {q : Proposal} {v : Vote} (before : MoreYes p q)
      (new : q.votes.get? v.voter = none) (yes : v.choice = .yes) :
    MoreYes p { q with votes := q.votes.insert v.voter v }
  | change {q : Proposal} {voter : String} {v : Vote} (before : MoreYes p q)
      (held : q.votes.get? voter = some v) :
    MoreYes p { q with votes := q.votes.insert voter { v with choice := .yes } }

/-- What yes votes do to the weights. -/
structure LeansTo (p q : Proposal) : Prop where
  yes : p.weightOf .yes ≤ q.weightOf .yes
  no : q.weightOf .no ≤ p.weightOf .no
  cast : p.castWeight ≤ q.castWeight
  /-- The yes side rises by all of what the cast power rises by, or by more. -/
  rise : q.castWeight + p.weightOf .yes ≤ p.castWeight + q.weightOf .yes

namespace LeansTo

theorem refl (p : Proposal) : p.LeansTo p :=
  ⟨Nat.le_refl _, Nat.le_refl _, Nat.le_refl _, Nat.le_refl _⟩

theorem trans (h : p.LeansTo q) (h' : q.LeansTo r) : p.LeansTo r where
  yes := Nat.le_trans h.yes h'.yes
  no := Nat.le_trans h'.no h.no
  cast := Nat.le_trans h.cast h'.cast
  rise := by
    have hrise := h.rise
    have hrise' := h'.rise
    omega

/-- One yes vote, of a new voter or in place of a vote that weighs no more. -/
theorem insert (p : Proposal) (voter : String) {v : Vote}
    (hyes : v.choice = .yes)
    (hheld : ∀ old, p.votes.get? voter = some old → old.weight ≤ v.weight) :
    p.LeansTo { p with votes := p.votes.insert voter v } := by
  have hsides := p.weightOf_replace voter v
  have hcast := p.castWeight_replace voter v
  have hall : v.weightFor .yes = v.weight.toNat := if_pos hyes
  have hnone : v.weightFor .no = 0 := if_neg (by rw [hyes]; nofun)
  have hyesSide := hsides .yes
  have hnoSide := hsides .no
  rw [hall] at hyesSide
  rw [hnone] at hnoSide
  cases hold : p.votes.get? voter with
  | none =>
    simp only [hold, Option.map_none, Option.getD_none] at hyesSide hnoSide hcast
    exact ⟨by omega, by omega, by omega, by omega⟩
  | some old =>
    have hle : old.weight.toNat ≤ v.weight.toNat :=
      UInt64.le_iff_toNat_le.mp (hheld old hold)
    have hpart := old.weightFor_le .yes
    simp only [hold, Option.map_some, Option.getD_some] at hyesSide hnoSide hcast
    exact ⟨by omega, by omega, by omega, by omega⟩

end LeansTo

namespace MoreYes

/-- Yes votes change nothing but the votes. -/
theorem eq_withVotes (h : p.MoreYes q) : q = { p with votes := q.votes } := by
  induction h with
  | here => rfl
  | vote _ _ _ ih => rw [ih]
  | change _ _ ih => rw [ih]

theorem leansTo (h : p.MoreYes q) : p.LeansTo q := by
  induction h with
  | here => exact .refl p
  | @vote q v _ hnew hyes ih =>
    refine ih.trans (.insert q v.voter hyes ?_)
    intro old hold
    rw [hnew] at hold
    cases hold
  | @change q voter v _ hheld ih =>
    refine ih.trans (.insert q voter (v := { v with choice := .yes }) rfl ?_)
    intro old hold
    cases hheld.symm.trans hold
    exact UInt64.le_refl _

end MoreYes

/-! ## The tally -/

namespace LeansTo

variable (h : p.LeansTo q)
include h

theorem cast_le : p.tally.cast.toNat ≤ q.tally.cast.toNat := by
  have hcast := h.cast
  rw [p.toNat_cast, q.toNat_cast]
  omega

/-- The yes side keeps up with what is cast, or it is at the largest amount
already and has nothing above it. -/
theorem yes_keeps_up :
    q.tally.cast.toNat ≤ q.tally.yes.toNat ∨
      q.tally.cast.toNat + p.tally.yes.toNat ≤
        p.tally.cast.toNat + q.tally.yes.toNat := by
  have hyes := h.yes
  have hrise := h.rise
  have hbefore : p.tally.yes.toNat = _ := p.toNat_sumOf .yes
  have hafter : q.tally.yes.toNat = _ := q.toNat_sumOf .yes
  rw [p.toNat_cast, q.toNat_cast, hbefore, hafter]
  omega

theorem thresholdMet (hthreshold : q.threshold = p.threshold)
    (hshare : p.threshold ≤ 100) (hmet : p.tally.thresholdMet = true) :
    q.tally.thresholdMet = true := by
  have hbound : p.threshold.toNat ≤ 100 := UInt8.le_iff_toNat_le.mp hshare
  obtain ⟨hbeats, hreached⟩ := thresholdMet_iff.mp hmet
  have hsides :
      p.tally.yes.toNat ≤ q.tally.yes.toNat ∧
        q.tally.no.toNat ≤ p.tally.no.toNat := by
    have hyes := h.yes
    have hno := h.no
    have toNat (r : Proposal) :
        r.tally.yes.toNat = min (r.weightOf .yes) (UInt64.size - 1) ∧
          r.tally.no.toNat = min (r.weightOf .no) (UInt64.size - 1) :=
      ⟨r.toNat_sumOf .yes, r.toNat_sumOf .no⟩
    rw [(toNat p).1, (toNat p).2, (toNat q).1, (toNat q).2]
    omega
  refine thresholdMet_iff.mpr ⟨by omega, ?_⟩
  rw [hthreshold]
  rcases h.yes_keeps_up with hall | hkept
  · calc p.threshold.toNat * q.tally.cast.toNat
        ≤ 100 * q.tally.yes.toNat := Nat.mul_le_mul hbound hall
      _ = q.tally.yes.toNat * 100 := Nat.mul_comm _ _
  · -- what is cast rises by no more than the yes side, and its share by no
    -- more than the rise
    have hrise : q.tally.cast.toNat ≤
        p.tally.cast.toNat + (q.tally.yes.toNat - p.tally.yes.toNat) := by omega
    calc p.threshold.toNat * q.tally.cast.toNat
        ≤ p.threshold.toNat *
            (p.tally.cast.toNat + (q.tally.yes.toNat - p.tally.yes.toNat)) :=
          Nat.mul_le_mul_left _ hrise
      _ = p.threshold.toNat * p.tally.cast.toNat +
            p.threshold.toNat * (q.tally.yes.toNat - p.tally.yes.toNat) :=
          Nat.mul_add _ _ _
      _ ≤ p.tally.yes.toNat * 100 +
            100 * (q.tally.yes.toNat - p.tally.yes.toNat) :=
          Nat.add_le_add hreached (Nat.mul_le_mul_right _ hbound)
      _ = q.tally.yes.toNat * 100 := by omega

end LeansTo

/-- The deadline passes a proposal on three conditions. -/
theorem finalOutcome_eq_passed_iff {power : Amount} {rules : Rules} :
    p.finalOutcome power rules = .passed ↔ p.tally.cast.toNat ≠ 0 ∧
      rules.quorumPercent.toNat * power.toNat ≤ p.tally.cast.toNat * 100 ∧
      p.tally.thresholdMet = true := by
  have hzero : p.tally.cast = 0 ↔ p.tally.cast.toNat = 0 :=
    UInt64.toNat_inj.symm
  unfold finalOutcome
  dsimp only
  split
  · next hmissed =>
    rw [hzero] at hmissed
    exact ⟨nofun, fun ⟨hsome, hquorum, _⟩ => by omega⟩
  · next hmissed =>
    rw [hzero, not_or] at hmissed
    split
    · next hmet => exact ⟨fun _ => ⟨hmissed.1, by omega, hmet⟩, fun _ => rfl⟩
    · next hmet => exact ⟨nofun, fun ⟨_, _, hmet'⟩ => absurd hmet' hmet⟩

/-! ## The main statement -/

/-- **A yes vote never hurts**: whatever the electorate, the quorum and the time
from the deadline on, a running proposal that passes with some votes passes with
more yes votes too. Each is the vote of a new voter, of any weight, or takes the
place of what a voter has said before. -/
theorem yes_never_hurts (hrunning : p.status = .running)
    (hthreshold : p.threshold ≤ 100) {now : UInt64} (hdue : p.endsAt ≤ now)
    (electorate : UInt64 → Electorate) (rules : Rules)
    (hpassed : p.statusAt now electorate rules = .passed)
    (hmore : p.MoreYes q) : q.statusAt now electorate rules = .passed := by
  have hleans := hmore.leansTo
  have hsame := hmore.eq_withVotes
  have hstatus : q.status = .running := by rw [hsame, hrunning]
  have hdeadline : q.endsAt = p.endsAt := by rw [hsame]
  have hmode : q.mode = p.mode := by rw [hsame]
  have hshare : q.threshold = p.threshold := by rw [hsame]
  rw [statusAt_of_due hrunning hdue, finalOutcome_eq_passed_iff] at hpassed
  rw [statusAt_of_due hstatus (hdeadline ▸ hdue), finalOutcome_eq_passed_iff,
    hdeadline, hmode]
  obtain ⟨hsome, hquorum, hmet⟩ := hpassed
  have hcast := hleans.cast_le
  exact ⟨by omega, by omega, hleans.thresholdMet hshare hthreshold hmet⟩

/-- Half of all there can be is just over what is said against it, with a third
side that takes the sum to the largest amount. Then the yes side gets there as
well, by a new vote, and what was said against it turns. -/
theorem yes_never_hurts_at_largest :
    let won : Proposal :=
      { votedOnce (ballot "ada" .yes 0xFFFFFFFFFFFFFFF0) with
        votes := ((SortedMap.empty.insert "ada"
          (ballot "ada" .yes 0xFFFFFFFFFFFFFFF0)).insert
          "ben" (ballot "ben" .no 0xFFFFFFFFFFFFFFE0)).insert
          "carl" (ballot "carl" .abstain 0xFFFFFFFFFFFFFFFF) }
    let joined : Proposal :=
      { won with votes := won.votes.insert "dora" (ballot "dora" .yes 0xFF) }
    let turned : Proposal :=
      { joined with
        votes := joined.votes.insert "ben"
          (ballot "ben" .yes 0xFFFFFFFFFFFFFFE0) }
    let electorate : UInt64 → Electorate := fun _ => ⟨4, Amount.largest, 0⟩
    won.statusAt 60 electorate {} = .passed ∧
      joined.statusAt 60 electorate {} = .passed ∧
      turned.statusAt 60 electorate {} = .passed := by
  intro won joined turned electorate
  have hwon : won.statusAt 60 electorate {} = .passed := by decide +kernel
  have hjoined : won.MoreYes joined :=
    .vote (v := ballot "dora" .yes 0xFF) .here (by decide +kernel) rfl
  have hturned : won.MoreYes turned := .change
    (v := ballot "ben" .no 0xFFFFFFFFFFFFFFE0) hjoined (by decide +kernel)
  have hthreshold : won.threshold ≤ 100 := by decide +kernel
  have hdue : won.endsAt ≤ 60 := UInt64.le_refl _
  exact ⟨hwon, yes_never_hurts rfl hthreshold hdue electorate {} hwon hjoined,
    yes_never_hurts rfl hthreshold hdue electorate {} hwon hturned⟩

end CouncilLedger.Proposal
