import CouncilLedger.Proofs.Deadline
import CouncilLedger.Proofs.Durability
import CouncilLedger.Proofs.Lapse
import CouncilLedger.Proofs.Names

/-!
# Closing what is due

After a block no outcome is left to record: what the votes made certain is
recorded already. While no block comes, delegations lapse and the electorate
only grows, so nothing becomes certain before its deadline. To settle at a later
time is then to close the proposals that are due, and a tick commits an empty
block for just these. The main statement is `Node.tick_closes_exactly_due`.
-/

namespace CouncilLedger

open Outcome

/-! ## Proposals that are due -/

namespace Proposal

/-- Whether a proposal is open and its deadline has come. -/
def isDue (p : Proposal) (t : UInt64) : Bool :=
  p.status = .running && p.endsAt ≤ t

variable {p : Proposal} {e f : Electorate} {t now : UInt64}

theorem isDue_iff : p.isDue t = true ↔ p.status = .running ∧ p.endsAt ≤ t := by
  simp [isDue]

theorem earlyOutcome_eq_none_iff :
    p.earlyOutcome e = none ↔
      (e.power p.mode).toNat = 0 ∨
        ¬ ((e.power p.mode).toNat < p.tally.yes.toNat * 2 ∧
          p.threshold.toNat * (e.power p.mode).toNat ≤
            p.tally.yes.toNat * 100) ∧
        p.tally.no.toNat * 2 < (e.power p.mode).toNat := by
  unfold earlyOutcome
  dsimp only
  split
  · next hnone => exact iff_of_true rfl (.inl hnone)
  · next hsome =>
    rw [or_iff_right hsome]
    split
    · next hpassed => exact iff_of_false nofun fun h => h.1 hpassed
    · next hopen =>
      rw [and_iff_right hopen, ← Nat.not_le]
      split
      · next hrejected => exact iff_of_false nofun (not_not.mpr hrejected)
      · next hopen => exact iff_of_true rfl hopen

theorem earlyOutcome_ne_running (p : Proposal) (e : Electorate) :
    p.earlyOutcome e ≠ some .running := by
  unfold earlyOutcome
  dsimp only
  split
  · nofun
  · split
    · nofun
    · split <;> nofun

/-- What a smaller electorate leaves open, a larger one does. -/
theorem earlyOutcome_eq_none_of_le (h : p.earlyOutcome e = none)
    (hle : (e.power p.mode).toNat ≤ (f.power p.mode).toNat)
    (hzero : (e.power p.mode).toNat = 0 → (f.power p.mode).toNat = 0) :
    p.earlyOutcome f = none := by
  rw [earlyOutcome_eq_none_iff] at h ⊢
  refine h.imp hzero fun ⟨hyes, hno⟩ => ⟨?_, Nat.lt_of_lt_of_le hno hle⟩
  rintro ⟨hmajority, hshare⟩
  have hpart := Nat.mul_le_mul_left p.threshold.toNat hle
  exact hyes ⟨Nat.lt_of_le_of_lt hle hmajority, Nat.le_trans hpart hshare⟩

/-- What is settled is not settled otherwise at the same time. -/
theorem settledStatus_settled (p : Proposal) (now : UInt64)
    (e : UInt64 → Electorate) (rules : Rules) :
    settledStatus { p with status := p.settledStatus now e rules } now e rules =
      p.settledStatus now e rules := by
  by_cases hclosed : p.settledStatus now e rules = .running
  · have hrunning : p.status = .running := by
      by_contra hclosed'
      exact hclosed' ((settledStatus_of_closed hclosed').symm.trans hclosed)
    rw [hclosed, ← hrunning, hclosed]
    exact hrunning.symm
  · exact settledStatus_of_closed hclosed

end Proposal

/-! ## Settled councils -/

namespace Council

/-- No outcome is left to record: every open proposal has time left, and nothing
is certain about it. -/
def Settled (c : Council) (now : UInt64) (e : Electorate) : Prop :=
  ∀ p ∈ c.proposals, p.status = .running →
    now < p.endsAt ∧ p.earlyOutcome e = none

theorem settled_settle (c : Council) (now : UInt64) (e : UInt64 → Electorate) :
    (c.settle now e).Settled now (e now) := by
  intro q hq hrunning
  obtain ⟨p, hp, rfl⟩ := List.mem_map.mp hq
  have hstatus : p.settledStatus now e c.rules = .running := hrunning
  by_cases hopen : p.status = .running
  · by_cases hdue : p.endsAt ≤ now
    · rw [Proposal.settledStatus_of_due hopen hdue] at hstatus
      exact absurd hstatus (p.finalOutcome_ne_running _ _)
    · have hearly := UInt64.not_le.mp hdue
      rw [Proposal.settledStatus_of_early hopen hearly] at hstatus
      refine ⟨hearly, ?_⟩
      show p.earlyOutcome (e now) = none
      cases hcertain : p.earlyOutcome (e now) with
      | none => rfl
      | some status =>
        rw [hcertain, Option.getD_some] at hstatus
        exact absurd (hstatus ▸ hcertain) (p.earlyOutcome_ne_running _)
  · rw [Proposal.settledStatus_of_closed hopen] at hstatus
    exact absurd hstatus hopen

theorem settle_settle (c : Council) (now : UInt64) (e : UInt64 → Electorate) :
    (c.settle now e).settle now e = c.settle now e := by
  simp only [settle, List.map_map, Function.comp_def,
    Proposal.settledStatus_settled]

end Council

theorem Ledger.settle_settle (l : Ledger) (now : UInt64) :
    (l.settle now).settle now = l.settle now :=
  congrArg (Ledger.mk l.accounts)
    (l.council.settle_settle now l.standing.electorateAt)

namespace Chain

variable {rules : Rules} {blocks : List Block} {c : Chain}
    {p : Proposal} {t : UInt64}

/-- A chain is settled at the time of its last block. -/
theorem settled_of_ofBlocks (h : ofBlocks rules blocks = .ok c) :
    c.council.Settled c.time (c.standing.electorateAt c.time) := by
  refine ofBlocks_validate_induction (P := fun _ c =>
      c.council.Settled c.time (c.standing.electorateAt c.time)) h
      (fun _ hp => nomatch hp) ?_
  intro before m b after _ _ hvalid
  obtain ⟨k, -, rfl⟩ := Ledger.applyBlock_ok (validate_ok hvalid).2.2.2
  exact k.council.settled_settle b.timestamp k.standing.electorateAt

/-- **Nothing becomes certain before its deadline** while no block comes. -/
theorem earlyOutcome_eq_none (h : ofBlocks rules blocks = .ok c)
    (ht : c.time ≤ t) (hp : p ∈ c.council.proposals)
    (hrunning : p.status = .running) :
    p.earlyOutcome (c.standing.electorateAt t) = none := by
  have hsound := sound_of_ofBlocks h
  exact Proposal.earlyOutcome_eq_none_of_le (settled_of_ofBlocks
    h p hp hrunning).2 (Standing.power_le_of_later p.mode hsound ht)
    (Standing.power_eq_zero_of_power_eq_zero p.mode hsound t)

/-- The status of a proposal that is settled at a later time: its outcome once
it is due, and what it was before. -/
theorem settledStatus_of_mem (h : ofBlocks rules blocks = .ok c)
    (ht : c.time ≤ t) (hp : p ∈ c.council.proposals) :
    p.settledStatus t c.standing.electorateAt c.council.rules =
      if p.isDue t then c.outcomeOf p else p.status := by
  by_cases hrunning : p.status = .running
  · by_cases hdue : p.endsAt ≤ t
    · rw [if_pos (Proposal.isDue_iff.mpr ⟨hrunning, hdue⟩)]
      exact Proposal.settledStatus_of_due hrunning hdue
    · rw [if_neg fun h => hdue (Proposal.isDue_iff.mp h).2,
        Proposal.settledStatus_of_early hrunning (UInt64.not_le.mp hdue),
        earlyOutcome_eq_none h ht hp hrunning, hrunning]
      rfl
  · rw [if_neg fun h => hrunning (Proposal.isDue_iff.mp h).1]
    exact Proposal.settledStatus_of_closed hrunning

/-- A proposal, with its outcome if it is due. -/
def closed (c : Chain) (t : UInt64) (p : Proposal) : Proposal :=
  if p.isDue t then { p with status := c.outcomeOf p } else p

/-- The council with all that is due closed. -/
def closedAt (c : Chain) (t : UInt64) : Council :=
  { c.council with proposals := c.council.proposals.map (c.closed t) }

/-- How many proposals are due. -/
def dueCount (c : Chain) (t : UInt64) : Nat :=
  c.council.proposals.countP (·.isDue t)

/-- **To settle later is to close what is due.** -/
theorem settle_eq_closedAt (h : ofBlocks rules blocks = .ok c)
    (ht : c.time ≤ t) :
    c.council.settle t c.standing.electorateAt = c.closedAt t := by
  unfold Council.settle closedAt
  congr 1
  refine List.map_congr_left fun p hp => ?_
  rw [settledStatus_of_mem h ht hp, closed]
  split <;> rfl

/-- What changes when it is settled later is what is due. -/
theorem settling_eq (h : ofBlocks rules blocks = .ok c) (ht : c.time ≤ t) :
    c.council.settling t c.standing.electorateAt =
      (c.council.proposals.filter (·.isDue t)).map
        fun p => (p.id, c.outcomeOf p) := by
  have hchanges : c.council.proposals.filter (fun p =>
      p.settledStatus t c.standing.electorateAt c.council.rules ≠ p.status) =
        c.council.proposals.filter (·.isDue t) := by
    refine List.filter_congr fun p hp => ?_
    rw [settledStatus_of_mem h ht hp]
    cases hdue : p.isDue t with
    | false => simp
    | true =>
      simp [(Proposal.isDue_iff.mp hdue).1, outcomeOf, p.finalOutcome_ne_running]
  unfold Council.settling
  rw [hchanges]
  refine List.map_congr_left fun p hp => ?_
  obtain ⟨hmem, hdue⟩ := List.mem_filter.mp hp
  rw [settledStatus_of_mem h ht hmem, if_pos hdue]

theorem closedAt_of_dueCount_eq_zero (h : c.dueCount t = 0) :
    c.closedAt t = c.council := by
  have hnone := List.countP_eq_zero.mp h
  have hsame :
      c.council.proposals.map (c.closed t) = c.council.proposals.map id :=
    List.map_congr_left fun p hp => if_neg (hnone p hp)
  rw [closedAt, hsame, List.map_id]

/-- Nothing is due once it is closed. -/
theorem dueCount_eq_zero_of_closedAt {d : Chain}
    (h : d.council = c.closedAt t) : d.dueCount t = 0 := by
  rw [dueCount, h, List.countP_eq_zero]
  intro q hq hdue
  obtain ⟨p, -, rfl⟩ := List.mem_map.mp hq
  unfold closed at hdue
  split at hdue
  · exact p.finalOutcome_ne_running _ _ (Proposal.isDue_iff.mp hdue).1
  · next hopen => exact hopen hdue

/-- The block that closes what is due, if anything is. -/
theorem closingBlock_eq (h : ofBlocks rules blocks = .ok c) {tip : Tip}
    (htip : c.tip = some tip) (clock : UInt64) :
    c.closingBlock clock =
      .ok (if c.dueCount (max clock c.time) = 0 then none
           else some (c.dueCount (max clock c.time),
                      .build (tip.height + 1) (some tip.hash) (max clock c.time)
                        [])) := by
  have htime : c.time = tip.timestamp := by rw [time, htip]; rfl
  have hlength :
      (c.council.settling (max clock c.time) c.standing.electorateAt).length =
        c.dueCount (max clock c.time) := by
    rw [settling_eq h (Amount.le_max_right _ _), List.length_map, dueCount,
      List.countP_eq_length_filter]
  rw [htime] at hlength ⊢
  simp only [closingBlock, htip, hlength]
  split <;> rfl

/-- The empty block that closes what is due passes every check. -/
theorem validate_closingBlock (h : ofBlocks rules blocks = .ok c) {tip : Tip}
    (htip : c.tip = some tip) (hfits : blocks.length < UInt64.size)
    (ht : c.time ≤ t) {b : Block}
    (hb : b = .build (tip.height + 1) (some tip.hash) t [])
    (hnew : Digest.NoCollision b.bytes c.namedBytes) :
    c.validate b = .ok ⟨c.accounts, c.closedAt t⟩ := by
  have htime : c.time = tip.timestamp := by rw [time, htip]; rfl
  have happlies : c.ledger.applyBlock b = .ok ⟨c.accounts, c.closedAt t⟩ := by
    have hempty :
        c.ledger.applyBlock b = .ok ((c.ledger.settle t).settle t) := by
      rw [hb]
      rfl
    rw [hempty, Ledger.settle_settle, ← settle_eq_closedAt h ht]
    rfl
  have hadds :
      c.archive.checkTransactions b.hash [] b.transactions = .ok () := by
    rw [hb]
    rfl
  exact (validate_made h htip hfits (htime ▸ ht)
    (by simp) hb hnew hadds).trans happlies

end Chain

/-! ## Ticks -/

namespace Node

variable {config : Config} {n : Node} {blocks : List Block} {m : Moment}

/-- What a tick does at a moment: it closes what is due at the time of the
clock, or of the tip if the clock is behind, by one empty block, and a second
tick finds nothing to close. -/
structure ClosesDue (n : Node) (m : Moment) : Prop where
  count : (n.tick m).1 = .ok (n.chain.dueCount (max m.clock n.chain.time))
  idle : n.chain.dueCount (max m.clock n.chain.time) = 0 → (n.tick m).2 = n
  committed : n.chain.dueCount (max m.clock n.chain.time) ≠ 0 →
    ∃ b, b.transactions = [] ∧ b.timestamp = max m.clock n.chain.time ∧
      (n.tick m).2.chain.blocks = n.chain.blocks ++ [b]
  logged : ∀ d ∈ (n.tick m).2.dir,
    BlockLog.read d = (.ok (n.tick m).2.chain.blocks, d)
  accounts : (n.tick m).2.chain.accounts = n.chain.accounts
  council : (n.tick m).2.chain.council =
    n.chain.closedAt (max m.clock n.chain.time)
  again : ∀ m', m'.clock = m.clock → (n.tick m).2.tick m' = (.ok 0, (n.tick m).2)

/-- A tick does nothing when nothing is due. -/
theorem Tracks.tick_of_dueCount_eq_zero (h : n.Tracks config blocks)
    (hne : blocks ≠ [])
    (hnone : n.chain.dueCount (max m.clock n.chain.time) = 0) :
    n.tick m = (.ok 0, n) := by
  obtain ⟨tip, htip⟩ := h.records.exists_tip hne
  rw [tick, Chain.closingBlock_eq h.history htip, if_pos hnone]

theorem Tracks.closesDue (h : n.Tracks config blocks) (hne : blocks ≠ [])
    (htakes : n.dir = none ∨ m.diskTakes = true)
    (hfits : blocks.length < UInt64.size)
    (hnew : ∀ due b, n.chain.closingBlock m.clock = .ok (some (due, b)) →
      Digest.NoCollision b.bytes n.chain.namedBytes) : n.ClosesDue m := by
  obtain ⟨tip, htip⟩ := h.records.exists_tip hne
  have hclosing := Chain.closingBlock_eq h.history htip m.clock
  by_cases hnone : n.chain.dueCount (max m.clock n.chain.time) = 0
  · have htick : ∀ m', m'.clock = m.clock → n.tick m' = (.ok 0, n) :=
      fun m' hm' =>
        h.tick_of_dueCount_eq_zero hne (by rw [hm']; exact hnone)
    have hsame := htick m rfl
    refine ⟨?_, ?_, fun hsome => absurd hnone hsome, ?_, ?_, ?_, ?_⟩ <;>
      rw [hsame]
    · rw [hnone]
    · exact fun _ => rfl
    · exact fun d hd => h.read_log hne hd
    · exact (Chain.closedAt_of_dueCount_eq_zero hnone).symm
    · exact htick
  · obtain ⟨b, hb⟩ : ∃ b, b = Block.build (tip.height + 1) (some tip.hash)
      (max m.clock n.chain.time) [] := ⟨_, rfl⟩
    rw [if_neg hnone, ← hb] at hclosing
    have hvalid := Chain.validate_closingBlock h.history htip hfits
      (Amount.le_max_right m.clock _) hb (hnew _ _ hclosing)
    obtain ⟨next, hcommit, hchain, -, hnext⟩ := h.exists_commit hvalid htakes
    have htick :
        n.tick m =
          (.ok (n.chain.dueCount (max m.clock n.chain.time)), next) := by
      rw [tick, hclosing]
      simp only [hcommit]
      rfl
    have htime : next.chain.time = max m.clock n.chain.time := by
      rw [hchain, hb]
      rfl
    have hcouncil :
        next.chain.council = n.chain.closedAt (max m.clock n.chain.time) := by
      rw [hchain]
      rfl
    refine ⟨?_, fun hzero => absurd hzero hnone, fun _ => ?_, ?_, ?_, ?_, ?_⟩ <;>
      rw [htick]
    · exact ⟨b, by rw [hb]; rfl, by rw [hb]; rfl,
        by rw [hnext.blocks_eq, h.blocks_eq]⟩
    · exact fun d hd => hnext.read_log (by simp) hd
    · rw [hchain]
      rfl
    · exact hcouncil
    · intro m' hm'
      refine hnext.tick_of_dueCount_eq_zero (by simp) ?_
      rw [hm', htime, Amount.max_max]
      exact Chain.dueCount_eq_zero_of_closedAt hcouncil

/-- **A tick closes exactly what is due.** To settle the council at any time
from the last block on changes the proposals that are open with their deadline
reached, and no others. So a tick returns their number; it adds one empty block
when there are any, and nothing else; it changes no account, vote or delegation;
and a second tick at the same time finds nothing to do. -/
theorem tick_closes_exactly_due (h : n.Reachable config) :
    (∀ t, n.chain.time ≤ t →
        n.chain.council.settle t n.chain.standing.electorateAt =
            n.chain.closedAt t ∧
          n.chain.council.settling t n.chain.standing.electorateAt =
            (n.chain.council.proposals.filter (·.isDue t)).map
              fun p => (p.id, n.chain.outcomeOf p)) ∧
      ∀ m, (n.dir = none ∨ m.diskTakes = true) →
        n.chain.blocks.length < UInt64.size →
        (∀ due b, n.chain.closingBlock m.clock = .ok (some (due, b)) →
          Digest.NoCollision b.bytes n.chain.namedBytes) →
        n.ClosesDue m := by
  obtain ⟨rest, htracks⟩ := h.tracks
  refine ⟨?_, ?_⟩
  · intro t ht
    exact ⟨Chain.settle_eq_closedAt htracks.history ht,
      Chain.settling_eq htracks.history ht⟩
  · intro m htakes hfits hnew
    rw [htracks.blocks_eq] at hfits
    exact htracks.closesDue (List.cons_ne_nil _ _) htakes hfits hnew

/-- At its deadline a tick closes the open one of the two proposals of the
run. -/
theorem tick_closes_exactly_due_fourFifths : ∃ n, Reachable .fourFifths n ∧
    (n.tick ⟨60, true⟩).1 = .ok 1 ∧ n.ClosesDue ⟨60, true⟩ := by
  obtain ⟨first, n, b, -, -, hn, -, -, hfacts⟩ := exists_twoProposals
  obtain ⟨b, after, hclosing, -, hvalid, hok⟩ := hfacts.exists_closing hn
  have hfits : n.chain.blocks.length < UInt64.size := by
    rw [hfacts.blocks]
    decide
  have hnew : ∀ due b', n.chain.closingBlock 60 = .ok (some (due, b')) →
      Digest.NoCollision b'.bytes n.chain.namedBytes := by
    intro due b' hblock
    cases hclosing.symm.trans hblock
    obtain ⟨rest, htracks⟩ := hn.tracks
    obtain ⟨hcheck, -, harchive, -⟩ := Chain.validate_ok hvalid
    refine Chain.noCollision_of_contains_eq_false htracks.history ?_
    rw [(Block.exists_bytes_of_check hcheck).1]
    exact (Archive.check_eq_ok.mp harchive).1
  have hcount : (n.tick ⟨60, true⟩).1 = .ok 1 := by
    rw [tick, hclosing]
    show (n.commit ⟨60, true⟩ b).1.map (fun _ => 1) = .ok 1
    rw [hok]
    rfl
  exact ⟨n, hn, hcount, (tick_closes_exactly_due hn).2 ⟨60, true⟩
    (.inr rfl) hfits hnew⟩

end Node
end CouncilLedger
