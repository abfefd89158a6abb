import CouncilLedger.Proofs.Voting
import Mathlib.Data.List.Forall2

/-!
# What a step of a block does to proposals

Proposals keep their places, and new ones come behind them. One step of a block
settles the status of a proposal, records a vote on it, or marks it as paid:
`Proposal.Becomes` lists these, and `Ledger.Stage.moves` says that there is
nothing else. Who or what a proposal is for never changes, and once it is closed
neither do its status and its votes.
-/

namespace CouncilLedger

open Outcome

/-! ## One proposal -/

namespace Proposal

variable {p q : Proposal} {now : UInt64} {e : UInt64 → Electorate}
    {rules : Rules}

theorem finalOutcome_ne_running (p : Proposal) (power : Amount)
    (rules : Rules) : p.finalOutcome power rules ≠ .running := by
  unfold finalOutcome
  dsimp only
  split
  · exact nofun
  · split <;> exact nofun

/-- A proposal is open as long as no outcome is recorded and its deadline has
not come. -/
theorem statusAt_eq_running_iff :
    p.statusAt now e rules = .running ↔
      p.status = .running ∧ now < p.endsAt := by
  unfold statusAt
  split
  · next h =>
    constructor
    · intro hrunning
      exact ⟨hrunning, h.resolve_left (not_not.mpr hrunning)⟩
    · exact And.left
  · next h =>
    simp only [not_or, not_not] at h
    simp [h.2, finalOutcome_ne_running]

theorem statusAt_of_closed (h : p.status ≠ .running) :
    p.statusAt now e rules = p.status :=
  if_pos (.inl h)

theorem statusAt_of_due (hrunning : p.status = .running)
    (hdue : p.endsAt ≤ now) :
    p.statusAt now e rules =
      p.finalOutcome ((e p.endsAt).power p.mode) rules := by
  rw [statusAt, if_neg]
  simpa [hrunning] using hdue

theorem settledStatus_of_closed (h : p.status ≠ .running) :
    p.settledStatus now e rules = p.status :=
  if_pos h

theorem settledStatus_of_due (hrunning : p.status = .running)
    (hdue : p.endsAt ≤ now) :
    p.settledStatus now e rules =
      p.finalOutcome ((e p.endsAt).power p.mode) rules := by
  rw [settledStatus, if_neg (not_not.mpr hrunning), if_pos hdue,
    statusAt_of_due hrunning hdue]

theorem settledStatus_of_early (hrunning : p.status = .running)
    (hearly : now < p.endsAt) :
    p.settledStatus now e rules = (p.earlyOutcome (e now)).getD .running := by
  rw [settledStatus, if_neg (not_not.mpr hrunning),
    if_neg (UInt64.not_le.mpr hearly)]

/-- What one step at the time `now` makes of a proposal, before an electorate
`e`. -/
inductive Becomes (now : UInt64) (e : UInt64 → Electorate) (rules : Rules)
    (p : Proposal) : Proposal → Prop where
  | same : Becomes now e rules p p
  | settled :
      Becomes now e rules p { p with status := p.settledStatus now e rules }
  | voted {v : Vote} (running : p.status = .running) (early : now < p.endsAt)
      (unused : p.powerUsedBy v.voter = false) (weight : v.weight ≠ 0)
      (time : v.timestamp = now) :
      Becomes now e rules p (p.withVote v (e now))
  | paid {d : Digest} (kind : p.kind = .treasury)
      (passed : p.statusAt now e rules = .passed) (unpaid : p.fundedBy = none) :
      Becomes now e rules p { p with status := .passed, fundedBy := some d }

namespace Becomes

/-- Only the status, the votes and the mark of the payout change. -/
theorem terms (h : Becomes now e rules p q) : q = { p with
      status := q.status, votes := q.votes, fundedBy := q.fundedBy } := by
  cases h <;> rfl

theorem id (h : Becomes now e rules p q) : q.id = p.id := by rw [h.terms]

theorem mode (h : Becomes now e rules p q) : q.mode = p.mode := by rw [h.terms]

theorem threshold (h : Becomes now e rules p q) :
    q.threshold = p.threshold := by rw [h.terms]

theorem endsAt (h : Becomes now e rules p q) :
    q.endsAt = p.endsAt := by rw [h.terms]

/-- A closed proposal keeps its status and its votes. -/
theorem of_closed (h : Becomes now e rules p q) (hclosed : p.status ≠ .running) :
    q.status = p.status ∧ q.votes = p.votes := by
  cases h with
  | same => exact ⟨rfl, rfl⟩
  | settled => exact ⟨settledStatus_of_closed hclosed, rfl⟩
  | voted running => exact absurd running hclosed
  | paid _ passed =>
    exact ⟨(statusAt_of_closed hclosed).symm.trans passed |>.symm, rfl⟩

/-- A passed and paid proposal stays what it is. -/
theorem eq_of_paid (h : Becomes now e rules p q) (hpassed : p.status = .passed)
    (hpaid : p.fundedBy.isSome) : q = p := by
  have hclosed : p.status ≠ .running := by
    rw [hpassed]
    nofun
  cases h with
  | same => rfl
  | settled => rw [settledStatus_of_closed hclosed]
  | voted running => exact absurd running hclosed
  | paid _ _ unpaid =>
    rw [unpaid] at hpaid
    cases hpaid

/-- What closes a proposal whose deadline has come is the electorate of the
deadline. -/
theorem status_of_due (h : Becomes now e rules p q)
    (hrunning : p.status = .running) (hdue : p.endsAt ≤ now)
    (hclosed : q.status ≠ .running) :
    q.status = p.finalOutcome ((e p.endsAt).power p.mode) rules ∧
      q.votes = p.votes := by
  cases h with
  | same => exact absurd hrunning hclosed
  | settled => exact ⟨settledStatus_of_due hrunning hdue, rfl⟩
  | voted _ early => exact absurd early (UInt64.not_lt.mpr hdue)
  | paid _ passed =>
    rw [statusAt_of_due hrunning hdue] at passed
    exact ⟨passed.symm, rfl⟩

end Becomes
end Proposal

/-! ## All proposals -/

namespace Council

/-- What one step makes of a list of proposals: each becomes another in its
place, and behind them come new ones. -/
structure Moves (now : UInt64) (e : UInt64 → Electorate) (rules : Rules)
    (before after : List Proposal) : Prop where
  exists_split : ∃ moved opened, after = moved ++ opened ∧
    List.Forall₂ (Proposal.Becomes now e rules) before moved ∧ ∀ q ∈ opened,
    ∃ id creator draft height, q = .ofDraft id creator draft now height

namespace Moves

variable {now : UInt64} {e : UInt64 → Electorate} {rules : Rules}
    {before after : List Proposal}

theorem refl (now : UInt64) (e : UInt64 → Electorate) (rules : Rules)
    (ps : List Proposal) : Moves now e rules ps ps :=
  ⟨ps, [], by simp, List.forall₂_same.mpr fun _ _ => .same, by simp⟩

/-- One of the proposals becomes another. -/
theorem setProposal {c : Council} {id : String} {p p' : Proposal}
    (hp : c.proposal? id = some p) (h : Proposal.Becomes now e rules p p') :
    Moves now e rules c.proposals (c.setProposal p').proposals := by
  obtain ⟨first, last, hold, hnew⟩ := setProposal_of_proposal? hp h.id
  have hsame :
      ∀ ps : List Proposal, List.Forall₂ (Proposal.Becomes now e rules) ps ps :=
    fun ps => List.forall₂_same.mpr fun _ _ => .same
  rw [hold, hnew]
  exact ⟨_, [], (List.append_nil _).symm, List.rel_append (hsame first)
    (.cons h (hsame last)), by simp⟩

/-- Each proposal becomes one of those after the step. -/
theorem exists_after (h : Moves now e rules before after) {p : Proposal}
    (hp : p ∈ before) : ∃ q ∈ after, Proposal.Becomes now e rules p q := by
  obtain ⟨moved, opened, rfl, hmoved, -⟩ := h.exists_split
  obtain ⟨i, hi, rfl⟩ := List.getElem_of_mem hp
  have hi' : i < moved.length := hmoved.length_eq ▸ hi
  exact ⟨moved[i], List.mem_append_left _ (List.getElem_mem hi'),
    hmoved.get hi hi'⟩

/-- Each proposal after the step comes from one before, or is new. -/
theorem exists_before (h : Moves now e rules before after) {q : Proposal}
    (hq : q ∈ after) :
    (∃ p ∈ before, Proposal.Becomes now e rules p q) ∨
      ∃ id creator draft height, q = .ofDraft id creator draft now height := by
  obtain ⟨moved, opened, rfl, hmoved, hopened⟩ := h.exists_split
  rcases List.mem_append.mp hq with hq | hq
  · obtain ⟨i, hi, rfl⟩ := List.getElem_of_mem hq
    have hi' : i < before.length := hmoved.length_eq.symm ▸ hi
    exact .inl ⟨before[i], List.getElem_mem hi', hmoved.get hi' hi⟩
  · exact .inr (hopened q hq)

end Moves

/-- A proposal has been closed with a status, and no votes have come since. -/
def HasClosed (c : Council) (p : Proposal) (status : Status) : Prop :=
  status ≠ .running ∧
    ∃ q ∈ c.proposals, q.id = p.id ∧ q.status = status ∧ q.votes = p.votes

theorem HasClosed.moves {c c' : Council} {now : UInt64}
    {e : UInt64 → Electorate} {rules : Rules} {p : Proposal} {status : Status}
    (h : c.HasClosed p status)
    (hmoves : Moves now e rules c.proposals c'.proposals) :
    c'.HasClosed p status := by
  obtain ⟨hclosed, q, hq, hid, hstatus, hvotes⟩ := h
  obtain ⟨r, hr, hbecomes⟩ := hmoves.exists_after hq
  obtain ⟨hkept, hballot⟩ := hbecomes.of_closed (hstatus ▸ hclosed)
  exact ⟨hclosed, r, hr, hbecomes.id.trans hid, hkept.trans hstatus,
    hballot.trans hvotes⟩

end Council

/-! ## Transactions and blocks -/

namespace Ledger

variable {l l' : Ledger} {t : Transaction} {height now : UInt64}

/-- What a step from `l` to `l'` at `now` makes of the proposals. -/
abbrev Moves (now : UInt64) (l l' : Ledger) : Prop :=
  Council.Moves now l.standing.electorateAt l.council.rules l.council.proposals
    l'.council.proposals

theorem settle_moves (l : Ledger) (now : UInt64) : l.Moves now (l.settle now) :=
  ⟨_, [], (List.append_nil _).symm, List.forall₂_map_right_iff.mpr
    (List.forall₂_same.mpr fun _ _ => .settled), by simp⟩

/-- **Every action moves proposals** by a vote or a payout, or opens one. -/
theorem Acted.moves (hact : Acted height now l t l') : l.Moves now l' := by
  cases hact with
  | mint | transfer => exact .refl ..
  | propose _ _ _ ok =>
    obtain ⟨-, -, -, rfl⟩ := Council.propose_ok ok
    refine ⟨_, [_], rfl, List.forall₂_same.mpr fun _ _ => .same, ?_⟩
    intro q hq
    exact ⟨_, _, _, _, List.mem_singleton.mp hq⟩
  | vote _ _ _ _ ok =>
    obtain ⟨p, hp, -, hunused, hweight, hopen, rfl⟩ := Council.vote_ok ok
    obtain ⟨hrunning, hearly⟩ := Proposal.statusAt_eq_running_iff.mp hopen
    exact .setProposal hp (.voted hrunning hearly hunused hweight rfl)
  | payOut _ _ _ _ authorized =>
    obtain ⟨p, hp, hkind, hpassed, hunpaid, -, rfl⟩ :=
      Council.authorizePayout_ok authorized
    exact .setProposal hp (.paid hkind hpassed hunpaid)
  | delegate _ _ _ ok =>
    obtain ⟨-, -, -, -, -, -, -, -, -, rfl⟩ := Council.delegate_ok ok
    exact .refl ..
  | revoke _ _ ok =>
    obtain ⟨d, -, -, rfl⟩ := Council.revoke_ok ok
    exact .refl ..

/-- Each proposal after an action was there before, and has gained no vote but
one of the sender, or the sender has opened it with a draft that keeps the
rules. -/
theorem Acted.exists_before (hact : Acted height now l t l') {q : Proposal}
    (hq : q ∈ l'.council.proposals) :
    (∃ p ∈ l.council.proposals,
      Proposal.Becomes now l.standing.electorateAt l.council.rules p q ∧
        ∀ v ∈ q.votes.values, v ∈ p.votes.values ∨ v.voter = t.sender) ∨
      ∃ draft, draft.check l.council.rules = .ok () ∧
        q = .ofDraft t.hash.hex t.sender draft now height := by
  have hkept :
      ∀ {p : Proposal}, p ∈ l.council.proposals →
        ∃ p' ∈ l.council.proposals,
          Proposal.Becomes now l.standing.electorateAt l.council.rules p' p ∧
          ∀ v ∈ p.votes.values, v ∈ p'.votes.values ∨ v.voter = t.sender :=
    fun {p} hp => ⟨p, hp, .same, fun _ hv => .inl hv⟩
  cases hact with
  | mint | transfer => exact .inl (hkept hq)
  | propose _ _ _ ok =>
    obtain ⟨hcheck, -, -, rfl⟩ := Council.propose_ok ok
    rcases List.mem_append.mp hq with hq | hq
    · exact .inl (hkept hq)
    · exact .inr ⟨_, hcheck, List.mem_singleton.mp hq⟩
  | vote _ _ _ _ ok =>
    obtain ⟨p, hp, -, hunused, hweight, hopen, rfl⟩ := Council.vote_ok ok
    obtain ⟨hrunning, hearly⟩ := Proposal.statusAt_eq_running_iff.mp hopen
    rcases mem_replaceFirst hq with rfl | hq
    · refine .inl ⟨p, Council.mem_of_proposal? hp,
        .voted hrunning hearly hunused hweight rfl, ?_⟩
      intro v hv
      rcases SortedMap.mem_values_insert hv with rfl | hv
      · exact .inr rfl
      · exact .inl hv
    · exact .inl (hkept hq)
  | payOut _ _ _ _ authorized =>
    obtain ⟨p, hp, hkind, hpassed, hunpaid, -, rfl⟩ :=
      Council.authorizePayout_ok authorized
    rcases mem_replaceFirst hq with rfl | hq
    · exact .inl ⟨p, Council.mem_of_proposal? hp, .paid hkind hpassed hunpaid,
        fun _ hv => .inl hv⟩
    · exact .inl (hkept hq)
  | delegate _ _ _ ok =>
    obtain ⟨-, -, -, -, -, -, -, -, -, rfl⟩ := Council.delegate_ok ok
    exact .inl (hkept hq)
  | revoke _ _ ok =>
    obtain ⟨d, -, -, rfl⟩ := Council.revoke_ok ok
    exact .inl (hkept hq)

theorem Stage.moves {b : Block} {m m' : Ledger} (h : Stage b l m m') :
    m.Moves b.timestamp m' := by
  cases h with
  | opening => exact settle_moves l b.timestamp
  | closing => exact settle_moves _ b.timestamp
  | acting _ _ ok => exact (apply_ok ok).2.moves

/-- A closed proposal stays closed as it is. -/
theorem Stage.hasClosed {b : Block} {m m' : Ledger} (hstage : Stage b l m m')
    {p : Proposal} {status : Status} (h : m.council.HasClosed p status) :
    m'.council.HasClosed p status :=
  h.moves hstage.moves

theorem applyBlock_hasClosed {b : Block} (hblock : l.applyBlock b = .ok l')
    {p : Proposal} {status : Status} (h : l.council.HasClosed p status) :
    l'.council.HasClosed p status :=
  applyBlock_stage_induction (P := fun m => m.council.HasClosed p status) hblock
    h fun _ _ hstage hm => hstage.hasClosed hm

/-- **A block closes every proposal that is due**, by the electorate that it
finds for the time of the deadline: the transactions come too late. -/
theorem applyBlock_closes_due {b : Block} (hblock : l.applyBlock b = .ok l')
    {p : Proposal} (hp : p ∈ l.council.proposals)
    (hrunning : p.status = .running) (hdue : p.endsAt ≤ b.timestamp) :
    l'.council.HasClosed p (p.finalOutcome
      ((l.standing.electorateAt p.endsAt).power p.mode) l.council.rules) := by
  obtain ⟨m, hm, rfl⟩ := applyBlock_ok hblock
  have hsettled :
      (l.settle b.timestamp).council.HasClosed p (p.finalOutcome
        ((l.standing.electorateAt p.endsAt).power p.mode) l.council.rules) := by
    refine ⟨p.finalOutcome_ne_running _ _, _,
      List.mem_map.mpr ⟨p, hp, rfl⟩, rfl, ?_, rfl⟩
    exact Proposal.settledStatus_of_due hrunning hdue
  refine (foldlM_induction (P := fun k : Ledger => k.council.HasClosed p _) hm
    hsettled ?_).moves (settle_moves m b.timestamp)
  intro t _ k k' hk hstep
  exact hk.moves (apply_ok hstep).2.moves

/-- A passed and paid proposal stays as a block finds it. -/
theorem applyBlock_mem_of_paid {b : Block} (hblock : l.applyBlock b = .ok l')
    {p : Proposal} (hp : p ∈ l.council.proposals) (hpassed : p.status = .passed)
    (hpaid : p.fundedBy.isSome) : p ∈ l'.council.proposals := by
  refine applyBlock_stage_induction
    (P := fun m => p ∈ m.council.proposals) hblock hp ?_
  intro m m' hstage hm
  obtain ⟨q, hq, hbecomes⟩ := hstage.moves.exists_after hm
  exact hbecomes.eq_of_paid hpassed hpaid ▸ hq

end Ledger
end CouncilLedger
