import CouncilLedger.Proofs.Closing
import CouncilLedger.Proofs.Eligibility
import CouncilLedger.Proofs.OtherAccounts

/-!
# The terms that a block opens

A voting period and the term of a delegation begin at the time of the block,
which may be any, and end as much later as was asked for, but at the largest
time at the latest. What begins before the largest time ends after it has begun:
a proposal is open after its block unless votes have decided it, and power that
was lent and not taken back is lent. At the largest time itself, both are over
as they begin. The main statement is `Chain.terms_last_while_there_is_time`.
-/

namespace CouncilLedger

open Outcome

/-! ## Ends -/

namespace Amount

/-- A sum that stops at the largest amount is a rise from anywhere below it. -/
theorem lt_addCapped {a b : Amount} (hb : b ≠ 0) (ha : a ≠ largest) :
    a < addCapped a b := by
  have hbelow : a.toNat ≠ UInt64.size - 1 :=
    fun heq => ha (UInt64.toNat_inj.mp heq)
  have hpositive : b.toNat ≠ 0 := fun heq => hb (UInt64.toNat_inj.mp heq)
  have hbound := a.toNat_lt
  rw [UInt64.lt_iff_toNat_lt, toNat_addCapped]
  simp only [UInt64.size] at hbelow ⊢
  omega

theorem addCapped_largest (b : Amount) : addCapped largest b = largest := by
  rw [← UInt64.toNat_inj, toNat_addCapped, show largest.toNat =
    UInt64.size - 1 from rfl]
  omega

end Amount

theorem Draft.duration_ne_zero {d : Draft} {rules : Rules}
    (h : d.check rules = .ok ()) : d.duration ≠ 0 := by
  simp only [check, guard_eq_ok] at h
  exact h.2.2.1

/-! ## Proposals -/

namespace Proposal

variable {p : Proposal} {now : UInt64}

theorem tally_of_no_votes (h : p.votes = .empty) :
    p.tally.yes = 0 ∧ p.tally.no = 0 ∧ p.tally.cast = 0 := by
  simp only [tally, h]
  exact ⟨rfl, rfl, rfl⟩

/-- Nothing is decided before the deadline without a vote. -/
theorem earlyOutcome_of_no_votes (h : p.votes = .empty) (e : Electorate) :
    p.earlyOutcome e = none := by
  obtain ⟨hyes, hno, -⟩ := tally_of_no_votes h
  rw [earlyOutcome_eq_none_iff, hyes, hno, UInt64.toNat_zero]
  omega

theorem finalOutcome_of_no_votes (h : p.votes = .empty) (power : Amount)
    (rules : Rules) : p.finalOutcome power rules = .expired :=
  if_pos (.inl (tally_of_no_votes h).2.2)

theorem closed_of_earlyOutcome {e : Electorate}
    (h : p.earlyOutcome e = some p.status) : p.status ≠ .running := by
  intro hrunning
  rw [hrunning] at h
  exact p.earlyOutcome_ne_running e h

/-- Settlement leaves nothing open that is due. -/
theorem settledStatus_ne_running {e : UInt64 → Electorate} {rules : Rules}
    (hdue : p.endsAt ≤ now) : p.settledStatus now e rules ≠ .running := by
  by_cases hrunning : p.status = .running
  · rw [settledStatus_of_due hrunning hdue]
    exact finalOutcome_ne_running _ _ _
  · rw [settledStatus_of_closed hrunning]
    exact hrunning

end Proposal

namespace Ledger

variable {l l' m m' : Ledger} {b : Block} {p q : Proposal}

/-- A proposal is open, or the votes on it were enough at one of the steps of a
block on the ledger `l`. -/
def OpenOrDecided (l : Ledger) (b : Block) (q : Proposal) : Prop :=
  q.status = .running ∨ ∃ m m', Stage b l m m' ∧
    q.earlyOutcome (m.standing.electorateAt b.timestamp) = some q.status

/-- A step before the deadline keeps a proposal open, or it takes the vote that
is enough. -/
theorem OpenOrDecided.becomes (h : OpenOrDecided l b p)
    (hearly : b.timestamp < p.endsAt) (hstage : Stage b l m m')
    (hbecomes : p.Becomes b.timestamp m.standing.electorateAt m.council.rules
      q) : OpenOrDecided l b q := by
  cases hbecomes with
  | same => exact h
  | settled =>
    rcases h with hrunning | ⟨k, k', hk, hdecided⟩
    · have hsettled :
          p.settledStatus b.timestamp m.standing.electorateAt m.council.rules =
            _ :=
        Proposal.settledStatus_of_early hrunning hearly
      cases houtcome : p.earlyOutcome (m.standing.electorateAt b.timestamp) with
      | none => exact .inl (by rw [hsettled, houtcome]; rfl)
      | some outcome =>
        refine .inr ⟨m, m', hstage, ?_⟩
        rw [hsettled, houtcome]
        exact houtcome
    · refine .inr ⟨k, k', hk, ?_⟩
      rw [Proposal.settledStatus_of_closed
        (Proposal.closed_of_earlyOutcome hdecided)]
      exact hdecided
  | @voted v running =>
    cases houtcome : (p.withVote v (m.standing.electorateAt
      b.timestamp)).earlyOutcome (m.standing.electorateAt b.timestamp) with
    | none =>
      refine .inl (Eq.trans ?_ running)
      exact congrArg (·.getD p.status) houtcome
    | some outcome =>
      refine .inr ⟨m, m', hstage, houtcome.trans (congrArg some ?_)⟩
      exact (congrArg (·.getD p.status) houtcome).symm
  | paid _ passed =>
    rcases h with hrunning | ⟨k, k', hk, hdecided⟩
    · rw [Proposal.statusAt_eq_running_iff.mpr ⟨hrunning, hearly⟩] at passed
      cases passed
    · rw [Proposal.statusAt_of_closed
        (Proposal.closed_of_earlyOutcome hdecided)] at passed
      rw [passed] at hdecided
      exact .inr ⟨k, k', hk, hdecided⟩

/-- A step at the deadline leaves a proposal without votes as it is, or lets it
expire. -/
theorem becomes_of_no_votes {now : UInt64} {e : UInt64 → Electorate}
    {rules : Rules} (hvotes : p.votes = .empty)
    (hstatus : p.status = .running ∨ p.status = .expired)
    (hdue : p.endsAt ≤ now) (hbecomes : p.Becomes now e rules q) :
    q.votes = .empty ∧ (q.status = .running ∨ q.status = .expired) := by
  have hclosed : p.status = .expired → p.status ≠ .running := fun hexpired => by
    rw [hexpired]
    nofun
  cases hbecomes with
  | same => exact ⟨hvotes, hstatus⟩
  | settled =>
    refine ⟨hvotes, .inr ?_⟩
    rcases hstatus with hrunning | hexpired
    · rw [Proposal.settledStatus_of_due hrunning hdue]
      exact Proposal.finalOutcome_of_no_votes hvotes _ _
    · rw [Proposal.settledStatus_of_closed (hclosed hexpired), hexpired]
  | voted _ early => exact absurd early (UInt64.not_lt.mpr hdue)
  | paid _ passed =>
    -- without votes it cannot have passed
    rcases hstatus with hrunning | hexpired
    · rw [Proposal.statusAt_of_due hrunning hdue,
        Proposal.finalOutcome_of_no_votes hvotes] at passed
      cases passed
    · rw [Proposal.statusAt_of_closed (hclosed hexpired), hexpired] at passed
      cases passed

/-- What holds, after each step of a block on the ledger `l`, of a proposal that
the block opened. -/
structure HasOpened (l : Ledger) (b : Block) (q : Proposal) : Prop where
  createdAt : q.createdAt = b.timestamp
  duration : q.duration ≠ 0
  endsAt : q.endsAt = Amount.addCapped b.timestamp q.duration
  early : b.timestamp < q.endsAt → OpenOrDecided l b q
  due : q.endsAt ≤ b.timestamp → q.votes = .empty ∧
    (q.status = .running ∨ q.status = .expired)

namespace HasOpened

theorem ofDraft (l : Ledger) (b : Block) {id creator : String} {draft : Draft}
    {height : UInt64} (hduration : draft.duration ≠ 0) :
    HasOpened l b (.ofDraft id creator draft b.timestamp height) where
  createdAt := rfl
  duration := hduration
  endsAt := rfl
  early := fun _ => .inl rfl
  due := fun _ => ⟨rfl, .inl rfl⟩

theorem becomes (h : HasOpened l b p) (hstage : Stage b l m m')
    (hbecomes : p.Becomes b.timestamp m.standing.electorateAt m.council.rules q) :
    HasOpened l b q where
  createdAt := by rw [hbecomes.terms, h.createdAt]
  duration := by rw [hbecomes.terms]; exact h.duration
  endsAt := by rw [hbecomes.terms]; exact h.endsAt
  early := by
    rw [hbecomes.endsAt]
    exact fun hearly => (h.early hearly).becomes hearly hstage hbecomes
  due := by
    rw [hbecomes.endsAt]
    exact fun hdue => becomes_of_no_votes (h.due hdue).1
      (h.due hdue).2 hdue hbecomes

end HasOpened

/-- A step of a block opens a proposal for some time, or moves one that is
there. -/
theorem Stage.exists_before (h : Stage b l m m')
    (hq : q ∈ m'.council.proposals) :
    (∃ p ∈ m.council.proposals,
        p.Becomes b.timestamp m.standing.electorateAt m.council.rules q) ∨
      ∃ id creator draft, draft.duration ≠ 0 ∧
        q = .ofDraft id creator draft b.timestamp b.height := by
  cases h with
  | opening | closing =>
    obtain ⟨p, hp, rfl⟩ := List.mem_map.mp hq
    exact .inl ⟨p, hp, .settled⟩
  | acting _ _ ok =>
    rcases (apply_ok ok).2.exists_before hq with
      ⟨p, hp, hbecomes, -⟩ | ⟨draft, hcheck, rfl⟩
    · exact .inl ⟨p, hp, hbecomes⟩
    · exact .inr ⟨_, _, draft, Draft.duration_ne_zero hcheck, rfl⟩

/-- **What a block opens** it leaves open or decided by votes, or it is over
already. -/
theorem applyBlock_hasOpened (hblock : l.applyBlock b = .ok l') :
    ∀ q ∈ l'.council.proposals, (∀ p ∈ l.council.proposals, p.id ≠ q.id) →
      HasOpened l b q := by
  refine applyBlock_stage_induction (P := fun k => ∀ q ∈ k.council.proposals,
    (∀ p ∈ l.council.proposals, p.id ≠ q.id) → HasOpened l b q) hblock ?_ ?_
  · exact fun q hq hnew => absurd rfl (hnew q hq)
  · intro m m' hstage ih q hq hnew
    rcases hstage.exists_before hq with
      ⟨p, hp, hbecomes⟩ | ⟨id, creator, draft, hduration, rfl⟩
    · exact (ih p hp fun r hr => hbecomes.id ▸ hnew r hr).becomes hstage hbecomes
    · exact .ofDraft l b hduration

/-- After a block nothing is open that is due. -/
theorem applyBlock_status_ne_running (hblock : l.applyBlock b = .ok l')
    (hq : q ∈ l'.council.proposals) (hdue : q.endsAt ≤ b.timestamp) :
    q.status ≠ .running := by
  obtain ⟨m, -, rfl⟩ := applyBlock_ok hblock
  obtain ⟨p, -, rfl⟩ := List.mem_map.mp hq
  exact Proposal.settledStatus_ne_running hdue

end Ledger

/-! ## Delegations -/

/-- A delegation that is over when it begins is never in force. -/
theorem Delegation.isActiveAt_of_endsAt_le {d : Delegation}
    (h : d.endsAt ≤ d.startsAt) (t : UInt64) : d.isActiveAt t = false := by
  rw [Bool.eq_false_iff]
  intro hactive
  obtain ⟨hstarted, hends, -⟩ := isActiveAt_iff.mp hactive
  exact UInt64.not_lt.mpr (UInt64.le_trans h hstarted) hends

theorem Delegation.isActiveAt_lent {delegator holder : String}
    {now duration : UInt64} {transaction : Digest} (hduration : duration ≠ 0)
    (hnow : now ≠ Amount.largest) :
    (lent delegator holder now duration transaction).isActiveAt now = true :=
  isActiveAt_iff.mpr ⟨UInt64.le_refl _, Amount.lt_addCapped hduration hnow, rfl⟩

namespace Delegations

/-- An account has a delegation, and it is over when it begins. -/
def VoidFor (ds : Delegations) (a : String) : Prop :=
  ∃ d, ds.get? a = some d ∧ d.endsAt ≤ d.startsAt

/-- At the largest time nothing better takes its place. -/
theorem Becomes.voidFor {ds ds' : Delegations} {t : Transaction} {a : String}
    (h : ds.Becomes Amount.largest t ds') (hvoid : ds.VoidFor a) :
    ds'.VoidFor a := by
  obtain ⟨d, hd, hends⟩ := hvoid
  by_cases hsender : t.sender = a
  · subst hsender
    cases h with
    | same => exact ⟨d, hd, hends⟩
    | lent =>
      refine ⟨_, SortedMap.get?_insert_self _ _ _, ?_⟩
      exact UInt64.le_of_eq (Amount.addCapped_largest _)
    | revoked held =>
      cases held.symm.trans hd
      exact ⟨_, SortedMap.get?_insert_self _ _ _, hends⟩
  · exact ⟨d, (h.get?_of_ne hsender).trans hd, hends⟩

end Delegations

namespace Ledger

variable {l l' : Ledger} {t : Transaction} {height now : UInt64} {b : Block}
    {holder : String}
  {duration : UInt64} {before rest : List Transaction}

/-- A transaction that lends power writes the delegation. -/
theorem Acted.lent (hact : Acted height now l t l')
    (haction : t.action = .delegate holder duration) :
    duration ≠ 0 ∧
      l'.council.delegations.get? t.sender =
        some (.lent t.sender holder now duration t.hash) := by
  cases hact with
  | delegate action _ _ ok =>
    cases haction.symm.trans action
    obtain ⟨-, -, -, hduration, -, -, -, -, -, rfl⟩ := Council.delegate_ok ok
    exact ⟨hduration, SortedMap.get?_insert_self _ _ _⟩
  | mint action | transfer action | propose action | vote action | payOut action
  | revoke action => cases haction.symm.trans action

/-- A delegation in force stays until its delegator takes it back: it cannot
lend again. -/
theorem Acted.keeps_delegation (hact : Acted height now l t l') {a : String}
    {d : Delegation} (hd : l.council.delegations.get? a = some d)
    (hactive : d.isActiveAt now = true)
    (hkept : t.sender = a → t.kind ≠ .revoke) :
    l'.council.delegations.get? a = some d := by
  by_cases hsender : t.sender = a
  · subst hsender
    cases hact with
    | mint | transfer => exact hd
    | propose _ _ _ ok =>
      obtain ⟨-, -, -, rfl⟩ := Council.propose_ok ok
      exact hd
    | vote _ _ _ _ ok =>
      obtain ⟨p, -, -, -, -, -, rfl⟩ := Council.vote_ok ok
      exact hd
    | payOut _ _ _ _ authorized =>
      obtain ⟨p, -, -, -, -, -, rfl⟩ := Council.authorizePayout_ok authorized
      exact hd
    | delegate _ _ _ ok =>
      obtain ⟨-, -, -, -, -, -, hfree, -⟩ := Council.delegate_ok ok
      have hlent :
          l.council.delegations.delegateOf? t.sender now = some d.delegate := by
        rw [Delegations.delegateOf?, Option.filter_eq_some_iff.mpr ⟨hd, hactive⟩]
        rfl
      cases hlent.symm.trans hfree
    | revoke action => exact absurd (congrArg Action.kind action) (hkept rfl)
  · exact (hact.delegations.get?_of_ne hsender).trans hd

/-- The steps of a block up to a transaction that lends power, and those behind
it. -/
theorem applyBlock_at_delegate (hblock : l.applyBlock b = .ok l')
    (hsplit : b.transactions = before ++ t :: rest)
    (haction : t.action = .delegate holder duration) :
    ∃ m m', duration ≠ 0 ∧
      m.council.delegations.get? t.sender =
        some (.lent t.sender holder b.timestamp duration t.hash) ∧
      rest.foldlM (apply b.height b.timestamp) m = .ok m' ∧
      l' = m'.settle b.timestamp := by
  obtain ⟨m', hm', hl'⟩ := applyBlock_ok hblock
  rw [hsplit, foldlM_append_eq_ok] at hm'
  obtain ⟨k, -, hrest⟩ := hm'
  obtain ⟨m, hm, hrest⟩ := foldlM_cons_eq_ok.mp hrest
  obtain ⟨hduration, hlent⟩ := (apply_ok hm).2.lent haction
  exact ⟨m, m', hduration, hlent, hrest, hl'⟩

/-- **Power that a block lends and does not take back is lent** when the block
is not of the largest time. -/
theorem applyBlock_lent (hblock : l.applyBlock b = .ok l')
    (htime : b.timestamp ≠ Amount.largest)
    (hsplit : b.transactions = before ++ t :: rest)
    (haction : t.action = .delegate holder duration)
    (hkept : ∀ u ∈ rest, u.sender = t.sender → u.kind ≠ .revoke) :
    duration ≠ 0 ∧
      l'.council.delegations.get? t.sender =
        some (.lent t.sender holder b.timestamp duration t.hash) := by
  obtain ⟨m, m', hduration, hlent, hrest, rfl⟩ :=
    applyBlock_at_delegate hblock hsplit haction
  have hstays : m'.council.delegations.get? t.sender =
      some (.lent t.sender holder b.timestamp duration t.hash) := by
    refine foldlM_induction (P := fun k : Ledger =>
      k.council.delegations.get? t.sender = _) hrest hlent ?_
    intro u hu k k' hk hstep
    exact (apply_ok hstep).2.keeps_delegation hk
      (Delegation.isActiveAt_lent hduration htime) (hkept u hu)
  exact ⟨hduration, hstays⟩

/-- Power that a block of the largest time lends is not lent at any time. -/
theorem applyBlock_voidFor (hblock : l.applyBlock b = .ok l')
    (htime : b.timestamp = Amount.largest) (ht : t ∈ b.transactions)
    (hkind : t.kind = .delegate) : l'.council.delegations.VoidFor t.sender := by
  obtain ⟨before, rest, hsplit⟩ := List.append_of_mem ht
  obtain ⟨holder, duration, haction⟩ : ∃ holder duration, t.action =
    .delegate holder duration := by
    rw [Transaction.kind] at hkind
    cases haction : t.action with
    | delegate holder duration => exact ⟨holder, duration, rfl⟩
    | mint | transfer | propose | vote | payOut | revoke =>
      rw [haction] at hkind
      cases hkind
  obtain ⟨m, m', -, hlent, hrest, rfl⟩ :=
    applyBlock_at_delegate hblock hsplit haction
  rw [htime] at hlent hrest
  have hvoid : m'.council.delegations.VoidFor t.sender := by
    refine foldlM_induction
      (P := fun k : Ledger => k.council.delegations.VoidFor t.sender) hrest
      ⟨_, hlent, UInt64.le_of_eq (Amount.addCapped_largest _)⟩ ?_
    exact fun u _ k k' hk hstep => (apply_ok hstep).2.delegations.voidFor hk
  exact hvoid

end Ledger

/-! ## The main statement -/

namespace Chain

variable {c : Chain} {b : Block} {after : Ledger}

/-- **Terms last while there is time.** Take a valid block of any time before
the largest. A proposal that it opens starts at that time and ends after it, as
much later as was asked for or at the largest time, and is open after the block
unless the votes on it were enough at one of its steps. Power that it lends, and
that the same account does not take back behind that, is lent from that time on
for as long as was asked for or up to the largest time. In a block of the
largest time itself, a proposal expires without a vote, and power that is lent
is not in force at any time. -/
theorem terms_last_while_there_is_time (h : c.validate b = .ok after) :
    (b.timestamp ≠ Amount.largest →
        (∀ q ∈ after.council.proposals,
            (∀ p ∈ c.council.proposals, p.id ≠ q.id) →
            q.createdAt = b.timestamp ∧ q.createdAt < q.endsAt ∧
              q.endsAt.toNat =
                min (q.createdAt.toNat + q.duration.toNat)
                  Amount.largest.toNat ∧
              (q.status = .running ∨
                q.votes ≠ .empty ∧ ∃ m m', Ledger.Stage b c.ledger m m' ∧
                  q.earlyOutcome (m.standing.electorateAt b.timestamp) =
                    some q.status)) ∧
          ∀ before t rest holder duration,
            b.transactions = before ++ t :: rest →
            t.action = .delegate holder duration →
            (∀ u ∈ rest, u.sender = t.sender → u.kind ≠ .revoke) →
            ∃ d, after.council.delegations.get? t.sender = some d ∧
              d.delegate = holder ∧ d.startsAt = b.timestamp ∧
              d.isActiveAt b.timestamp = true ∧ d.revokedAt = none ∧
              d.endsAt.toNat =
                min (d.startsAt.toNat + duration.toNat) Amount.largest.toNat) ∧
      (b.timestamp = Amount.largest →
        (∀ q ∈ after.council.proposals,
            (∀ p ∈ c.council.proposals, p.id ≠ q.id) →
            q.endsAt = q.createdAt ∧ q.votes = .empty ∧ q.status = .expired) ∧
          ∀ t ∈ b.transactions, t.kind = .delegate →
            ∃ d, after.council.delegations.get? t.sender = some d ∧
              ∀ time, d.isActiveAt time = false) := by
  have hblock := (validate_ok h).2.2.2
  have hopened := Ledger.applyBlock_hasOpened hblock
  refine ⟨fun htime => ⟨?_, ?_⟩, fun htime => ⟨?_, ?_⟩⟩
  · intro q hq hnew
    have hq' := hopened q hq hnew
    have hlater : b.timestamp < q.endsAt :=
      hq'.endsAt ▸ Amount.lt_addCapped hq'.duration htime
    refine ⟨hq'.createdAt, hq'.createdAt.symm ▸ hlater, ?_,
      (hq'.early hlater).imp_right ?_⟩
    · rw [hq'.endsAt, hq'.createdAt]
      exact Amount.toNat_addCapped _ _
    · rintro ⟨m, m', hstage, hdecided⟩
      refine ⟨fun hvotes => ?_, m, m', hstage, hdecided⟩
      rw [Proposal.earlyOutcome_of_no_votes hvotes] at hdecided
      cases hdecided
  · intro before t rest holder duration hsplit haction hkept
    obtain ⟨hduration, hlent⟩ :=
      Ledger.applyBlock_lent hblock htime hsplit haction hkept
    exact ⟨_, hlent, rfl, rfl, Delegation.isActiveAt_lent hduration htime, rfl,
      Amount.toNat_addCapped _ _⟩
  · intro q hq hnew
    have hq' := hopened q hq hnew
    have hends : q.endsAt = b.timestamp := by
      rw [hq'.endsAt, htime]
      exact Amount.addCapped_largest _
    have hdue := UInt64.le_of_eq hends
    obtain ⟨hvotes, hstatus⟩ := hq'.due hdue
    exact ⟨hends.trans hq'.createdAt.symm, hvotes,
      hstatus.resolve_left (Ledger.applyBlock_status_ne_running hblock hq hdue)⟩
  · intro t ht hkind
    obtain ⟨d, hd, hends⟩ := Ledger.applyBlock_voidFor hblock htime ht hkind
    exact ⟨d, hd, Delegation.isActiveAt_of_endsAt_le hends⟩

/-- A block of the time 100 in which a proposal is opened and power is lent,
both for sixty seconds. -/
theorem terms_last_while_there_is_time_sixty :
    ∃ (c : Chain) (b : Block) (after : Ledger), c.validate b = .ok after ∧
      b.timestamp ≠ Amount.largest ∧
      (∃ q ∈ after.council.proposals, q.createdAt = 100 ∧
        q.createdAt < q.endsAt ∧ q.endsAt.toNat = 160) ∧
      ∃ d, after.council.delegations.get? "ben" = some d ∧
        d.isActiveAt 100 = true ∧ d.endsAt.toNat = 160 := by
  obtain ⟨first, after, n, -, hvalid, -, hextended, hnone, q, hq, hsixty⟩ :=
    Node.exists_of_commit .twoHolders (fun c => .lentToProposer 100
      (c.tip.map (·.hash))) (fun _ => Block.isMade_lentToProposer 100 _)
      (fun first n => first.chain.council.proposals = [] ∧
        ∃ q ∈ n.chain.council.proposals, q.duration = 60) (by decide +kernel)
  have htime : (100 : UInt64) ≠ Amount.largest := by decide
  obtain ⟨hproposals, hdelegations⟩ :=
    (terms_last_while_there_is_time hvalid).1 htime
  rw [hextended] at hq
  obtain ⟨hcreated, hlater, hends, -⟩ := hproposals q hq (by rw [hnone]; nofun)
  obtain ⟨d, hd, -, hstarts, hactive, -, hlast⟩ :=
    hdelegations [] _ _ "ada" 60 rfl rfl
      (by simp [Transaction.kind, Transaction.benches,
      Transaction.ofAction, Action.kind])
  rw [hcreated, hsixty] at hends
  rw [hstarts] at hlast
  have hsum : min ((100 : UInt64).toNat + (60 : UInt64).toNat)
      Amount.largest.toNat = 160 := by decide
  exact ⟨first.chain, _, after, hvalid, htime, ⟨q, hq, hcreated, hlater,
    hends.trans hsum⟩, d, hd, hactive, hlast.trans hsum⟩

end Chain

/-- The same block of the largest time: the proposal for sixty seconds has
expired without a vote, and the power that is lent for sixty seconds is not in
force. -/
theorem Node.terms_over_as_they_begin :
    ∃ n b after, Reachable .twoHolders n ∧ n.chain.validate b = .ok after ∧
      (∃ q ∈ after.council.proposals,
        (∀ p ∈ n.chain.council.proposals, p.id ≠ q.id) ∧ q.duration = 60 ∧
        q.endsAt.toNat ≠ q.createdAt.toNat + q.duration.toNat ∧
        ¬ q.createdAt < q.endsAt ∧ q.status ≠ .running ∧ q.votes = .empty) ∧
      ∃ t ∈ b.transactions, t.action = .delegate "ada" 60 ∧
        (∀ u ∈ b.transactions, u.kind ≠ .revoke) ∧
        ∃ d, after.council.delegations.get? t.sender = some d ∧
          d.isActiveAt b.timestamp = false ∧
          d.endsAt.toNat ≠ d.startsAt.toNat + 60 := by
  let block (c : Chain) : Block :=
    .lentToProposer Amount.largest (c.tip.map (·.hash))
  obtain ⟨first, after, n, hfirst, hvalid, -, hextended, hopened, t, ht,
    haction, hkept, hlent⟩ :=
    exists_of_commit .twoHolders block (fun _ => Block.isMade_lentToProposer
      _ _) (fun first n => (∃ q ∈ n.chain.council.proposals,
          (∀ p ∈ first.chain.council.proposals, p.id ≠ q.id) ∧ q.duration = 60 ∧
          q.endsAt.toNat ≠ q.createdAt.toNat + q.duration.toNat ∧
          ¬ q.createdAt < q.endsAt ∧ q.status ≠ .running ∧ q.votes = .empty) ∧
        ∃ t ∈ (block first.chain).transactions, t.action = .delegate "ada" 60 ∧
          (∀ u ∈ (block first.chain).transactions, u.kind ≠ .revoke) ∧
          (n.chain.council.delegations.get? t.sender).any fun d =>
            !d.isActiveAt Amount.largest && d.endsAt.toNat ≠
              d.startsAt.toNat + 60)
      (by decide +kernel)
  rw [hextended] at hopened hlent
  obtain ⟨d, hd, hvoid⟩ := (Option.any_eq_true _ _).mp hlent
  rw [Bool.and_eq_true, Bool.not_eq_true', decide_eq_true_eq] at hvoid
  exact ⟨first, _, after, hfirst, hvalid, hopened, t, ht, haction, hkept, d, hd,
    hvoid.1, hvoid.2⟩

end CouncilLedger
