import CouncilLedger.Council
import CouncilLedger.Proofs.Outcome
import CouncilLedger.Proofs.SortedMap

/-!
# What the council accepts

For each operation of the council, all that follows from its success: the checks
that were passed, and the state that it leads to. And the other way round, that
these checks suffice. Later proofs read the operations off these statements and
never open them again.
-/

namespace CouncilLedger

open Outcome

/-! ## Proposals in their list -/

theorem mem_replaceFirst {α : Type} {p : α → Bool} {new a : α} {l : List α}
    (h : a ∈ replaceFirst p new l) : a = new ∨ a ∈ l := by
  induction l with
  | nil => cases h
  | cons b rest ih =>
    unfold replaceFirst at h
    split at h
    · exact (List.mem_cons.mp h).imp_right (List.mem_cons_of_mem _)
    · rcases List.mem_cons.mp h with rfl | h
      · exact .inr List.mem_cons_self
      · exact (ih h).imp_right (List.mem_cons_of_mem _)

/-- The replaced member is the one that a search finds. -/
theorem replaceFirst_of_find? {α : Type} {p : α → Bool} {a : α} (new : α)
    {l : List α} (h : l.find? p = some a) :
    ∃ before after, l = before ++ a :: after ∧ (∀ b ∈ before, p b = false) ∧
      replaceFirst p new l = before ++ new :: after := by
  induction l with
  | nil => cases h
  | cons b rest ih =>
    cases hb : p b with
    | true =>
      rw [List.find?_cons_of_pos hb] at h
      cases h
      exact ⟨[], rest, rfl, by simp, by simp [replaceFirst, hb]⟩
    | false =>
      rw [List.find?_cons_of_neg (by simp [hb])] at h
      obtain ⟨before, after, hl, hbefore, hnew⟩ := ih h
      refine ⟨b :: before, after,
        by rw [hl]; rfl, ?_, by simp [replaceFirst, hb, hnew]⟩
      simpa [hb] using hbefore

/-! ## Votes -/

namespace Proposal

/-- The proposal with one vote more, and with the outcome that is then
certain. -/
def withVote (p : Proposal) (v : Vote) (e : Electorate) : Proposal :=
  let voted := { p with votes := p.votes.insert v.voter v }
  { voted with status := (voted.earlyOutcome e).getD p.status }

theorem addVote_ok {p voted : Proposal} {v : Vote} {now : UInt64}
    {electorate : UInt64 → Electorate} {rules : Rules}
    (h : p.addVote v now electorate rules = .ok voted) :
    p.statusAt now electorate rules = .running ∧
      p.votes.contains v.voter = false ∧
      voted = p.withVote v (electorate now) := by
  simp only [addVote, guard_eq_ok, Except.ok.injEq] at h
  obtain ⟨hrunning, hnew, rfl⟩ := h
  exact ⟨by simpa using hrunning, by simpa using hnew, rfl⟩

end Proposal

/-- A delegation for some seconds from `now` on. -/
def Delegation.lent (delegator delegate : String) (now duration : UInt64)
    (transaction : Digest) : Delegation :=
  ⟨delegator, delegate, now, Amount.addCapped now duration, none, transaction⟩

namespace Council

variable {c c' : Council}

theorem proposal_eq_ok {id : String} {p : Proposal} :
    c.proposal id = .ok p ↔ c.proposal? id = some p := by
  unfold proposal
  cases c.proposal? id <;> simp

theorem mem_of_proposal? {id : String} {p : Proposal}
    (h : c.proposal? id = some p) : p ∈ c.proposals :=
  List.mem_of_find?_eq_some h

theorem id_of_proposal? {id : String} {p : Proposal}
    (h : c.proposal? id = some p) : p.id = id := by
  simpa using List.find?_some h

/-- The list of proposals with another state of one of them. -/
theorem setProposal_of_proposal? {id : String} {p p' : Proposal}
    (h : c.proposal? id = some p) (hid : p'.id = p.id) :
    ∃ before after, c.proposals = before ++ p :: after ∧
      (c.setProposal p').proposals = before ++ p' :: after := by
  rw [proposal?, ← id_of_proposal? h, ← hid] at h
  obtain ⟨before, after, hl, -, hnew⟩ := replaceFirst_of_find? p' h
  exact ⟨before, after, hl, hnew⟩

theorem proposal?_setProposal {id : String} {p q : Proposal}
    (hc : c.proposal? id = some p) (hid : q.id = p.id) :
    (c.setProposal q).proposal? id = some q := by
  have hname := id_of_proposal? hc
  rw [proposal?, ← hname, ← hid] at hc
  obtain ⟨before, after, -, hbefore, hnew⟩ := replaceFirst_of_find? q hc
  have hskip : before.find? (·.id == q.id) = none :=
    List.find?_eq_none.mpr fun a ha => by simp [hbefore a ha]
  rw [proposal?, setProposal, hnew, List.find?_append, ← hname, ← hid, hskip]
  simp

/-! ## Operations -/

theorem propose_ok {id creator : String} {draft : Draft}
    {balance : Amount} {now height : UInt64}
    (h : c.propose id creator draft balance now height = .ok c') :
    draft.check c.rules = .ok () ∧
    c.rules.minProposalBalance ≤ balance ∧ c.proposal? id = none ∧
      c' = { c with
        proposals := c.proposals ++ [.ofDraft id creator draft now height] } := by
  unfold propose at h
  split at h
  · cases h
  · next hcheck =>
    simp only [guard_eq_ok, UInt64.not_lt, Except.ok.injEq] at h
    obtain ⟨hbalance, hnew, rfl⟩ := h
    exact ⟨hcheck, hbalance, by simpa using hnew, rfl⟩

/-- A vote is taken on a running proposal, with some weight, from an account
that has not lent its power and whose power was not used on the proposal yet. -/
theorem vote_ok {id voter : String} {choice : Choice} {backing : Backing}
    {now : UInt64} {electorate : UInt64 → Electorate} {transaction : Digest}
    (h : c.vote id voter choice backing now electorate transaction = .ok c') :
    ∃ p, c.proposal? id = some p ∧ c.delegations.delegateOf? voter now = none ∧
      p.powerUsedBy voter = false ∧ p.mode.weight backing.balance ≠ 0 ∧
      p.statusAt now electorate c.rules = .running ∧
      c' =
        c.setProposal (p.withVote ⟨voter, choice, p.mode.weight backing.balance,
                                   now, transaction, backing.delegators⟩
          (electorate now)) := by
  unfold vote at h
  split at h
  · cases h
  · next hlent =>
    simp only [bind_eq_ok, throw_bind, guard_eq_ok, pure_eq_ok] at h
    obtain ⟨p, hp, hunused, hweight, voted, hvoted, rfl⟩ := h
    obtain ⟨hrunning, hnew, rfl⟩ := Proposal.addVote_ok hvoted
    refine ⟨p, proposal_eq_ok.mp hp, ?_, ?_, hweight, hrunning, rfl⟩
    · exact Option.eq_none_iff_forall_ne_some.mpr hlent
    · simpa [hnew] using hunused

/-- A payout is authorized for a passed and unpaid treasury proposal that asks
for it. -/
theorem authorizePayout_ok {id recipient : String} {amount : Amount}
    {now : UInt64} {electorate : UInt64 → Electorate} {transaction : Digest}
    (h : c.authorizePayout id recipient amount now electorate transaction =
      .ok c') :
    ∃ p, c.proposal? id = some p ∧ p.kind = .treasury ∧
      p.statusAt now electorate c.rules = .passed ∧ p.fundedBy = none ∧
      p.funding = some ⟨recipient, amount⟩ ∧
      c' =
        c.setProposal
          { p with status := .passed, fundedBy := some transaction } := by
  simp only [authorizePayout, bind_eq_ok, throw_bind, guard_eq_ok] at h
  obtain ⟨p, hp, hkind, hpassed, h⟩ := h
  split at h
  · cases h
  · next hunpaid =>
    split at h
    · cases h
    · next f hfunding =>
      simp only [guard_eq_ok, pure_eq_ok, not_or, ne_eq, not_not]
        at h hkind hpassed
      obtain ⟨⟨hrecipient, hamount⟩, rfl⟩ := h
      refine ⟨p, proposal_eq_ok.mp hp, hkind, hpassed, ?_, ?_, ?_⟩
      · exact Option.eq_none_iff_forall_ne_some.mpr hunpaid
      · rw [hfunding, ← hrecipient, ← hamount]
      · rw [hpassed]

/-- Power is lent to another known account, for a time, by one that holds tokens
and no lent power, to one that has not lent its own. -/
theorem delegate_ok {delegator delegate : String} {duration : UInt64}
    {balance : Amount} {known : Bool} {now : UInt64} {transaction : Digest}
    (h : c.delegate delegator delegate duration balance known now transaction =
      .ok c') : delegator ≠ delegate ∧ Address.isReserved delegate = false ∧
    known = true ∧ duration ≠ 0 ∧
      duration ≤ Delegation.maxDuration ∧ balance ≠ 0 ∧
      c.delegations.delegateOf? delegator now = none ∧
      c.delegations.toDelegate delegator now = [] ∧
      c.delegations.delegateOf? delegate now = none ∧
      c' = { c with
        delegations := c.delegations.insert delegator
          (.lent delegator delegate now duration transaction) } := by
  simp only [Council.delegate, throw_bind, guard_eq_ok] at h
  obtain ⟨hself, hreserved, hknown, hduration, hbalance, h⟩ := h
  split at h
  · cases h
  · next hlent =>
    rw [guard_eq_ok] at h
    obtain ⟨hholds, h⟩ := h
    split at h
    · cases h
    · next honward =>
      cases pure_eq_ok.mp h
      simp only [not_or, UInt64.not_lt] at hduration
      refine ⟨hself,
        by simpa using hreserved, by simpa using hknown, hduration.1, hduration.2,
        hbalance, ?_, by simpa using hholds, ?_, rfl⟩
      · exact Option.eq_none_iff_forall_ne_some.mpr hlent
      · exact Option.eq_none_iff_forall_ne_some.mpr honward

/-- A delegation that is in force is ended. -/
theorem revoke_ok {delegator : String}
    {now : UInt64} (h : c.revoke delegator now = .ok c') :
    ∃ d, c.delegations.get? delegator = some d ∧ d.isActiveAt now = true ∧
      c' = { c with
        delegations := c.delegations.insert delegator
          { d with revokedAt := some now } } := by
  unfold revoke at h
  split at h
  · cases h
  · next d hd =>
    cases h
    obtain ⟨hget, hactive⟩ := Option.filter_eq_some_iff.mp hd
    exact ⟨d, hget, hactive, rfl⟩

/-! ## What suffices for an operation -/

variable {id : String} {p : Proposal} {now : UInt64} {e : UInt64 → Electorate}
    {transaction : Digest}

theorem vote_of {voter : String} {choice : Choice} {backing : Backing}
    (hp : c.proposal? id = some p)
    (hlent : c.delegations.delegateOf? voter now = none)
    (hunused : p.powerUsedBy voter = false)
    (hweight : p.mode.weight backing.balance ≠ 0)
    (hrunning : p.statusAt now e c.rules = .running) :
    c.vote id voter choice backing now e transaction =
      .ok (c.setProposal (p.withVote ⟨voter, choice,
                                      p.mode.weight backing.balance, now,
                                      transaction, backing.delegators⟩
        (e now))) := by
  have hnew : p.votes.contains voter = false := by
    simp only [Proposal.powerUsedBy, Bool.or_eq_false_iff] at hunused
    exact hunused.1
  have hvoted : ∀ v : Vote, v.voter = voter →
      p.addVote v now e c.rules = .ok (p.withVote v (e now)) := by
    rintro v rfl
    simp [Proposal.addVote, hrunning, hnew, Proposal.withVote]
  simp [vote, hlent, proposal_eq_ok.mpr hp, hunused, hweight, hvoted, pure,
    Except.pure, bind, Except.bind]

theorem authorizePayout_of {recipient : String} {amount : Amount}
    (hp : c.proposal? id = some p) (hkind : p.kind = .treasury)
    (hpassed : p.statusAt now e c.rules = .passed) (hunpaid : p.fundedBy = none)
    (hfunding : p.funding = some ⟨recipient, amount⟩) :
    c.authorizePayout id recipient amount now e transaction =
      .ok (c.setProposal
        { p with status := .passed, fundedBy := some transaction }) := by
  simp [authorizePayout, proposal_eq_ok.mpr hp, hkind, hpassed, hunpaid,
    hfunding, pure, Except.pure, bind, Except.bind]

theorem delegate_of {delegator holder : String} {duration : UInt64}
    {balance : Amount} (hself : delegator ≠ holder)
    (hreserved : Address.isReserved holder = false) (hzero : duration ≠ 0)
    (hmax : duration ≤ Delegation.maxDuration) (hbalance : balance ≠ 0)
    (hlent : c.delegations.delegateOf? delegator now = none)
    (hholds : c.delegations.toDelegate delegator now = [])
    (honward : c.delegations.delegateOf? holder now = none) :
    c.delegate delegator holder duration balance true now transaction =
      .ok { c with
        delegations := c.delegations.insert delegator
          (.lent delegator holder now duration transaction) } := by
  simp [Council.delegate, hself, hreserved, hzero, UInt64.not_lt.mpr hmax,
    hbalance, hlent, hholds, honward, pure, Except.pure, Delegation.lent]

theorem revoke_of {delegator : String} {lent : Delegation}
    (hget : c.delegations.get? delegator = some lent)
    (hactive : lent.isActiveAt now = true) :
    c.revoke delegator now = .ok { c with
      delegations := c.delegations.insert delegator
        { lent with revokedAt := some now } } := by
  rw [revoke, Option.filter_eq_some_iff.mpr ⟨hget, hactive⟩]

end Council
end CouncilLedger
