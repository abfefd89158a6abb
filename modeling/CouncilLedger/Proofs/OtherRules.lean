import CouncilLedger.Proofs.Proposals
import CouncilLedger.Proofs.Recovery

/-!
# The same blocks under other rules

The rules of governance are read in three places: when a proposal is opened,
when one is closed at its deadline, and when one that was closed there is paid
out. So two ledgers under different rules that take the same blocks have the
same accounts and delegations and the same proposals, open at the same times,
and differ only in how proposals were closed. A block that one of them takes and
the other refuses holds a transaction that the rules of the other exclude. The
main statements are `Ledger.Parallels.apply` and `Chain.Parallels.replay`.
-/

namespace CouncilLedger

open Outcome

/-- Rules under which a transaction may be refused that others let pass: a
proposal for a longer time or of a poorer creator, or a payout while the quorum
is higher. -/
def Ledger.Excluded (rules : Rules) (l : Ledger) (t : Transaction) : Prop :=
  match t.action with
  | .propose draft =>
    rules.maxDuration < draft.duration ∨ l.accounts.balance t.sender <
      rules.minProposalBalance
  | .payOut _ _ _ => l.council.rules.quorumPercent < rules.quorumPercent
  | _ => False

/-- Rules that let pass whatever others do. -/
structure Rules.Admits (rules others : Rules) : Prop where
  balance : rules.minProposalBalance ≤ others.minProposalBalance
  duration : others.maxDuration ≤ rules.maxDuration
  quorum : rules.quorumPercent ≤ others.quorumPercent

theorem Draft.check_ok_iff {d : Draft} {rules : Rules} :
    d.check rules = .ok () ↔
      d.check { rules with maxDuration := d.duration } = .ok () ∧
        d.duration ≤ rules.maxDuration := by
  simp only [check, guard_eq_ok, UInt64.not_lt, UInt64.le_refl, true_and]
  tauto

/-! ## Lists that run in parallel -/

section

variable {α β : Type} {R : α → β → Prop} {f : α → Bool} {g : β → Bool}
    {l : List α} {k : List β}

theorem find?_of_forall₂ (h : List.Forall₂ R l k)
    (hfg : ∀ a b, R a b → g b = f a) :
    (l.find? f = none → k.find? g = none) ∧ ∀ a, l.find? f = some a →
      ∃ b, k.find? g = some b ∧ R a b := by
  induction h with
  | nil => exact ⟨fun _ => rfl, nofun⟩
  | @cons a b _ _ hab _ ih =>
    rw [List.find?_cons, List.find?_cons, hfg a b hab]
    cases f a with
    | true =>
      refine ⟨nofun, ?_⟩
      rintro _ ⟨⟩
      exact ⟨b, rfl, hab⟩
    | false => exact ih

theorem replaceFirst_of_forall₂ {new : α} {new' : β} (h : List.Forall₂ R l k)
    (hnew : R new new') (hfg : ∀ a b, R a b → g b = f a) :
    List.Forall₂ R (replaceFirst f new l) (replaceFirst g new' k) := by
  induction h with
  | nil => exact .nil
  | @cons a b _ _ hab hrest ih =>
    rw [replaceFirst, replaceFirst, hfg a b hab]
    split
    · exact .cons hnew hrest
    · exact .cons hab ih

end

/-! ## Proposals -/

namespace Proposal

variable {p q : Proposal} {rules others : Rules} {now : UInt64}
    {e : UInt64 → Electorate}

/-- The same proposal, open in both or closed in both. Where `lenient` holds it
has passed in the second if it has in the first. -/
structure Parallels (lenient : Prop) (p q : Proposal) : Prop where
  same : { p with status := q.status } = q
  running : p.status = .running ↔ q.status = .running
  passed : lenient → p.status = .passed → q.status = .passed

/-- No proposal expires by a lower quorum that has not by a higher one. -/
theorem finalOutcome_passed_of_le {power : Amount}
    (hle : others.quorumPercent ≤ rules.quorumPercent)
    (h : p.finalOutcome power rules = .passed) :
    p.finalOutcome power others = .passed := by
  simp only [finalOutcome] at h ⊢
  split at h
  · cases h
  · next hturnout =>
    split at h
    · next hmet =>
      have hquorum :=
        Nat.mul_le_mul_right power.toNat (UInt8.le_iff_toNat_le.mp hle)
      rw [if_neg fun hlow => hturnout (hlow.imp_right fun hlow =>
        Nat.lt_of_lt_of_le hlow hquorum), if_pos hmet]
    · cases h

namespace Parallels

variable {lenient : Prop}

theorem refl (p : Proposal) : Parallels lenient p p :=
  ⟨rfl, Iff.rfl, fun _ hp => hp⟩

theorem id_eq (h : Parallels lenient p q) : q.id = p.id := by
  rw [← h.same]

/-- What is open in one is open in both, and then the two are equal. -/
theorem eq_of_running (h : Parallels lenient p q) (hp : p.status = .running) :
    q = p := by
  rw [← h.same, h.running.mp hp, ← hp]

theorem settled (h : Parallels lenient p q)
    (hle : lenient → others.quorumPercent ≤ rules.quorumPercent) :
    Parallels lenient { p with status := p.settledStatus now e rules }
      { q with status := q.settledStatus now e others } := by
  by_cases hp : p.status = .running
  · obtain rfl := h.eq_of_running hp
    refine ⟨rfl, ?_, ?_⟩
    · by_cases hdue : q.endsAt ≤ now
      · simp [settledStatus_of_due hp hdue, finalOutcome_ne_running]
      · simp [settledStatus_of_early hp (UInt64.not_le.mp hdue)]
    · intro hlenient
      by_cases hdue : q.endsAt ≤ now
      · simpa [settledStatus_of_due hp hdue]
          using finalOutcome_passed_of_le (hle hlenient)
      · simp [settledStatus_of_early hp (UInt64.not_le.mp hdue)]
  · have hq : q.status ≠ .running := fun hq => hp (h.running.mpr hq)
    rw [settledStatus_of_closed hp, settledStatus_of_closed hq]
    exact h

theorem statusAt_passed (h : Parallels lenient p q) (hlenient : lenient)
    (hle : others.quorumPercent ≤ rules.quorumPercent)
    (hp : p.statusAt now e rules = .passed) :
    q.statusAt now e others = .passed := by
  by_cases hrunning : p.status = .running
  · obtain rfl := h.eq_of_running hrunning
    have hdue : q.endsAt ≤ now := by
      refine UInt64.not_lt.mp fun hearly => ?_
      rw [statusAt_eq_running_iff.mpr ⟨hrunning, hearly⟩] at hp
      cases hp
    rw [statusAt_of_due hrunning hdue] at hp ⊢
    exact finalOutcome_passed_of_le hle hp
  · have hq : q.status ≠ .running := fun hq => hrunning (h.running.mpr hq)
    rw [statusAt_of_closed hrunning] at hp
    rw [statusAt_of_closed hq]
    exact h.passed hlenient hp

end Parallels

end Proposal

/-! ## Councils -/

namespace Council

variable {c c' d : Council} {id : String} {p q : Proposal} {now : UInt64}
variable {e : UInt64 → Electorate} {transaction : Digest}

/-- Councils with the same delegations and proposals that run in parallel. -/
structure Parallels (c d : Council) : Prop where
  delegations : d.delegations = c.delegations
  proposals : List.Forall₂ (Proposal.Parallels
    (d.rules.quorumPercent ≤ c.rules.quorumPercent)) c.proposals d.proposals

namespace Parallels

theorem withRules (c : Council) (rules : Rules) :
    c.Parallels { c with rules } :=
  ⟨rfl, List.forall₂_same.mpr fun p _ => .refl p⟩

theorem proposal?_eq_none (h : c.Parallels d) (hc : c.proposal? id = none) :
    d.proposal? id = none :=
  (find?_of_forall₂ h.proposals fun p q hpq => by rw [hpq.id_eq]).1 hc

theorem exists_proposal? (h : c.Parallels d) (hc : c.proposal? id = some p) :
    ∃ q, d.proposal? id = some q ∧
      Proposal.Parallels (d.rules.quorumPercent ≤ c.rules.quorumPercent) p q :=
  (find?_of_forall₂ h.proposals fun p q hpq => by rw [hpq.id_eq]).2 p hc

/-- An open proposal is the same in both. -/
theorem proposal?_of_running (h : c.Parallels d) (hc : c.proposal? id = some p)
    (hp : p.status = .running) : d.proposal? id = some p := by
  obtain ⟨q, hq, hpq⟩ := h.exists_proposal? hc
  rw [hq, hpq.eq_of_running hp]

theorem setProposal (h : c.Parallels d)
    (hpq : Proposal.Parallels (d.rules.quorumPercent ≤ c.rules.quorumPercent) p
      q) : (c.setProposal p).Parallels (d.setProposal q) := by
  refine ⟨h.delegations, ?_⟩
  show List.Forall₂ _ (replaceFirst (·.id == p.id) p c.proposals)
    (replaceFirst (·.id == q.id) q d.proposals)
  rw [hpq.id_eq]
  exact replaceFirst_of_forall₂ h.proposals hpq fun a b hab => by rw [hab.id_eq]

theorem settle (h : c.Parallels d) (now : UInt64) (e : UInt64 → Electorate) :
    (c.settle now e).Parallels (d.settle now e) := by
  refine ⟨h.delegations, ?_⟩
  show List.Forall₂ _ (c.proposals.map _) (d.proposals.map _)
  rw [List.forall₂_map_left_iff, List.forall₂_map_right_iff]
  exact h.proposals.imp fun _ _ hpq => hpq.settled fun hle => hle

/-! ### Operations -/

variable {balance : Amount}

/-- A proposal is opened in the second council too, unless the rules there are
against it. -/
theorem propose (h : c.Parallels d) {creator : String} {draft : Draft}
    {height : UInt64}
    (hok : c.propose id creator draft balance now height = .ok c')
    (hduration : draft.duration ≤ d.rules.maxDuration)
    (hbalance : d.rules.minProposalBalance ≤ balance) :
    ∃ d', d.propose id creator draft balance now height = .ok d' ∧
      c'.Parallels d' := by
  obtain ⟨hcheck, -, hnew, rfl⟩ := propose_ok hok
  have hadmitted : draft.check d.rules = .ok () :=
    Draft.check_ok_iff.mpr ⟨(Draft.check_ok_iff.mp hcheck).1, hduration⟩
  refine ⟨{ d with
    proposals := d.proposals ++ [.ofDraft id creator draft now height] }, ?_, ?_⟩
  · simp [Council.propose, hadmitted, UInt64.not_lt.mpr hbalance,
      h.proposal?_eq_none hnew]
  · exact ⟨h.delegations, List.rel_append h.proposals (.cons (.refl _) .nil)⟩

/-- A vote is taken in both, since what it is taken on is open. -/
theorem vote (h : c.Parallels d) {voter : String} {choice : Choice}
    {backing : Backing}
    (hok : c.vote id voter choice backing now e transaction = .ok c') :
    ∃ d', d.vote id voter choice backing now e transaction = .ok d' ∧
      c'.Parallels d' := by
  obtain ⟨p, hp, hlent, hunused, hweight, hrunning, rfl⟩ := vote_ok hok
  obtain ⟨hopen, hearly⟩ := Proposal.statusAt_eq_running_iff.mp hrunning
  have hrunning' : p.statusAt now e d.rules = .running :=
    Proposal.statusAt_eq_running_iff.mpr ⟨hopen, hearly⟩
  rw [← h.delegations] at hlent
  exact ⟨_, vote_of (h.proposal?_of_running hp hopen) hlent hunused hweight
    hrunning', h.setProposal (.refl _)⟩

/-- A payout is authorized in both where the proposal has passed in both. -/
theorem authorizePayout (h : c.Parallels d) {recipient : String}
    {amount : Amount}
    (hok : c.authorizePayout id recipient amount now e transaction = .ok c')
    (hpassed : ∀ q, d.proposal? id = some q →
      q.statusAt now e d.rules = .passed) :
    ∃ d', d.authorizePayout id recipient amount now e transaction = .ok d' ∧
      c'.Parallels d' ∧ d'.proposal? id = c'.proposal? id := by
  obtain ⟨p, hp, hkind, -, hunpaid, hfunding, rfl⟩ := authorizePayout_ok hok
  obtain ⟨q, hq, hpq⟩ := h.exists_proposal? hp
  rw [← hpq.same] at hq
  let paid : Proposal :=
    { p with status := .passed, fundedBy := some transaction }
  have hfound : (c.setProposal paid).proposal? id = some paid :=
    proposal?_setProposal hp rfl
  have hfound' : (d.setProposal paid).proposal? id = some paid :=
    proposal?_setProposal hq rfl
  refine ⟨d.setProposal paid, ?_, h.setProposal (.refl _),
    hfound'.trans hfound.symm⟩
  rw [authorizePayout_of hq hkind (hpassed _ hq) hunpaid hfunding]

theorem delegate (h : c.Parallels d) {delegator holder : String}
    {duration : UInt64} {known : Bool}
    (hok : c.delegate delegator holder duration balance known now transaction =
      .ok c') :
    ∃ d',
      d.delegate delegator holder duration balance known now transaction =
        .ok d' ∧ c'.Parallels d' := by
  obtain ⟨hself, hreserved, rfl, hzero, hmax, hbalance, hlent, hholds,
    honward, rfl⟩ :=
    delegate_ok hok
  rw [← h.delegations] at hlent hholds honward ⊢
  exact ⟨_, delegate_of hself hreserved hzero hmax hbalance hlent hholds
    honward, rfl, h.proposals⟩

theorem revoke (h : c.Parallels d) {delegator : String}
    (hok : c.revoke delegator now = .ok c') :
    ∃ d', d.revoke delegator now = .ok d' ∧ c'.Parallels d' := by
  obtain ⟨lent, hget, hactive, rfl⟩ := revoke_ok hok
  rw [← h.delegations] at hget ⊢
  exact ⟨_, revoke_of hget hactive, rfl, h.proposals⟩

end Parallels

end Council

/-! ## Ledgers -/

namespace Ledger

variable {l l' k : Ledger} {height now : UInt64} {t : Transaction} {b : Block}

/-- Ledgers with the same accounts and councils that run in parallel. -/
structure Parallels (l k : Ledger) : Prop where
  accounts : k.accounts = l.accounts
  council : l.council.Parallels k.council

namespace Parallels

theorem standing (h : l.Parallels k) : k.standing = l.standing := by
  rw [Ledger.standing, Ledger.standing, h.accounts, h.council.delegations]

theorem settle (h : l.Parallels k) (now : UInt64) :
    (l.settle now).Parallels (k.settle now) := by
  refine ⟨h.accounts, ?_⟩
  show (l.council.settle now l.standing.electorateAt).Parallels
    (k.council.settle now k.standing.electorateAt)
  rw [h.standing]
  exact h.council.settle _ _

/-- **One transaction**: what acts on one ledger acts on the other too, and they
still run in parallel, or the rules of the other exclude it and it does not act
there. -/
theorem acted (h : l.Parallels k) (hacted : Acted height now l t l') :
    (∃ k', Acted height now k t k' ∧ l'.Parallels k') ∨
      (∀ k', ¬ Acted height now k t k') ∧ Excluded k.council.rules l t := by
  cases hacted with
  | mint action first sender address ok =>
    exact .inl ⟨_, .mint action first sender address (h.accounts ▸ ok),
      rfl, h.council⟩
  | transfer action may sender address ok =>
    exact .inl ⟨_, .transfer action may sender address (h.accounts ▸ ok),
      rfl, h.council⟩
  | @propose draft _ action may sender ok =>
    by_cases hadmits : draft.duration ≤ k.council.rules.maxDuration ∧
        k.council.rules.minProposalBalance ≤ l.accounts.balance t.sender
    · obtain ⟨council, hok, hcouncil⟩ :=
        h.council.propose ok hadmits.1 hadmits.2
      exact .inl ⟨{ k with council }, .propose action may sender
        (h.accounts ▸ hok), h.accounts, hcouncil⟩
    · refine .inr ⟨fun k' hk' => ?_, ?_⟩
      · cases hk' with
        | propose action' _ _ ok' =>
          cases action.symm.trans action'
          obtain ⟨hcheck, hbalance, -, -⟩ := Council.propose_ok ok'
          exact hadmits ⟨(Draft.check_ok_iff.mp hcheck).2, h.accounts ▸ hbalance⟩
        | mint action' | transfer action' | vote action' | payOut action'
        | delegate action' | revoke action' => cases action.symm.trans action'
      · rw [Excluded, action]
        rw [not_and_or, UInt64.not_le, UInt64.not_le] at hadmits
        exact hadmits
  | vote action may names found ok =>
    obtain ⟨p, hp, -, -, -, hrunning, -⟩ := Council.vote_ok ok
    cases found.symm.trans hp
    have hopen := (Proposal.statusAt_eq_running_iff.mp hrunning).1
    have hfound := h.council.proposal?_of_running hp hopen
    rw [← h.standing] at ok
    obtain ⟨council, hok, hcouncil⟩ := h.council.vote ok
    exact .inl ⟨{ k with council }, .vote action may names hfound hok,
      h.accounts, hcouncil⟩
  | @payOut _ id _ _ _ _ _ action may names address authorized found ok =>
    by_cases hpassed : ∀ q, k.council.proposal? id = some q →
        q.statusAt now k.standing.electorateAt k.council.rules = .passed
    · rw [← h.standing] at authorized
      obtain ⟨council, hok, hcouncil, hsame⟩ :=
        h.council.authorizePayout authorized hpassed
      exact .inl ⟨_, .payOut action may names address hok (hsame.trans found)
        (h.accounts ▸ ok), rfl, hcouncil⟩
    · refine .inr ⟨fun k' hk' => ?_, ?_⟩
      · cases hk' with
        | payOut action' _ names' _ authorized' =>
          cases action.symm.trans action'
          cases names.symm.trans names'
          obtain ⟨q, hq, -, hstatus, -, -, -⟩ :=
            Council.authorizePayout_ok authorized'
          refine hpassed fun q' hq' => ?_
          cases hq.symm.trans hq'
          exact hstatus
        | mint action' | transfer action' | propose action' | vote action'
        | delegate action' | revoke action' => cases action.symm.trans action'
      · rw [Excluded, action]
        refine UInt8.not_le.mp fun hle => hpassed fun q hq => ?_
        obtain ⟨p, hp, -, hstatus, -, -, -⟩ :=
          Council.authorizePayout_ok authorized
        obtain ⟨q', hq', hpq⟩ := h.council.exists_proposal? hp
        cases hq.symm.trans hq'
        rw [h.standing]
        exact hpq.statusAt_passed hle hle hstatus
  | delegate action may address ok =>
    obtain ⟨council, hok, hcouncil⟩ := h.council.delegate ok
    rw [← h.accounts] at hok
    exact .inl ⟨{ k with council }, .delegate action may address hok,
      h.accounts, hcouncil⟩
  | revoke action may ok =>
    obtain ⟨council, hok, hcouncil⟩ := h.council.revoke ok
    exact .inl ⟨{ k with council }, .revoke action may hok, h.accounts, hcouncil⟩

theorem apply (h : l.Parallels k) (hok : Ledger.apply height now l t = .ok l') :
    (∃ k', Ledger.apply height now k t = .ok k' ∧ l'.Parallels k') ∨
      (∃ r, Ledger.apply height now k t = .error r) ∧
        Excluded k.council.rules l t := by
  obtain ⟨hnonce, hacted⟩ := apply_ok hok
  have husing :
      (l.withNonceUsed t.sender).Parallels (k.withNonceUsed t.sender) :=
    ⟨by simp only [withNonceUsed, h.accounts], h.council⟩
  have happly :
      Ledger.apply height now k t =
        (k.withNonceUsed t.sender).act t height now := by
    simp [Ledger.apply, Accounts.useNonce, h.accounts, hnonce, withNonceUsed,
      bind, Except.bind]
  rw [happly]
  rcases husing.acted hacted with ⟨k', hk', hparallel⟩ | ⟨hnot, hexcluded⟩
  · exact .inl ⟨k', act_of_acted hk', hparallel⟩
  · refine .inr ⟨?_, ?_⟩
    · cases hk' : (k.withNonceUsed t.sender).act t height now with
      | ok k' => exact absurd (acted_of_act hk') (hnot k')
      | error r => exact ⟨r, rfl⟩
    · -- the use of a nonce changes neither balances nor rules
      unfold Excluded at hexcluded ⊢
      exact hexcluded

end Parallels

/-! ### Blocks -/

/-- A block holds a transaction that the rules exclude, when the ledger gets to
it. -/
def Offends (rules : Rules) (l : Ledger) (b : Block) : Prop :=
  ∃ before t rest m, b.transactions = before ++ t :: rest ∧
    before.foldlM (apply b.height b.timestamp) (l.settle b.timestamp) = .ok m ∧
    Excluded rules m t

namespace Parallels

theorem foldlM {ts : List Transaction} (h : l.Parallels k)
    (hok : ts.foldlM (Ledger.apply height now) l = .ok l') :
    (∃ k', ts.foldlM (Ledger.apply height now) k = .ok k' ∧ l'.Parallels k') ∨
      (∃ r, ts.foldlM (Ledger.apply height now) k = .error r) ∧
        ∃ before t rest m, ts = before ++ t :: rest ∧
          before.foldlM (Ledger.apply height now) l = .ok m ∧
          Excluded k.council.rules m t := by
  induction ts generalizing l k with
  | nil =>
    cases pure_eq_ok.mp hok
    exact .inl ⟨k, rfl, h⟩
  | cons t rest ih =>
    obtain ⟨m, hm, hrest⟩ := foldlM_cons_eq_ok.mp hok
    simp only [List.foldlM_cons]
    rcases h.apply hm with ⟨k₁, hk₁, hparallel⟩ | ⟨⟨r, hr⟩, hexcluded⟩
    · have hrules : k₁.council.rules = k.council.rules := (apply_ok hk₁).2.rules
      rw [hk₁]
      refine (ih hparallel hrest).imp_right ?_
      rintro ⟨hrefused, before, u, after, last, rfl, hlast, hexcluded⟩
      exact ⟨hrefused, t :: before, u, after, last, rfl,
        foldlM_cons_eq_ok.mpr ⟨m, hm, hlast⟩, hrules ▸ hexcluded⟩
    · rw [hr]
      exact .inr ⟨⟨r, rfl⟩, [], t, rest, l, rfl, rfl, hexcluded⟩

/-- **One block**: the other ledger takes it too, or it refuses the block and
excludes a transaction in it. -/
theorem applyBlock (h : l.Parallels k) (hok : l.applyBlock b = .ok l') :
    (∃ k', k.applyBlock b = .ok k' ∧ l'.Parallels k') ∨
      (∃ r, k.applyBlock b = .error r) ∧ l.Offends k.council.rules b := by
  obtain ⟨m, hm, rfl⟩ := applyBlock_ok hok
  rcases (h.settle b.timestamp).foldlM hm with
    ⟨k', hk', hparallel⟩ | ⟨⟨r, hr⟩, hoffends⟩
  · refine .inl ⟨k'.settle b.timestamp, ?_, hparallel.settle _⟩
    rw [Ledger.applyBlock, hk']
    rfl
  · refine .inr ⟨⟨r, ?_⟩, hoffends⟩
    rw [Ledger.applyBlock, hr]
    rfl

end Parallels

/-- Rules that let pass whatever others do exclude nothing that went through
under those. -/
theorem not_offends_of_admits {rules : Rules}
    (hadmits : rules.Admits l.council.rules) (hok : l.applyBlock b = .ok l') :
    ¬ l.Offends rules b := by
  rintro ⟨before, t, rest, m, hsplit, hm, hexcluded⟩
  obtain ⟨last, hlast, -⟩ := applyBlock_ok hok
  rw [hsplit] at hlast
  obtain ⟨m', hm', hrest⟩ := foldlM_append_eq_ok.mp hlast
  cases hm.symm.trans hm'
  obtain ⟨next, happly, -⟩ := foldlM_cons_eq_ok.mp hrest
  have hrules : m.council.rules = l.council.rules :=
    foldlM_stage_induction (P := fun k => k.council.rules = l.council.rules) rfl
      (fun _ _ hstage hk => hstage.rules.trans hk) hsplit hm
  have hacted := (apply_ok happly).2
  unfold Excluded at hexcluded
  split at hexcluded
  · next draft haction =>
    cases hacted with
    | propose action _ _ ok =>
      cases haction.symm.trans action
      obtain ⟨hcheck, hbalance, -, -⟩ := Council.propose_ok ok
      have hduration := (Draft.check_ok_iff.mp hcheck).2
      change draft.duration ≤ m.council.rules.maxDuration at hduration
      change m.council.rules.minProposalBalance ≤
        m.accounts.balance t.sender at hbalance
      rw [hrules] at hduration hbalance
      rcases hexcluded with hlong | hpoor
      · exact UInt64.not_le.mpr hlong
          (UInt64.le_trans hduration hadmits.duration)
      · exact UInt64.not_le.mpr hpoor (UInt64.le_trans hadmits.balance hbalance)
    | mint action | transfer action | vote action | payOut action
    | delegate action | revoke action => cases haction.symm.trans action
  · rw [hrules] at hexcluded
    exact UInt8.not_le.mpr hexcluded hadmits.quorum
  · exact hexcluded

end Ledger

/-! ## Chains -/

namespace Chain

variable {c c' d : Chain} {b : Block} {blocks : List Block} {rules : Rules}

/-- Chains of the same blocks whose ledgers run in parallel. -/
structure Parallels (c d : Chain) : Prop where
  archive : d.archive = c.archive
  tip : d.tip = c.tip
  ledger : c.ledger.Parallels d.ledger

namespace Parallels

theorem withRules (c : Chain) (rules : Rules) :
    c.Parallels { c with council := { c.council with rules } } :=
  ⟨rfl, rfl, rfl, .withRules c.council rules⟩

theorem commit (h : c.Parallels d) (hstep : c.archive.InStep)
    (hok : c.commit b = .ok c') :
    (∃ d', d.commit b = .ok d' ∧ c'.Parallels d') ∨
      (∃ r, d.commit b = .error r) ∧ c.ledger.Offends d.council.rules b := by
  obtain ⟨after, hvalid, rfl⟩ := commit_ok hstep hok
  obtain ⟨hblock, hlink, hcheck, hledger⟩ := validate_ok hvalid
  have hlink' : d.checkLink b = .ok () := by
    rw [checkLink, h.tip]
    exact hlink
  have hvalidate : d.validate b = d.ledger.applyBlock b := by
    rw [validate, hblock, hlink', h.archive, hcheck]
    rfl
  rcases h.ledger.applyBlock hledger with
    ⟨k', hk', hparallel⟩ | ⟨⟨r, hr⟩, hoffends⟩
  · refine .inl ⟨d.extended b k', commit_of_validate (h.archive ▸ hstep)
      (hvalidate.trans hk'), ?_⟩
    exact ⟨by simp only [extended, h.archive], rfl, hparallel⟩
  · refine .inr ⟨⟨r, ?_⟩, hoffends⟩
    rw [Chain.commit, hvalidate, hr]
    rfl

/-- **A replay under other rules** goes as far as the first block that offends
them. -/
theorem replay (h : c.Parallels d) (hstep : c.archive.InStep)
    (hok : blocks.foldlM Chain.commit c = .ok c') :
    ∃ kept dropped m k, blocks = kept ++ dropped ∧
      kept.foldlM Chain.commit c = .ok m ∧ d.replay blocks = (k, kept.length) ∧
      m.Parallels k ∧
      ∀ b ∈ dropped.head?, m.ledger.Offends d.council.rules b := by
  induction blocks generalizing c d with
  | nil => exact ⟨[], [], c, d, rfl, rfl, rfl, h, nofun⟩
  | cons b rest ih =>
    obtain ⟨next, hnext, hrest⟩ := foldlM_cons_eq_ok.mp hok
    rcases h.commit hstep hnext with ⟨d', hd', hparallel⟩ | ⟨⟨r, hr⟩, hoffends⟩
    · obtain ⟨after, hvalid, rfl⟩ := commit_ok hstep hnext
      obtain ⟨after', hvalid', rfl⟩ := commit_ok (h.archive ▸ hstep) hd'
      have hrules : after'.council.rules = d.council.rules :=
        Ledger.applyBlock_rules (validate_ok hvalid').2.2.2
      have hadded := Archive.inStep_added hstep (validate_ok hvalid).2.2.1
      obtain ⟨kept, dropped, m, k, rfl, hkept, hreplay, hmk, hdropped⟩ :=
        ih hparallel hadded hrest
      refine ⟨b :: kept, dropped, m, k, rfl, foldlM_cons_eq_ok.mpr
        ⟨_, hnext, hkept⟩, ?_, hmk, fun q hq => hrules ▸ hdropped q hq⟩
      simp only [Chain.replay, hd', hreplay, List.length_cons]
    · refine ⟨[], b :: rest, c, d, rfl, rfl, ?_, h, ?_⟩
      · simp only [Chain.replay, hr, List.length_nil]
      · rintro _ ⟨⟩
        exact hoffends

end Parallels
end Chain
end CouncilLedger
