import CouncilLedger.Proofs.Conservation
import CouncilLedger.Proofs.Proposals
import Mathlib.Logic.Equiv.Defs

/-!
# Payouts and the proposals they are for

Every payout marks the proposal it is made for, and nothing else marks one or
takes the mark away. So payouts and marked proposals are paired, each payout
with the proposal that it names. What the treasury holds and what was drawn from
it add up to what the first block gave it, for payouts to other accounts: one to
the treasury itself marks its proposal and draws nothing. The invariant is
`Ledger.Accounted`; the main statements are `Node.debits_trace_to_proposals`
and `Node.treasury_accounts_for_grants`.
-/

namespace CouncilLedger

open Outcome

/-! ## Payments -/

/-- A payment out of the treasury. -/
structure Payment where
  proposal : String
  transaction : Digest
  funding : Funding
deriving DecidableEq

/-- The payment that a transaction makes. -/
def Transaction.payment? (t : Transaction) : Option Payment :=
  match t.action with
  | .payOut text recipient amount =>
    (Council.normalizeId text).toOption.map fun id =>
      ⟨id, t.hash, ⟨recipient, amount⟩⟩
  | _ => none

/-- What a transaction gives to the treasury by a mint. -/
def Transaction.endowment (t : Transaction) : Nat :=
  match t.action with
  | .mint recipient amount =>
    if recipient = Address.treasury then amount.toNat else 0
  | _ => 0

theorem Transaction.endowment_le_minted (t : Transaction) :
    t.endowment ≤ t.minted := by
  cases haction : t.action with
  | mint recipient amount =>
    rw [endowment, minted, haction]
    dsimp only
    split
    · exact Nat.le_refl _
    · exact Nat.zero_le _
  | _ => simp [endowment, haction]

namespace Proposal

/-- The payment that a proposal is marked with. -/
def payment? (p : Proposal) : Option Payment :=
  match p.fundedBy, p.funding with
  | some transaction, some funding => some ⟨p.id, transaction, funding⟩
  | _, _ => none

/-- What a proposal was granted: what it asks for, once it is marked. -/
def granted (p : Proposal) : Nat :=
  match p.fundedBy, p.funding with
  | some _, some funding => funding.amount.toNat
  | _, _ => 0

/-- Whether a proposal asks for tokens of the treasury for the treasury. -/
def paysTreasury (p : Proposal) : Bool :=
  p.funding.any (·.recipient = Address.treasury)

theorem payment?_of_unpaid {p : Proposal} (h : p.fundedBy = none) :
    p.payment? = none := by
  rw [payment?, h]

theorem granted_of_unpaid {p : Proposal} (h : p.fundedBy = none) :
    p.granted = 0 := by
  rw [granted, h]

end Proposal

/-- All that some proposals were granted. -/
def granted (ps : List Proposal) : Nat := (ps.map (·.granted)).sum

/-- What some proposals have drawn from the treasury. -/
def drawn (ps : List Proposal) : Nat := granted (ps.filter (!·.paysTreasury))

theorem drawn_append (ps qs : List Proposal) :
    drawn (ps ++ qs) = drawn ps + drawn qs := by
  simp [drawn, granted]

theorem drawn_middle (before : List Proposal) (p : Proposal)
    (after : List Proposal) :
    drawn (before ++ p :: after) = drawn before + drawn [p] + drawn after := by
  rw [← List.singleton_append, drawn_append, drawn_append, Nat.add_assoc]

theorem drawn_of_unpaid {p : Proposal} (h : p.fundedBy = none) :
    drawn [p] = 0 := by
  cases hp : p.paysTreasury <;> simp [drawn, granted, hp,
    Proposal.granted_of_unpaid h]

/-! ## The invariant -/

namespace Ledger

/-- The marks of proposals are the payments of some transactions, and the
treasury has what it was given without what was drawn. -/
structure Accounted (l : Ledger) (ts : List Transaction) : Prop where
  payments : (ts.filterMap (·.payment?)).Perm
    (l.council.proposals.filterMap (·.payment?))
  made : ∀ t ∈ ts, t.kind = .payOut → t.payment?.isSome
  marked : ∀ p ∈ l.council.proposals, p.fundedBy.isSome →
    p.kind = .treasury ∧ p.status = .passed ∧ p.funding.isSome
  treasury : l.accounts.treasury.toNat + drawn l.council.proposals =
    (ts.map (·.endowment)).sum

variable {l l' : Ledger} {ts : List Transaction} {t : Transaction}
    {height now : UInt64}

namespace Accounted

theorem start (rules : Rules) : (Chain.empty rules).ledger.Accounted [] := by
  refine ⟨.refl _, ?_, ?_, rfl⟩
  · intro t ht
    cases ht
  · intro p hp
    cases hp

/-- A transaction that pays nothing out, in a ledger with the same marks. -/
theorem snoc (h : l.Accounted ts) (hkind : t.kind ≠ .payOut)
    (hpayments : l'.council.proposals.filterMap (·.payment?) =
      l.council.proposals.filterMap (·.payment?))
    (hmarked : ∀ p ∈ l'.council.proposals, p.fundedBy.isSome →
      p.kind = .treasury ∧ p.status = .passed ∧ p.funding.isSome)
    (hdrawn : drawn l'.council.proposals = drawn l.council.proposals)
    (htreasury : l'.accounts.treasury.toNat =
      l.accounts.treasury.toNat + t.endowment) : l'.Accounted (ts ++ [t]) := by
  have hnone : t.payment? = none := by
    unfold Transaction.payment?
    split
    · next haction =>
      exact absurd
        (show t.kind = .payOut by rw [Transaction.kind, haction]; rfl) hkind
    · rfl
  refine ⟨?_, ?_, hmarked, ?_⟩
  · rw [List.filterMap_append, hpayments, List.filterMap_cons_none hnone,
      List.filterMap_nil, List.append_nil]
    exact h.payments
  · intro u hu hpays
    rcases List.mem_append.mp hu with hu | hu
    · exact h.made u hu hpays
    · rw [List.mem_singleton.mp hu] at hpays
      exact absurd hpays hkind
  · have hbefore := h.treasury
    rw [List.map_append, List.sum_append, List.map_singleton, List.sum_singleton]
    omega

/-- The same, where the council stays as it is. -/
theorem snoc_of_council (h : l.Accounted ts) (hkind : t.kind ≠ .payOut)
    (hsame : l'.council.proposals = l.council.proposals)
    (htreasury : l'.accounts.treasury.toNat =
      l.accounts.treasury.toNat + t.endowment) : l'.Accounted (ts ++ [t]) := by
  refine h.snoc hkind (by rw [hsame]) ?_ (by rw [hsame]) htreasury
  rw [hsame]
  exact h.marked

/-- A transaction that pays nothing out, and replaces an unmarked proposal by
one. -/
theorem snoc_of_unpaid (h : l.Accounted ts) (hkind : t.kind ≠ .payOut)
    (hendowment : t.endowment = 0) {id : String} {p p' : Proposal}
    (hp : l.council.proposal? id = some p) (hid : p'.id = p.id)
    (hunpaid : p.fundedBy = none) (hstill : p'.fundedBy = none) :
    Accounted { l with council := l.council.setProposal p' } (ts ++ [t]) := by
  obtain ⟨before, after, hold, hnew⟩ := Council.setProposal_of_proposal? hp hid
  refine h.snoc hkind ?_ ?_ ?_ (by rw [hendowment, Nat.add_zero])
  · rw [hnew, hold, List.filterMap_append, List.filterMap_append,
      List.filterMap_cons_none (Proposal.payment?_of_unpaid hunpaid),
      List.filterMap_cons_none (Proposal.payment?_of_unpaid hstill)]
  · intro q hq hpaid
    rcases mem_replaceFirst hq with rfl | hq
    · rw [hstill] at hpaid
      cases hpaid
    · exact h.marked q hq hpaid
  · rw [hnew, hold, drawn_middle, drawn_middle, drawn_of_unpaid hunpaid,
      drawn_of_unpaid hstill]

/-- A payout marks its proposal, and the treasury has less by what it draws. -/
theorem paid (h : l.Accounted ts) {text id recipient : String} {amount : Amount}
    {council : Council} {accounts : Accounts} {p : Proposal}
    (action : t.action = .payOut text recipient amount)
    (names : Council.normalizeId text = .ok id)
    (authorized : l.council.authorizePayout id recipient amount now
        l.standing.electorateAt t.hash =
      .ok council) (ok : l.accounts.payOut recipient amount p = .ok accounts) :
    Accounted { accounts, council } (ts ++ [t]) := by
  obtain ⟨q, hq, hkind, -, hunpaid, hfunding, rfl⟩ :=
    Council.authorizePayout_ok authorized
  have hsame : Proposal.id { q with
      status := .passed, fundedBy := some t.hash } = q.id := rfl
  obtain ⟨before, after, hold, hnew⟩ :=
    Council.setProposal_of_proposal? hq hsame
  have hid := Council.id_of_proposal? hq
  have hpayment : t.payment? = some ⟨id, t.hash, ⟨recipient, amount⟩⟩ := by
    rw [Transaction.payment?, action]
    simp [names, Except.toOption]
  have hmark : Proposal.payment? { q with
      status := .passed, fundedBy := some t.hash } =
      some ⟨id, t.hash, ⟨recipient, amount⟩⟩ := by
    simp [Proposal.payment?, hfunding, hid]
  refine ⟨?_, ?_, ?_, ?_⟩
  · have hpayments := h.payments
    rw [hold, List.filterMap_append, List.filterMap_cons_none
      (Proposal.payment?_of_unpaid hunpaid)] at hpayments
    rw [hnew, List.filterMap_append,
      List.filterMap_append, List.filterMap_cons_some hpayment,
      List.filterMap_cons_some hmark, List.filterMap_nil]
    exact (List.perm_append_singleton _ _).trans
      ((hpayments.cons _).trans List.perm_middle.symm)
  · intro u hu hpays
    rcases List.mem_append.mp hu with hu | hu
    · exact h.made u hu hpays
    · rw [List.mem_singleton.mp hu, hpayment]
      rfl
  · intro r hr hpaid
    rcases mem_replaceFirst hr with rfl | hr
    · exact ⟨hkind, rfl, by rw [hfunding]; rfl⟩
    · exact h.marked r hr hpaid
  · obtain ⟨hmoved, -, -⟩ := Accounts.move_effect (Accounts.payOut_ok ok).2
    have hheld := hmoved Address.treasury
    have hbefore := h.treasury
    have hendowment : t.endowment = 0 := by rw [Transaction.endowment, action]
    have hdrawn : drawn [{ q with status := .passed, fundedBy := some t.hash }] =
        if recipient = Address.treasury then 0 else amount.toNat := by
      by_cases hr : recipient = Address.treasury <;>
        simp [drawn, granted, Proposal.paysTreasury,
          Proposal.granted, hfunding, hr]
    rw [hold, drawn_middle, drawn_of_unpaid hunpaid] at hbefore
    rw [hnew, drawn_middle, hdrawn, List.map_append, List.sum_append,
      List.map_singleton, List.sum_singleton, hendowment]
    rw [if_pos rfl] at hheld
    -- a payout to the treasury itself puts back what it takes
    by_cases hr : recipient = Address.treasury
    · rw [if_pos hr] at hheld ⊢
      simp only [Accounts.treasury] at *
      omega
    · rw [if_neg hr] at hheld ⊢
      simp only [Accounts.treasury] at *
      omega

/-- **Every action keeps marks and payments paired.** -/
theorem acted (h : l.Accounted ts) (hact : Acted height now l t l') :
    l'.Accounted (ts ++ [t]) := by
  cases hact with
  | @mint recipient amount _ action _ _ _ ok =>
    refine h.snoc_of_council (by rw [Transaction.kind, action]; nofun) rfl ?_
    rw [Transaction.endowment, action]
    exact (Accounts.mint_effect ok).1 Address.treasury
  | transfer action _ _ _ ok =>
    refine h.snoc_of_council (by rw [Transaction.kind, action]; nofun) rfl ?_
    obtain ⟨hsender, hrecipient, hmove⟩ := Accounts.transfer_ok ok
    have hheld := (Accounts.move_effect hmove).1 Address.treasury
    rw [if_neg hsender, if_neg hrecipient] at hheld
    rw [Transaction.endowment, action]
    exact hheld
  | propose action _ _ ok =>
    obtain ⟨-, -, -, rfl⟩ := Council.propose_ok ok
    refine h.snoc (by rw [Transaction.kind, action]; nofun) ?_ ?_ ?_ ?_
    · rw [List.filterMap_append, List.filterMap_cons_none
        (Proposal.payment?_of_unpaid rfl), List.filterMap_nil, List.append_nil]
    · intro q hq hpaid
      rcases List.mem_append.mp hq with hq | hq
      · exact h.marked q hq hpaid
      · rw [List.mem_singleton.mp hq] at hpaid
        cases hpaid
    · rw [drawn_append, drawn_of_unpaid rfl, Nat.add_zero]
    · rw [Transaction.endowment, action]
      rfl
  | vote action _ _ _ ok =>
    obtain ⟨p, hp, -, -, -, hrunning, rfl⟩ := Council.vote_ok ok
    -- a marked proposal has passed, so votes are taken on others only
    have hunpaid : p.fundedBy = none := by
      cases hpaid : p.fundedBy with
      | none => rfl
      | some d =>
        have hpassed :=
          (h.marked p (Council.mem_of_proposal? hp) (by rw [hpaid]; rfl)).2.1
        rw [Proposal.statusAt_of_closed (by rw [hpassed]; nofun),
          hpassed] at hrunning
        cases hrunning
    refine h.snoc_of_unpaid ?_ ?_ hp rfl hunpaid hunpaid
    · rw [Transaction.kind, action]
      nofun
    · rw [Transaction.endowment, action]
  | payOut action _ names _ authorized _ ok =>
    exact h.paid action names authorized ok
  | delegate action _ _ ok =>
    obtain ⟨-, -, -, -, -, -, -, -, -, rfl⟩ := Council.delegate_ok ok
    refine h.snoc_of_council (by rw [Transaction.kind, action]; nofun) rfl ?_
    rw [Transaction.endowment, action]
    rfl
  | revoke action _ ok =>
    obtain ⟨d, -, -, rfl⟩ := Council.revoke_ok ok
    refine h.snoc_of_council (by rw [Transaction.kind, action]; nofun) rfl ?_
    rw [Transaction.endowment, action]
    rfl

theorem apply (h : l.Accounted ts) (hok : Ledger.apply height now l t = .ok l') :
    l'.Accounted (ts ++ [t]) := by
  have hused : (l.withNonceUsed t.sender).Accounted ts :=
    ⟨h.payments, h.made, h.marked, h.treasury⟩
  exact hused.acted (apply_ok hok).2

theorem settle (h : l.Accounted ts) (now : UInt64) :
    (l.settle now).Accounted ts := by
  refine ⟨?_, h.made, ?_, ?_⟩
  · show List.Perm _ (List.filterMap _ (List.map _ l.council.proposals))
    rw [List.filterMap_map]
    exact h.payments
  · intro q hq hpaid
    obtain ⟨p, hp, rfl⟩ := List.mem_map.mp hq
    obtain ⟨hkind, hpassed, hfunding⟩ := h.marked p hp hpaid
    refine ⟨hkind, ?_, hfunding⟩
    show p.settledStatus _ _ _ = .passed
    rw [Proposal.settledStatus_of_closed (by rw [hpassed]; nofun), hpassed]
  · have hdrawn :
        drawn (l.settle now).council.proposals = drawn l.council.proposals := by
      show granted (List.filter _ (List.map _ l.council.proposals)) = _
      rw [List.filter_map, granted, List.map_map]
      rfl
    rw [hdrawn]
    exact h.treasury

theorem applyBlock (h : l.Accounted ts) {b : Block}
    (hok : l.applyBlock b = .ok l') : l'.Accounted (ts ++ b.transactions) := by
  refine applyBlock_append_induction
    (P := fun ts l => l.Accounted ts) hok h ?_ ?_
  · exact fun _ _ hm => hm.settle _
  · exact fun _ _ _ _ _ hm hstep => hm.apply hstep

end Accounted

/-! ## What lowers the treasury -/

/-- Only a payout takes tokens from the treasury. -/
theorem Acted.kind_of_treasury_lt (hact : Acted height now l t l')
    (hless : l'.accounts.treasury < l.accounts.treasury) :
    t.kind = .payOut := by
  rw [UInt64.lt_iff_toNat_lt] at hless
  cases hact with
  | mint _ _ _ _ ok =>
    have hheld := (Accounts.mint_effect ok).1 Address.treasury
    simp only [Accounts.treasury] at hless
    omega
  | transfer _ _ _ _ ok =>
    obtain ⟨hsender, hrecipient, hmove⟩ := Accounts.transfer_ok ok
    have hheld := (Accounts.move_effect hmove).1 Address.treasury
    rw [if_neg hsender, if_neg hrecipient] at hheld
    simp only [Accounts.treasury] at hless
    omega
  | payOut action =>
    rw [Transaction.kind, action]
    rfl
  | propose | vote | delegate | revoke => exact absurd hless (Nat.lt_irrefl _)

/-- A step of a block that lowers the treasury is a payout. -/
theorem Stage.payOut_of_treasury_lt {b : Block} {m m' : Ledger}
    (h : Stage b l m m') (hless : m'.accounts.treasury < m.accounts.treasury) :
    ∃ t ∈ b.transactions, t.kind = .payOut ∧
      Ledger.apply b.height b.timestamp m t = .ok m' := by
  cases h with
  | opening | closing => exact absurd hless (UInt64.lt_irrefl _)
  | @acting _ t _ _ _ split _ ok =>
    exact ⟨t, by simp [split], (apply_ok ok).2.kind_of_treasury_lt hless, ok⟩

end Ledger

/-! ## Chains -/

namespace Chain

variable {rules : Rules} {blocks : List Block} {c : Chain}

theorem accounted_of_ofBlocks (h : ofBlocks rules blocks = .ok c) :
    c.ledger.Accounted (blocks.flatMap (·.transactions)) := by
  refine ofBlocks_transactions_induction (P := fun ts l => l.Accounted ts) h
    (.start rules) ?_
  exact fun _ _ _ _ hl hblock => hl.applyBlock hblock

/-- What the treasury was given, it was given by the first block. -/
theorem endowment_of_ofBlocks {first : Block} {rest : List Block}
    (h : ofBlocks rules (first :: rest) = .ok c) :
    (((first :: rest).flatMap (·.transactions)).map (·.endowment)).sum =
      (first.transactions.map (·.endowment)).sum := by
  have hcreated := created_of_ofBlocks h
  have hpart :
      ∀ ts : List Transaction,
        (ts.map (·.endowment)).sum ≤ Transaction.created ts := by
    intro ts
    exact List.sum_le_sum fun t _ => t.endowment_le_minted
  have hrest := hpart (rest.flatMap (·.transactions))
  simp only [List.flatMap_cons, List.map_append, List.sum_append,
    Transaction.created] at *
  omega

end Chain

/-- What a configuration gives to the treasury. -/
def Config.endowment (config : Config) : Nat :=
  (config.mints.map fun a => if a.address = Address.treasury then
    a.amount.toNat else 0).sum

theorem Config.endowment_genesisBlock (config : Config) :
    (config.genesisBlock.transactions.map (·.endowment)).sum =
      config.endowment :=
  config.sum_genesisBlock fun t a action => by rw [Transaction.endowment, action]

/-! ## Nodes -/

/-- A payout is what a proposal asks for, which has passed and is marked with
it. -/
structure Transaction.Pays (t : Transaction) (p : Proposal) : Prop where
  request : ∃ text recipient amount, t.action = .payOut text recipient amount ∧
    Council.normalizeId text = .ok p.id ∧ p.funding = some ⟨recipient, amount⟩
  kind : p.kind = .treasury
  passed : p.status = .passed
  mark : p.fundedBy = some t.hash

theorem Transaction.Pays.kind_eq {t : Transaction} {p : Proposal}
    (h : t.Pays p) : t.kind = .payOut := by
  obtain ⟨text, recipient, amount, haction, -, -⟩ := h.request
  rw [Transaction.kind, haction]
  rfl

namespace Ledger.Accounted

variable {l : Ledger} {ts : List Transaction} {t : Transaction} {p : Proposal}

/-- A transaction and a proposal with the same payment. -/
theorem pays (h : l.Accounted ts) (hp : p ∈ l.council.proposals)
    {payment : Payment} (ht : t.payment? = some payment)
    (hmark : p.payment? = some payment) : t.Pays p := by
  unfold Proposal.payment? at hmark
  split at hmark
  · next d f hpaid hfunding =>
    obtain ⟨hkind, hpassed, -⟩ := h.marked p hp (by rw [hpaid]; rfl)
    cases hmark
    unfold Transaction.payment? at ht
    split at ht
    · next text recipient amount haction =>
      obtain ⟨id, hid, heq⟩ := Option.map_eq_some_iff.mp ht
      obtain ⟨rfl, rfl, rfl⟩ := Payment.mk.inj heq
      refine ⟨⟨text, recipient, amount, haction, ?_, hfunding⟩, hkind,
        hpassed, hpaid⟩
      cases hname : Council.normalizeId text with
      | error fault =>
        rw [hname] at hid
        cases hid
      | ok id =>
        rw [hname] at hid
        cases hid
        rfl
    · cases ht
  · cases hmark

/-- Every payout has its proposal. -/
theorem exists_pays_of_kind (h : l.Accounted ts) (ht : t ∈ ts)
    (hkind : t.kind = .payOut) : ∃ p ∈ l.council.proposals, t.Pays p := by
  obtain ⟨payment, hpayment⟩ := Option.isSome_iff_exists.mp (h.made t ht hkind)
  have hmem : payment ∈ ts.filterMap (·.payment?) :=
    List.mem_filterMap.mpr ⟨t, ht, hpayment⟩
  obtain ⟨p, hp, hmark⟩ := List.mem_filterMap.mp (h.payments.mem_iff.mp hmem)
  exact ⟨p, hp, h.pays hp hpayment hmark⟩

/-- Every mark has its payout. -/
theorem exists_pays_of_mark (h : l.Accounted ts) (hp : p ∈ l.council.proposals)
    (hpaid : p.fundedBy.isSome) : ∃ t ∈ ts, t.Pays p := by
  obtain ⟨d, hd⟩ := Option.isSome_iff_exists.mp hpaid
  obtain ⟨f, hf⟩ := Option.isSome_iff_exists.mp (h.marked p hp hpaid).2.2
  have hmark : p.payment? = some ⟨p.id, d, f⟩ := by
    rw [Proposal.payment?, hd, hf]
  have hmem :
      (⟨p.id, d, f⟩ : Payment) ∈ l.council.proposals.filterMap (·.payment?) :=
    List.mem_filterMap.mpr ⟨p, hp, hmark⟩
  obtain ⟨t, ht, hpayment⟩ := List.mem_filterMap.mp (h.payments.mem_iff.mpr hmem)
  exact ⟨t, ht, h.pays hp hpayment hmark⟩

/-- Payouts and marks are paired, where no two transactions share a hash, and no
two proposals an id. -/
theorem exists_pairing (h : l.Accounted ts) (hhashes : (ts.map (·.hash)).Nodup)
    (hids : (l.council.proposals.map (·.id)).Nodup) :
    ∃ paid : {t // t ∈ ts ∧ t.kind = .payOut} ≃
        {p // p ∈ l.council.proposals ∧ p.fundedBy.isSome},
      ∀ t p, t.1.Pays p.1 ↔ paid t = p := by
  -- a payout names one proposal only
  have honly : ∀ t p q, p ∈ l.council.proposals → q ∈ l.council.proposals →
      Transaction.Pays t p → t.Pays q → p = q := by
    intro t p q hp hq hpaysp hpaysq
    obtain ⟨text, recipient, amount, haction, hid, -⟩ := hpaysp.request
    obtain ⟨_, _, _, haction', hid', -⟩ := hpaysq.request
    cases haction.symm.trans haction'
    exact List.inj_on_of_nodup_map hids hp hq
      (Except.ok.inj (hid.symm.trans hid'))
  choose pays hmem hpays using fun t : {t // t ∈ ts ∧ t.kind = .payOut} =>
    h.exists_pays_of_kind t.2.1 t.2.2
  let proposal : {t // t ∈ ts ∧ t.kind = .payOut} →
      {p // p ∈ l.council.proposals ∧ p.fundedBy.isSome} :=
    fun t => ⟨pays t, hmem t, by rw [(hpays t).mark]; rfl⟩
  have hinjective : proposal.Injective := by
    intro t u heq
    have hsame : pays t = pays u := congrArg Subtype.val heq
    have hmark := (hpays t).mark
    rw [hsame, (hpays u).mark] at hmark
    exact Subtype.ext (List.inj_on_of_nodup_map hhashes t.2.1 u.2.1
      (Option.some.inj hmark).symm)
  have hsurjective : proposal.Surjective := by
    intro p
    obtain ⟨t, ht, hpaysp⟩ := h.exists_pays_of_mark p.2.1 p.2.2
    refine ⟨⟨t, ht, hpaysp.kind_eq⟩, Subtype.ext ?_⟩
    exact honly t _ _ (hmem _) p.2.1 (hpays ⟨t, ht, hpaysp.kind_eq⟩) hpaysp
  have hbijective : proposal.Bijective := ⟨hinjective, hsurjective⟩
  refine ⟨.ofBijective proposal hbijective, ?_⟩
  intro t p
  rw [Equiv.ofBijective_apply, Subtype.ext_iff]
  constructor
  · exact fun hpaysp => honly t.1 _ _ (hmem t) p.2.1 (hpays t) hpaysp
  · intro heq
    rw [← heq]
    exact hpays t

end Ledger.Accounted

/-! ### A run with payouts -/

/-- A treasury, and an account that holds tokens. -/
def Config.smallTreasury : Config :=
  { treasury := 10, allocations := [⟨"ada", 5⟩] }

/-- A block in which two proposals pass and are paid out, one of them to the
treasury itself. -/
def Block.twoPayouts (parent : Option Digest) : Block :=
  let propose (nonce : UInt64) (f : Funding) :=
    Transaction.ofAction "ada" nonce 0 (.propose
      { title := "Trees", description := "More", kind := .treasury
        mode := .weighted, duration := 60, threshold := 50
        funding := some f })
  let trees := propose 0 ⟨"carl", 4⟩
  let circle := propose 1 ⟨Address.treasury, 2⟩
  .build 1 parent 0
    [trees, circle, .ofAction "ada" 2 0 (.vote trees.hash.hex .yes),
      .ofAction "ada" 3 0 (.vote circle.hash.hex .yes),
      .ofAction "ada" 4 0 (.payOut ("0x" ++ trees.hash.hex) "carl" 4),
      .ofAction "ada" 5 0 (.payOut circle.hash.hex Address.treasury 2)]

theorem Block.isMade_twoPayouts (parent : Option Digest) :
    (twoPayouts parent).IsMade :=
  isMade_build (by simp)

/-- A run reaches a node with two marked proposals, the second of which draws
nothing. -/
theorem Node.exists_paid :
    ∃ n, Node.Reachable .smallTreasury n ∧ n.chain.accounts.treasury = 6 ∧
      ∃ p q, n.chain.council.proposals = [p, q] ∧
        (p.granted = 4 ∧ p.paysTreasury = false) ∧ q.granted = 2 ∧
        q.paysTreasury = true := by
  -- the kernel evaluates the run, and the rest reads the answer
  obtain ⟨-, -, n, -, -, hn, -, htreasury, hproposals⟩ :=
    exists_of_commit .smallTreasury (fun c => .twoPayouts (c.tip.map (·.hash)))
    (fun _ => Block.isMade_twoPayouts _)
    (fun _ n => n.chain.accounts.treasury = 6 ∧ n.chain.council.proposals.map
      (fun p => (p.granted, p.paysTreasury)) = [(4, false), (2, true)])
    (by decide +kernel)
  obtain ⟨p, rest, hp, hfirst, hrest⟩ := List.map_eq_cons_iff.mp hproposals
  obtain ⟨q, hq, hsecond⟩ := List.map_eq_singleton_iff.mp hrest
  refine ⟨n, hn, htreasury, p, q, by rw [hp, hq], ?_, ?_⟩
  · exact Prod.mk.inj hfirst
  · exact Prod.mk.inj hsecond

theorem Proposal.fundedBy_isSome_of_granted {p : Proposal} (h : p.granted ≠ 0) :
    p.fundedBy.isSome := by
  cases hpaid : p.fundedBy with
  | none => exact absurd (granted_of_unpaid hpaid) h
  | some d => rfl

namespace Node

variable {config : Config} {n : Node}

/-- **Payouts and marked proposals are paired**, one to one: each payout is what
its proposal asks for, and the proposal is marked with it. A proposal that is
marked stays as it is, and nothing but a payout lowers the treasury. -/
theorem debits_trace_to_proposals (h : n.Reachable config) :
    (n.chain.transactions.map (·.hash)).Nodup ∧
      (n.chain.council.proposals.map (·.id)).Nodup ∧
      (∃ paid : {t // t ∈ n.chain.transactions ∧ t.kind = .payOut} ≃
          {p // p ∈ n.chain.council.proposals ∧ p.fundedBy.isSome},
        ∀ t p, t.1.Pays p.1 ↔ paid t = p) ∧
      (∀ p ∈ n.chain.council.proposals, p.fundedBy.isSome →
        ∀ later, Run config n later → p ∈ later.chain.council.proposals) ∧
      ∀ b after, n.chain.validate b = .ok after →
        ∀ m m', Ledger.Stage b n.chain.ledger m m' →
          m'.accounts.treasury < m.accounts.treasury →
            ∃ t ∈ b.transactions, t.kind = .payOut ∧
              Ledger.apply b.height b.timestamp m t = .ok m' := by
  obtain ⟨rest, htracks⟩ := h.tracks
  have hhistory := htracks.history
  have haccounted : n.chain.ledger.Accounted n.chain.transactions := by
    rw [Chain.transactions, htracks.blocks_eq]
    exact Chain.accounted_of_ofBlocks hhistory
  have hhashes : (n.chain.transactions.map (·.hash)).Nodup := by
    rw [Chain.transactions, htracks.blocks_eq]
    exact (Chain.indexes_of_ofBlocks hhistory).distinct
  have hids := (Chain.powerApart_of_ofBlocks hhistory).ids
  refine ⟨hhashes, hids, haccounted.exists_pairing hhashes hids, ?_, ?_⟩
  · intro p hp hpaid later hrun
    obtain ⟨more, hlater⟩ := htracks.run (by simp) hrun
    have hpassed := (haccounted.marked p hp hpaid).2.1
    refine Chain.ofBlocks_append_induction
      (P := fun l => p ∈ l.council.proposals) hhistory hlater.history hp ?_
    exact fun b l l' hl hblock =>
      Ledger.applyBlock_mem_of_paid hblock hl hpassed hpaid
  · intro b after _ m m' hstage hless
    exact hstage.payOut_of_treasury_lt hless

/-- A proposal of a run with the payout it is marked with. -/
theorem debits_trace_to_proposals_paid :
    ∃ n, Reachable .smallTreasury n ∧
      ∃ p ∈ n.chain.council.proposals, p.granted = 4 ∧
        ∃ t ∈ n.chain.transactions, t.Pays p := by
  obtain ⟨n, hn, -, p, q, hproposals, ⟨hgranted, -⟩, -⟩ := exists_paid
  have hp : p ∈ n.chain.council.proposals := by simp [hproposals]
  have hmarked :=
    Proposal.fundedBy_isSome_of_granted (p := p) (by rw [hgranted]; decide)
  obtain ⟨-, -, ⟨paid, hpaid⟩, -⟩ := debits_trace_to_proposals hn
  refine ⟨n, hn, p, hp, hgranted, (paid.symm ⟨p, hp, hmarked⟩).1,
    (paid.symm _).2.1, ?_⟩
  exact (hpaid _ _).mpr (paid.apply_symm_apply _)

/-- **The treasury accounts for what it granted**: what it holds, and what the
proposals it has paid were granted, add up to what the first block gave it, but
for proposals that pay the treasury itself. -/
theorem treasury_accounts_for_grants (h : n.Reachable config) :
    n.chain.accounts.treasury.toNat +
        granted (n.chain.council.proposals.filter (!·.paysTreasury)) =
      config.endowment := by
  obtain ⟨rest, htracks⟩ := h.tracks
  have haccounted := Chain.accounted_of_ofBlocks htracks.history
  rw [← config.endowment_genesisBlock, ← Chain.endowment_of_ofBlocks
    htracks.history]
  exact haccounted.treasury

/-- The treasury has paid out 4 of its 10 tokens. -/
theorem treasury_accounts_for_grants_paid : ∃ n, Reachable .smallTreasury n ∧
    granted (n.chain.council.proposals.filter (!·.paysTreasury)) = 4 ∧
    n.chain.accounts.treasury.toNat + 4 = 10 := by
  obtain ⟨n, hn, -, p, q, hproposals, ⟨hgranted, hp⟩, -, hq⟩ := exists_paid
  have hsum :
      granted (n.chain.council.proposals.filter (!·.paysTreasury)) = 4 := by
    simp [hproposals, granted, hp, hq, hgranted]
  have htreasury := treasury_accounts_for_grants hn
  rw [hsum] at htreasury
  exact ⟨n, hn, hsum, htreasury⟩

/-- A proposal that pays the treasury itself is marked, and nothing was drawn
for it. -/
theorem treasury_short_of_grants :
    ¬ ∀ config n, Reachable config n →
      n.chain.accounts.treasury.toNat + granted n.chain.council.proposals =
        config.endowment := by
  intro h
  obtain ⟨n, hn, htreasury, p, q, hproposals, ⟨hp, -⟩, hq, -⟩ := exists_paid
  have hgranted : granted n.chain.council.proposals = 4 + 2 := by
    simp [hproposals, granted, hp, hq]
  have hsum := h .smallTreasury n hn
  rw [htreasury, hgranted] at hsum
  exact absurd hsum (by decide)

end Node
end CouncilLedger
