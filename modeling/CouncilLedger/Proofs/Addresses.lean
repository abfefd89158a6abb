import CouncilLedger.Proofs.Amount
import CouncilLedger.Proofs.Nonces
import CouncilLedger.Proofs.Treasury
import CouncilLedger.Proofs.Voting

/-!
# Addresses

Whoever holds tokens, opens a proposal, is paid by one, votes, lends power or is
lent some has a well-formed address. Some kinds of transactions check their
sender and others need no check: who votes holds tokens or was lent some, who
lends holds tokens, and who revokes has lent. A payout does neither, so that its
sender may be any text, which then has a nonce; a write checks the sender of
every kind before a block is made. The invariant is `Ledger.WellNamed`; the main
statements are `Node.addresses_well_formed` and `Node.address_malformed`.
-/

namespace CouncilLedger

open Outcome

/-- A name that passes the check of addresses. -/
def Address.IsWellFormed (a : String) : Prop := check a = .ok ()

open Address (IsWellFormed)

theorem Address.isWellFormed_genesis : IsWellFormed genesis := by
  rw [IsWellFormed]
  decide

/-! ## The addresses of a state -/

/-- The accounts that a proposal names: who made it, whom it pays, and whose
power its votes carry. -/
def Proposal.addresses (p : Proposal) : List String :=
  p.creator :: p.funding.toList.map (·.recipient) ++
    p.votes.entries.flatMap fun e => e.1 :: e.2.accounts

/-- The accounts that the entry of a delegation names. -/
def Delegation.addresses (e : String × Delegation) : List String :=
  [e.1, e.2.delegator, e.2.delegate]

/-- The accounts that a council names. -/
def Council.addresses (c : Council) : List String :=
  c.proposals.flatMap Proposal.addresses ++
    c.delegations.entries.flatMap Delegation.addresses

/-- The accounts that a chain names, with the senders of its transactions. -/
def Chain.addresses (c : Chain) : List String :=
  c.accounts.balances.keys ++ c.accounts.nonces.keys ++ c.council.addresses ++
    c.transactions.map (·.sender)

/-! ## Proposals -/

/-- A draft that is accepted pays a well-formed address. -/
theorem Draft.isWellFormed_of_check {d : Draft} {rules : Rules}
    (h : d.check rules = .ok ()) :
    ∀ f ∈ d.funding, IsWellFormed f.recipient := by
  simp only [check, guard_eq_ok] at h
  obtain ⟨-, -, -, -, -, h⟩ := h
  intro f hf
  rw [hf] at h
  unfold checkFunding at h
  split at h
  · cases h
  · next g heq =>
    cases heq
    split at h
    · cases h
    · next hcheck => exact hcheck
  · cases h
  · next hnone _ => cases hnone

namespace Proposal

/-- All accounts that a proposal names are well-formed. -/
def WellNamed (p : Proposal) : Prop := ∀ a ∈ p.addresses, IsWellFormed a

theorem wellNamed_ofDraft {d : Draft} {rules : Rules}
    (hdraft : d.check rules = .ok ()) (id : String) {creator : String}
    (hcreator : IsWellFormed creator) (now height : UInt64) :
    (ofDraft id creator d now height).WellNamed := by
  intro a ha
  have hnames : a ∈ creator :: d.funding.toList.map (·.recipient) := by
    simpa [addresses, ofDraft, SortedMap.empty] using ha
  rcases List.mem_cons.mp hnames with rfl | ha
  · exact hcreator
  · obtain ⟨f, hf, rfl⟩ := List.mem_map.mp ha
    exact Draft.isWellFormed_of_check hdraft f (Option.mem_toList.mp hf)

theorem WellNamed.withVote {p : Proposal} (h : p.WellNamed) {v : Vote}
    (hv : ∀ a ∈ v.accounts, IsWellFormed a) (e : Electorate) :
    (p.withVote v e).WellNamed := by
  intro a ha
  rcases List.mem_append.mp ha with ha | ha
  · exact h a (List.mem_append_left _ ha)
  · obtain ⟨entry, hentry, ha⟩ := List.mem_flatMap.mp ha
    rcases SortedMap.mem_place hentry with rfl | hold
    · rcases List.mem_cons.mp ha with rfl | ha
      · exact hv _ List.mem_cons_self
      · exact hv a ha
    · exact h a
        (List.mem_append_right _ (List.mem_flatMap.mpr ⟨entry, hold, ha⟩))

end Proposal

/-! ## The council -/

namespace Council

/-- All accounts that a council names are well-formed. -/
structure WellNamed (c : Council) : Prop where
  proposals : ∀ p ∈ c.proposals, p.WellNamed
  delegations : ∀ e ∈ c.delegations.entries,
    ∀ a ∈ Delegation.addresses e, IsWellFormed a

variable {c : Council}

namespace WellNamed

theorem isWellFormed (h : c.WellNamed) : ∀ a ∈ c.addresses, IsWellFormed a := by
  intro a ha
  rcases List.mem_append.mp ha with ha | ha
  · obtain ⟨p, hp, ha⟩ := List.mem_flatMap.mp ha
    exact h.proposals p hp a ha
  · obtain ⟨e, he, ha⟩ := List.mem_flatMap.mp ha
    exact h.delegations e he a ha

theorem of_delegation (h : c.WellNamed) {k : String} {d : Delegation}
    (hd : c.delegations.get? k = some d) :
    IsWellFormed k ∧ IsWellFormed d.delegator ∧ IsWellFormed d.delegate := by
  have haddresses := h.delegations _ (SortedMap.get?_eq_some_iff.mp hd)
  simpa [Delegation.addresses] using haddresses

theorem setProposal (h : c.WellNamed) {p : Proposal} (hp : p.WellNamed) :
    (c.setProposal p).WellNamed := by
  refine ⟨fun q hq => ?_, h.delegations⟩
  rcases mem_replaceFirst hq with rfl | hq
  · exact hp
  · exact h.proposals q hq

theorem insert (h : c.WellNamed) {k : String} {d : Delegation}
    (hd : ∀ a ∈ Delegation.addresses (k, d), IsWellFormed a) :
    WellNamed { c with delegations := c.delegations.insert k d } := by
  refine ⟨h.proposals, fun e he => ?_⟩
  rcases SortedMap.mem_place he with rfl | hold
  · exact hd
  · exact h.delegations e hold

theorem settle (h : c.WellNamed) (now : UInt64)
    (electorate : UInt64 → Electorate) :
    (c.settle now electorate).WellNamed := by
  refine ⟨fun q hq => ?_, h.delegations⟩
  obtain ⟨p, hp, rfl⟩ := List.mem_map.mp hq
  exact h.proposals p hp

end WellNamed
end Council

/-- What stands behind a vote with some weight is a balance of the voter, or a
delegation to it. -/
theorem Standing.exists_of_backing {s : Standing} {voter : String}
    {now : UInt64} {p : Proposal} (h : (s.backing voter now p).balance ≠ 0) :
    s.accounts.balance voter ≠ 0 ∨
      ∃ d ∈ s.delegations.values, d.delegate = voter := by
  unfold backing at h
  cases hlent : (s.delegations.toDelegate voter now).filter fun d =>
    !p.powerUsedBy d.delegator with
  | nil =>
    rw [hlent] at h
    have hown : s.own voter now ≠ 0 := h
    unfold own at hown
    split at hown
    · exact absurd rfl hown
    · exact .inl hown
  | cons d rest =>
    have hd : d ∈ s.delegations.toDelegate voter now :=
      List.mem_of_mem_filter (hlent ▸ List.mem_cons_self)
    obtain ⟨hmem, hactive⟩ := List.mem_filter.mp hd
    rw [Bool.and_eq_true, decide_eq_true_eq] at hactive
    exact .inr ⟨d, hmem, hactive.1⟩

/-! ## Transactions and blocks -/

namespace Ledger

/-- All that hold tokens are well-formed, and so are all whom the council
names. -/
structure WellNamed (l : Ledger) : Prop where
  balances : ∀ a ∈ l.accounts.balances.keys, IsWellFormed a
  council : l.council.WellNamed

variable {l l' : Ledger} {ts : List Transaction} {t : Transaction}
    {height now : UInt64}

namespace WellNamed

theorem of_balance (h : l.WellNamed) {a : String}
    (hheld : l.accounts.balance a ≠ 0) : IsWellFormed a := by
  cases hget : l.accounts.balances.get? a with
  | none => simp [Accounts.balance, SortedMap.getD, hget] at hheld
  | some held => exact h.balances a (SortedMap.mem_keys_of_get? hget)

/-- All whose power goes into a vote with some weight are well-formed. -/
theorem of_weight (h : l.WellNamed) {mode : VotingMode} {voter : String}
    {p : Proposal}
    (hweight : mode.weight (l.standing.backing voter now p).balance ≠ 0) :
    ∀ a ∈ voter :: (l.standing.backing voter now p).delegators,
      IsWellFormed a := by
  have hbacked : (l.standing.backing voter now p).balance ≠ 0 := by
    intro hzero
    rw [hzero, VotingMode.weight_zero] at hweight
    exact hweight rfl
  have hlent : ∀ d ∈ l.standing.delegations.values,
      IsWellFormed d.delegator ∧ IsWellFormed d.delegate := by
    intro d hd
    obtain ⟨k, hk⟩ := SortedMap.mem_values_iff.mp hd
    exact (h.council.of_delegation hk).2
  intro a ha
  rcases List.mem_cons.mp ha with rfl | ha
  · rcases Standing.exists_of_backing hbacked with hheld | ⟨d, hd, rfl⟩
    · exact h.of_balance hheld
    · exact (hlent d hd).2
  · obtain ⟨d, hd, -, -, rfl⟩ := Standing.mem_backing ha
    exact (hlent d hd).1

/-- Tokens move to a well-formed address from one that holds some. -/
theorem move (h : l.WellNamed) {sender recipient : String} {amount : Amount}
    {accounts : Accounts} (hrecipient : IsWellFormed recipient)
    (hok : l.accounts.move sender recipient amount = .ok accounts) :
    ∀ a ∈ accounts.balances.keys, IsWellFormed a := by
  obtain ⟨hamount, hheld, ⟨-, rfl⟩ | ⟨-, credited, -, rfl⟩⟩ :=
    Accounts.move_ok hok
  · exact h.balances
  · have hsender : IsWellFormed sender := h.of_balance fun hzero =>
      hamount (UInt64.le_zero_iff.mp (hzero ▸ hheld))
    intro a ha
    rcases SortedMap.mem_keys_insert ha with rfl | ha
    · exact hrecipient
    · rcases SortedMap.mem_keys_insert ha with rfl | ha
      · exact hsender
      · exact h.balances a ha

end WellNamed

/-- **Whoever acts is well-formed**, but for payouts. -/
theorem Acted.isWellFormed_sender (hact : Acted height now l t l')
    (h : l.WellNamed) (hkind : t.kind ≠ .payOut) : IsWellFormed t.sender := by
  cases hact with
  | mint _ _ sender => exact sender ▸ Address.isWellFormed_genesis
  | transfer _ _ sender => exact sender
  | propose _ _ sender => exact sender
  | vote _ _ _ found ok =>
    obtain ⟨q, hq, -, -, hweight, -⟩ := Council.vote_ok ok
    cases found.symm.trans hq
    have hvoters := h.of_weight hweight
    exact hvoters _ List.mem_cons_self
  | payOut action => exact absurd (congrArg Action.kind action) hkind
  | delegate _ _ _ ok =>
    obtain ⟨-, -, -, -, -, hheld, -⟩ := Council.delegate_ok ok
    exact h.of_balance hheld
  | revoke _ _ ok =>
    obtain ⟨d, hd, -⟩ := Council.revoke_ok ok
    exact (h.council.of_delegation hd).1

/-- **Every action keeps addresses well-formed.** -/
theorem Acted.wellNamed (hact : Acted height now l t l') (h : l.WellNamed) :
    l'.WellNamed := by
  have hsender := hact.isWellFormed_sender h
  cases hact with
  | mint _ _ _ address ok =>
    obtain ⟨-, supply, credited, -, -, rfl⟩ := Accounts.mint_ok ok
    refine ⟨fun a ha => ?_, h.council⟩
    rcases SortedMap.mem_keys_insert ha with rfl | ha
    · exact address
    · exact h.balances a ha
  | transfer _ _ _ address ok =>
    exact ⟨h.move address (Accounts.transfer_ok ok).2.2, h.council⟩
  | propose _ _ sender ok =>
    obtain ⟨hdraft, -, -, rfl⟩ := Council.propose_ok ok
    refine ⟨h.balances, fun p hp => ?_, h.council.delegations⟩
    rcases List.mem_append.mp hp with hp | hp
    · exact h.council.proposals p hp
    · rw [List.mem_singleton.mp hp]
      exact Proposal.wellNamed_ofDraft hdraft _ sender _ _
  | @vote text id choice p council _ _ _ found ok =>
    obtain ⟨q, hq, -, -, hweight, -, rfl⟩ := Council.vote_ok ok
    cases found.symm.trans hq
    have hproposal := h.council.proposals p (Council.mem_of_proposal? found)
    refine ⟨h.balances, h.council.setProposal (hproposal.withVote ?_ _)⟩
    exact h.of_weight hweight
  | payOut _ _ _ address authorized _ ok =>
    obtain ⟨p, hp, -, -, -, -, rfl⟩ := Council.authorizePayout_ok authorized
    have hproposal := h.council.proposals p (Council.mem_of_proposal? hp)
    exact ⟨h.move address (Accounts.payOut_ok ok).2,
      h.council.setProposal hproposal⟩
  | delegate action _ address ok =>
    obtain ⟨-, -, -, -, -, -, -, -, -, rfl⟩ := Council.delegate_ok ok
    have hdelegator : IsWellFormed t.sender :=
      hsender (by simp [Transaction.kind, action, Action.kind])
    refine ⟨h.balances, h.council.insert ?_⟩
    simpa [Delegation.addresses, Delegation.lent] using ⟨hdelegator, address⟩
  | revoke _ _ ok =>
    obtain ⟨d, hd, -, rfl⟩ := Council.revoke_ok ok
    refine ⟨h.balances, h.council.insert ?_⟩
    simpa [Delegation.addresses] using h.council.of_delegation hd

/-- The names of a ledger are well-formed, and so are the senders of some
transactions that it comes from, but for those of payouts. Every nonce is that
of a sender. -/
structure NamedAfter (l : Ledger) (ts : List Transaction) : Prop where
  names : l.WellNamed
  nonces : ∀ a ∈ l.accounts.nonces.keys, ∃ t ∈ ts, t.sender = a
  senders : ∀ t ∈ ts, t.kind ≠ .payOut → IsWellFormed t.sender

namespace NamedAfter

theorem start (rules : Rules) : (Chain.empty rules).ledger.NamedAfter [] :=
  ⟨⟨nofun, nofun, nofun⟩, nofun, nofun⟩

theorem settle (h : l.NamedAfter ts) (now : UInt64) :
    (l.settle now).NamedAfter ts :=
  ⟨⟨h.names.balances, h.names.council.settle _ _⟩, h.nonces, h.senders⟩

theorem apply (h : l.NamedAfter ts)
    (hok : Ledger.apply height now l t = .ok l') :
    l'.NamedAfter (ts ++ [t]) := by
  obtain ⟨-, hact⟩ := apply_ok hok
  have hused : (l.withNonceUsed t.sender).WellNamed :=
    ⟨h.names.balances, h.names.council⟩
  refine ⟨hact.wellNamed hused, fun a ha => ?_, fun u hu hkind => ?_⟩
  · rw [hact.nonces] at ha
    rcases SortedMap.mem_keys_insert ha with rfl | ha
    · exact ⟨t, by simp, rfl⟩
    · obtain ⟨u, hu, rfl⟩ := h.nonces a ha
      exact ⟨u, List.mem_append_left _ hu, rfl⟩
  · rcases List.mem_append.mp hu with hu | hu
    · exact h.senders u hu hkind
    · cases List.mem_singleton.mp hu
      exact hact.isWellFormed_sender hused hkind

theorem applyBlock (h : l.NamedAfter ts) {b : Block}
    (hok : l.applyBlock b = .ok l') : l'.NamedAfter (ts ++ b.transactions) :=
  applyBlock_append_induction (P := fun ts l => l.NamedAfter ts) hok h
    (fun _ _ hm => hm.settle _) fun _ _ _ _ _ hm hstep => hm.apply hstep

end NamedAfter
end Ledger

/-! ## Chains and nodes -/

theorem Chain.namedAfter_of_ofBlocks {rules : Rules} {blocks : List Block}
    {c : Chain} (h : ofBlocks rules blocks = .ok c) :
    c.ledger.NamedAfter (blocks.flatMap (·.transactions)) :=
  ofBlocks_transactions_induction (P := fun ts l => l.NamedAfter ts) h
    (.start rules) fun _ _ _ _ hl hblock => hl.applyBlock hblock

/-- A block in which a proposal passes, and a sender whose name is no address
pays it out. -/
def Block.strangePayout (parent : Option Digest) : Block :=
  let trees := Transaction.ofAction "ada" 0 0 (.propose
    { title := "Trees", description := "More", kind := .treasury
      mode := .weighted, duration := 60, threshold := 50
      funding := some ⟨"carl", 4⟩ })
  .build 1 parent 0
    [trees, .ofAction "ada" 1 0 (.vote trees.hash.hex .yes),
      .ofAction "no one!" 0 0 (.payOut trees.hash.hex "carl" 4)]

theorem Block.isMade_strangePayout (parent : Option Digest) :
    (strangePayout parent).IsMade :=
  isMade_build (by simp)

namespace Node

variable {config : Config} {n : Node}

/-- A run reaches a node with a sender whose name is no address. -/
theorem exists_strange :
    ∃ n, Reachable .smallTreasury n ∧ "no one!" ∈ n.chain.accounts.nonces.keys ∧
      n.chain.accounts.balance "carl" = 4 := by
  obtain ⟨-, -, n, -, -, hn, -, hstrange⟩ := exists_of_commit .smallTreasury
    (fun c => .strangePayout (c.tip.map (·.hash)))
    (fun _ => Block.isMade_strangePayout _) (fun _ n => "no one!" ∈
      n.chain.accounts.nonces.keys ∧ n.chain.accounts.balance "carl" = 4)
    (by decide +kernel)
  exact ⟨n, hn, hstrange⟩

/-- **Only payouts bring in malformed addresses.** All that hold tokens and all
whom a proposal, a vote or a delegation names are well-formed; a name that is
not is that of the sender of a payout. No write brings one in: it is refused
unless its sender is well-formed, whatever its kind. -/
theorem addresses_well_formed (h : n.Reachable config) :
    (∀ a ∈ n.chain.accounts.balances.keys ++ n.chain.council.addresses,
        IsWellFormed a) ∧
      (∀ a ∈ n.chain.addresses, IsWellFormed a ∨
        ∃ t ∈ n.chain.transactions, t.kind = .payOut ∧ t.sender = a) ∧
      ∀ m sender action receipt, (n.submit m sender action).1 = .ok receipt →
        IsWellFormed sender := by
  obtain ⟨rest, htracks⟩ := h.tracks
  have hnamed : n.chain.ledger.NamedAfter n.chain.transactions := by
    rw [htracks.transactions_eq]
    exact Chain.namedAfter_of_ofBlocks htracks.history
  have hstate :
      ∀ a ∈ n.chain.accounts.balances.keys ++ n.chain.council.addresses,
        IsWellFormed a := by
    intro a ha
    rcases List.mem_append.mp ha with ha | ha
    · exact hnamed.names.balances a ha
    · exact hnamed.names.council.isWellFormed a ha
  have hsender : ∀ t ∈ n.chain.transactions, IsWellFormed t.sender ∨
      ∃ u ∈ n.chain.transactions, u.kind = .payOut ∧ u.sender = t.sender := by
    intro t ht
    by_cases hkind : t.kind = .payOut
    · exact .inr ⟨t, ht, hkind, rfl⟩
    · exact .inl (hnamed.senders t ht hkind)
  refine ⟨hstate, fun a ha => ?_, fun m sender action receipt hsubmit => ?_⟩
  · simp only [Chain.addresses, List.mem_append, or_assoc] at ha
    rcases ha with ha | ha | ha | ha
    · exact .inl (hstate a (List.mem_append_left _ ha))
    · obtain ⟨t, ht, rfl⟩ := hnamed.nonces a ha
      exact hsender t ht
    · exact .inl (hstate a (List.mem_append_right _ ha))
    · obtain ⟨t, ht, rfl⟩ := List.mem_map.mp ha
      exact hsender t ht
  · obtain ⟨t, b, hblock, -⟩ := of_submit_eq_ok (Prod.ext hsubmit rfl)
    exact (Chain.blockFor_eq_ok hblock).1

/-- Of the addresses in a run with a malformed one, the one that was paid is
well-formed. -/
theorem addresses_well_formed_strange :
    ∃ n, Reachable .smallTreasury n ∧ "no one!" ∈ n.chain.addresses ∧
      "carl" ∈ n.chain.addresses ∧ IsWellFormed "carl" := by
  obtain ⟨n, hn, hstrange, hpaid⟩ := exists_strange
  have hcarl : "carl" ∈ n.chain.accounts.balances.keys := by
    cases hget : n.chain.accounts.balances.get? "carl" with
    | none => simp [Accounts.balance, SortedMap.getD, hget] at hpaid
    | some held => exact SortedMap.mem_keys_of_get? hget
  refine ⟨n, hn, ?_, ?_, (addresses_well_formed hn).1 _
    (List.mem_append_left _ hcarl)⟩
  · simp [Chain.addresses, hstrange]
  · simp [Chain.addresses, hcarl]

/-- A block that was made elsewhere may bring in any name at all. -/
theorem address_malformed :
    ¬ ∀ config n, Reachable config n →
      ∀ a ∈ n.chain.addresses, IsWellFormed a := by
  intro h
  obtain ⟨n, hn, hstrange, -⟩ := exists_strange
  have hwell :=
    h .smallTreasury n hn "no one!" (by simp [Chain.addresses, hstrange])
  rw [IsWellFormed] at hwell
  exact absurd hwell (by decide)

end Node
end CouncilLedger
