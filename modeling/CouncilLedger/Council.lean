import CouncilLedger.Standing

/-!
# Council

The state of governance: the rules, every proposal ever made, and the
delegations. Its operations open proposals, take votes, authorize payouts, lend
and take back voting power, and record the outcomes that are settled.

Where an operation needs the electorate, it takes it as a function of time.
-/

namespace CouncilLedger

/-- The state of governance. -/
structure Council where
  rules : Rules
  /-- All proposals in the order of their creation. -/
  proposals : List Proposal
  delegations : Delegations
deriving DecidableEq

/-- Put `new` in place of the first member of a list for which `p` holds. -/
def replaceFirst {α : Type} (p : α → Bool) (new : α) : List α → List α
  | [] => []
  | a :: rest => if p a then new :: rest else a :: replaceFirst p new rest

namespace Council

/-- A council without proposals and delegations. -/
def ofRules (rules : Rules) : Council := ⟨rules, [], .empty⟩

instance : Inhabited Council := ⟨ofRules {}⟩

/-- The text of a proposal id as its 64 lower-case digits. -/
def normalizeId (id : String) : Except FormatFault String :=
  (Digest.ofHex id).map Digest.hex

/-! ## Proposals -/

/-- The proposal of an id. -/
def proposal? (c : Council) (id : String) : Option Proposal :=
  c.proposals.find? (·.id == id)

/-- The proposal of an id, which has to exist. -/
def proposal (c : Council) (id : String) : Except Rejection Proposal :=
  match c.proposal? id with
  | some p => .ok p
  | none => .error (.notFound (.proposal id))

/-- The council with `p` in place of the proposal of that id. -/
def setProposal (c : Council) (p : Proposal) : Council :=
  { c with proposals := replaceFirst (·.id == p.id) p c.proposals }

/-- Open a proposal for a creator who holds `balance`. -/
def propose (c : Council) (id creator : String) (draft : Draft)
    (balance : Amount) (now height : UInt64) : Except Rejection Council :=
  match draft.check c.rules with
  | .error fault => .error (.invalidProposal fault)
  | .ok () =>
    if balance < c.rules.minProposalBalance then
      .error (.insufficientBalance creator balance c.rules.minProposalBalance)
    else if (c.proposal? id).isSome then
      .error (.invalidProposal (.alreadyExists id))
    else .ok { c with
      proposals := c.proposals ++ [.ofDraft id creator draft now height] }

/-- Take a vote that is weighted from `backing`. -/
def vote (c : Council) (id voter : String) (choice : Choice) (backing : Backing)
    (now : UInt64) (electorate : UInt64 → Electorate) (transaction : Digest) :
    Except Rejection Council := do
  if let some delegate := c.delegations.delegateOf? voter now then
    throw (.unauthorized (.lentPower voter delegate))
  let p ← c.proposal id
  if !p.votes.contains voter && p.powerUsedBy voter then
    throw (.duplicateVote id voter)
  let weight := p.mode.weight backing.balance
  if weight = 0 then throw (.insufficientBalance voter backing.balance 1)
  let voted ← p.addVote
    { voter, choice, weight, timestamp := now, transaction
      delegators := backing.delegators }
    now electorate c.rules
  return c.setProposal voted

/-- Check that a payout is what a passed and unpaid treasury proposal asks for,
and mark the proposal as paid. -/
def authorizePayout (c : Council) (id recipient : String) (amount : Amount)
    (now : UInt64) (electorate : UInt64 → Electorate) (transaction : Digest) :
    Except Rejection Council := do
  let p ← c.proposal id
  if p.kind ≠ .treasury then throw (.invalidProposal (.notTreasury id p.kind))
  let status := p.statusAt now electorate c.rules
  if status ≠ .passed then throw (.invalidProposal (.notPassedBy id status))
  if let some payout := p.fundedBy then
    throw (.invalidProposal (.alreadyFunded id payout))
  match p.funding with
  | none => throw (.invalidProposal (.noFunding id))
  | some f =>
    if f.recipient ≠ recipient ∨ f.amount ≠ amount then
      throw (.invalidProposal
        (.otherFunding id f.amount f.recipient amount recipient))
    return c.setProposal { p with status, fundedBy := some transaction }

/-! ## Delegations -/

/-- Lend the power of `delegator`, who holds `balance`, to `delegate`. Power is
lent in one hop: nobody lends who holds lent power, and nobody receives who
has lent. -/
def delegate (c : Council) (delegator delegate : String) (duration : UInt64)
    (balance : Amount) (delegateIsKnown : Bool) (now : UInt64)
    (transaction : Digest) : Except Rejection Council := do
  if delegator = delegate then throw (.invalidDelegation .toSelf)
  if Address.isReserved delegate then
    throw (.invalidDelegation (.toReserved delegate))
  if !delegateIsKnown then throw (.invalidDelegation (.toUnknown delegate))
  if duration = 0 ∨ Delegation.maxDuration < duration then
    throw (.invalidDelegation .durationRange)
  if balance = 0 then throw (.insufficientBalance delegator 0 1)
  if let some current := c.delegations.delegateOf? delegator now then
    throw (.invalidDelegation (.alreadyDelegates delegator current))
  if !(c.delegations.toDelegate delegator now).isEmpty then
    throw (.invalidDelegation (.holdsLentPower delegator))
  if let some onward := c.delegations.delegateOf? delegate now then
    throw (.invalidDelegation (.delegateLends delegate onward))
  let lent : Delegation :=
    { delegator, delegate, startsAt := now
      endsAt := Amount.addCapped now duration
      revokedAt := none, transaction }
  return { c with delegations := c.delegations.insert delegator lent }

/-- End the delegation of an account that is in force. -/
def revoke (c : Council) (delegator : String) (now : UInt64) :
    Except Rejection Council :=
  match (c.delegations.get? delegator).filter (·.isActiveAt now) with
  | none => .error (.invalidDelegation (.noneActive delegator))
  | some d =>
    .ok { c with
      delegations :=
        c.delegations.insert delegator { d with revokedAt := some now } }

/-! ## Settlement -/

/-- Record every status that is settled at `now`. -/
def settle (c : Council) (now : UInt64) (electorate : UInt64 → Electorate) :
    Council :=
  { c with proposals := c.proposals.map fun p =>
      { p with status := p.settledStatus now electorate c.rules } }

/-- The proposals whose status changes when it is settled at `now`, with the new
one. -/
def settling (c : Council) (now : UInt64) (electorate : UInt64 → Electorate) :
    List (String × Status) :=
  (c.proposals.filter fun p =>
    p.settledStatus now electorate c.rules ≠ p.status).map fun p =>
      (p.id, p.settledStatus now electorate c.rules)

/-! ## Views -/

/-- All proposals with their statuses as of `now`. -/
def proposalsAt (c : Council) (now : UInt64)
    (electorate : UInt64 → Electorate) : List Proposal :=
  c.proposals.map (·.asOf now electorate c.rules)

/-- A proposal with its status as of `now`. -/
def proposalAt (c : Council) (id : String) (now : UInt64)
    (electorate : UInt64 → Electorate) : Except Rejection Proposal :=
  (c.proposal id).map (·.asOf now electorate c.rules)

/-- How many proposals have been paid out. -/
def fundedCount (c : Council) : Nat :=
  (c.proposals.filter (·.fundedBy.isSome)).length

end Council
end CouncilLedger
