import CouncilLedger.Archive
import CouncilLedger.Council

/-!
# The chain

The blocks and all that follows from them: accounts, governance and the tip. A
block commits as a whole or not at all.

Statuses of proposals are settled by blocks: before the transactions of a block
every proposal whose deadline its timestamp has reached is closed, and after
them what is then certain is recorded. So the same blocks always lead to the
same statuses.
-/

namespace CouncilLedger

/-- The block that was appended last. -/
structure Tip where
  height : UInt64
  hash : Digest
  timestamp : UInt64
deriving DecidableEq

/-- The outcome of a committed write. -/
structure Receipt where
  transaction : Digest
  block : Digest
  height : UInt64
  kind : ActionKind
deriving DecidableEq

/-- A chain of blocks with the state it leads to. -/
structure Chain where
  archive : Archive
  accounts : Accounts
  council : Council
  tip : Option Tip
deriving DecidableEq

/-- The part of the state that transactions change. -/
structure Ledger where
  accounts : Accounts
  council : Council
deriving DecidableEq

namespace Ledger

/-- The accounts seen through the delegations. -/
def standing (l : Ledger) : Standing := ⟨l.accounts, l.council.delegations⟩

/-- Record the statuses that are settled at `now`. -/
def settle (l : Ledger) (now : UInt64) : Ledger :=
  { l with council := l.council.settle now l.standing.electorateAt }

/-! ## Transactions -/

/-- A malformed identifier is a reason to refuse. -/
def wellFormed {α : Type} : Except FormatFault α → Except Rejection α
  | .ok a => .ok a
  | .error fault => .error (.invalidFormat fault)

/-- Create tokens, which only the first block may do. -/
def mint (l : Ledger) (t : Transaction) (height : UInt64) (recipient : String)
    (amount : Amount) : Except Rejection Ledger := do
  if height ≠ 0 then throw (.invalidBlock (.lateMint t.hash))
  if t.sender ≠ Address.genesis then throw (.unauthorized (.cannotMint t.sender))
  wellFormed (Address.check recipient)
  return { l with accounts := ← l.accounts.mint recipient amount }

/-- Move tokens. -/
def transfer (l : Ledger) (t : Transaction) (recipient : String)
    (amount : Amount) : Except Rejection Ledger := do
  wellFormed (Address.check t.sender)
  wellFormed (Address.check recipient)
  return { l with accounts := ← l.accounts.transfer t.sender recipient amount }

/-- Open a proposal under the hash of the transaction. -/
def propose (l : Ledger) (t : Transaction) (height now : UInt64)
    (draft : Draft) : Except Rejection Ledger := do
  wellFormed (Address.check t.sender)
  let balance := l.accounts.balance t.sender
  let council ← l.council.propose t.hash.hex t.sender draft balance now height
  return { l with council }

/-- Vote with all that stands behind the sender. -/
def vote (l : Ledger) (t : Transaction) (now : UInt64) (id : String)
    (choice : Choice) : Except Rejection Ledger := do
  let id ← wellFormed (Council.normalizeId id)
  let p ← l.council.proposal id
  let backing := l.standing.backing t.sender now p
  let electorate := l.standing.electorateAt now
  let council ← l.council.vote id t.sender choice backing now
    (fun _ => electorate) t.hash
  return { l with council }

/-- Pay out of the treasury what a passed proposal asks for. -/
def payOut (l : Ledger) (t : Transaction) (now : UInt64) (id recipient : String)
    (amount : Amount) : Except Rejection Ledger := do
  let id ← wellFormed (Council.normalizeId id)
  wellFormed (Address.check recipient)
  let council ← l.council.authorizePayout id recipient amount now
    l.standing.electorateAt t.hash
  let p ← council.proposal id
  return { accounts := ← l.accounts.payOut recipient amount p, council }

/-- Lend voting power. -/
def delegate (l : Ledger) (t : Transaction) (now : UInt64) (holder : String)
    (duration : UInt64) : Except Rejection Ledger := do
  wellFormed (Address.check holder)
  let council ← l.council.delegate t.sender holder duration
    (l.accounts.balance t.sender) (l.accounts.isKnown holder) now t.hash
  return { l with council }

/-- End the sender's delegation. -/
def revoke (l : Ledger) (t : Transaction) (now : UInt64) :
    Except Rejection Ledger := do
  return { l with council := ← l.council.revoke t.sender now }

/-- Apply the action of a transaction in a block of `height` at time `now`. The
first block holds mints only, and reserved accounts send nothing else. -/
def act (l : Ledger) (t : Transaction) (height now : UInt64) :
    Except Rejection Ledger :=
  match t.action with
  | .mint recipient amount => l.mint t height recipient amount
  | action =>
    if height = 0 then .error (.invalidBlock (.genesisAction t.kind))
    else if Address.isReserved t.sender then
      .error (.unauthorized (.reservedSender t.sender t.kind))
    else match action with
      | .mint recipient amount => l.mint t height recipient amount
      | .transfer recipient amount => l.transfer t recipient amount
      | .propose draft => l.propose t height now draft
      | .vote id choice => l.vote t now id choice
      | .payOut id recipient amount => l.payOut t now id recipient amount
      | .delegate holder duration => l.delegate t now holder duration
      | .revoke => l.revoke t now

/-- Apply a transaction: its nonce is used up, then its action takes place. -/
def apply (height now : UInt64) (l : Ledger) (t : Transaction) :
    Except Rejection Ledger := do
  let accounts ← l.accounts.useNonce t.sender t.nonce
  { l with accounts }.act t height now

/-- Apply the transactions of a block between two settlements. -/
def applyBlock (l : Ledger) (b : Block) : Except Rejection Ledger := do
  return (← b.transactions.foldlM (apply b.height b.timestamp)
    (l.settle b.timestamp)).settle b.timestamp

end Ledger

namespace Chain

/-- A chain without blocks. -/
def empty (rules : Rules) : Chain := ⟨.empty, .empty, .ofRules rules, none⟩

instance : Inhabited Chain := ⟨empty {}⟩

/-- The part of the state that transactions change. -/
def ledger (c : Chain) : Ledger := ⟨c.accounts, c.council⟩

/-- The accounts seen through the delegations. -/
def standing (c : Chain) : Standing := ⟨c.accounts, c.council.delegations⟩

/-- The height of the tip. -/
def height (c : Chain) : UInt64 := (c.tip.map (·.height)).getD 0

/-! ## Committing blocks -/

/-- Check that a block extends the tip. -/
def checkLink (c : Chain) (b : Block) : Except Rejection Unit :=
  let expectedHeight := (c.tip.map (·.height + 1)).getD 0
  let expectedParent := c.tip.map (·.hash)
  if b.height ≠ expectedHeight ∨ b.parent ≠ expectedParent then
    .error (.fork expectedHeight expectedParent b.height b.parent)
  else match c.tip with
    | some tip =>
      if b.timestamp < tip.timestamp then
        .error (.invalidBlock (.timestampPrecedes b.timestamp tip.timestamp))
      else .ok ()
    | none => .ok ()

/-- The ledger after a block, if the block passes every check. -/
def validate (c : Chain) (b : Block) : Except Rejection Ledger := do
  b.check
  c.checkLink b
  c.archive.check b
  c.ledger.applyBlock b

/-- The chain with a block on top that leads to `after`. -/
def extend (c : Chain) (b : Block) (after : Ledger) :
    Except Rejection Chain := do
  return {
    archive := ← c.archive.add b
    accounts := after.accounts
    council := after.council
    tip := some ⟨b.height, b.hash, b.timestamp⟩ }

/-- Commit a block. -/
def commit (c : Chain) (b : Block) : Except Rejection Chain := do
  c.extend b (← c.validate b)

/-! ## Making blocks -/

/-- The block that takes an action of a sender onto the tip, as the clock reads
`clock`. Its time is never before that of the tip. -/
def blockFor (c : Chain) (clock : UInt64) (sender : String) (action : Action) :
    Except Rejection (Transaction × Block) := do
  Ledger.wellFormed (Address.check sender)
  match c.tip with
  | none => throw (.invalidBlock .chainIsEmpty)
  | some tip =>
    let timestamp := max clock tip.timestamp
    let t :=
      Transaction.ofAction sender (c.accounts.nonce sender) timestamp action
    return (t, .build (tip.height + 1) (some tip.hash) timestamp [t])

/-- The receipt of a transaction in a block. -/
def receipt (t : Transaction) (b : Block) : Receipt :=
  ⟨t.hash, b.hash, b.height, t.kind⟩

/-- The empty block that closes the proposals that are due as the clock reads
`clock`, with their number; there is none when none is due. -/
def closingBlock (c : Chain) (clock : UInt64) :
    Except Rejection (Option (Nat × Block)) :=
  match c.tip with
  | none => .error (.invalidBlock .chainIsEmpty)
  | some tip =>
    let now := max clock tip.timestamp
    let due := (c.council.settling now c.standing.electorateAt).length
    if due = 0 then .ok none
    else .ok (some (due, .build (tip.height + 1) (some tip.hash) now []))

end Chain
end CouncilLedger
