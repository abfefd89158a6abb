import CouncilLedger.Address
import CouncilLedger.Proposal.Basic
import CouncilLedger.Rejection
import CouncilLedger.SortedMap

/-!
# Accounts

Balances, the next nonce of every sender, and the supply. Every change checks
first: a refused one has no effect, tokens are created by minting only, and the
treasury pays for passed proposals only.
-/

namespace CouncilLedger

/-- What every account holds, and how many transactions it has sent. -/
structure Accounts where
  /-- A balance of zero may be absent. -/
  balances : SortedMap String Amount
  /-- The nonce that the next transaction of an account has to carry. -/
  nonces : SortedMap String UInt64
  supply : Amount
deriving DecidableEq

namespace Accounts

/-- No accounts and no tokens. -/
def empty : Accounts := ⟨.empty, .empty, 0⟩

instance : Inhabited Accounts := ⟨empty⟩

/-! ## Reading -/

/-- What an account holds. -/
def balance (a : Accounts) (address : String) : Amount :=
  a.balances.getD address 0

/-- The nonce that an account sends with next. -/
def nonce (a : Accounts) (address : String) : UInt64 := a.nonces.getD address 0

/-- What the treasury holds. -/
def treasury (a : Accounts) : Amount := a.balance Address.treasury

/-- Whether an account has ever held tokens or sent a transaction. -/
def isKnown (a : Accounts) (address : String) : Bool :=
  a.balances.contains address || a.nonces.contains address

/-- How many accounts hold tokens. -/
def holderCount (a : Accounts) : Nat :=
  (a.balances.values.filter (· != 0)).length

/-- The balances that count for votes: those above zero outside the reserved
accounts. -/
def holdings (a : Accounts) : SortedMap String Amount :=
  a.balances.filter fun address held => held != 0 && !Address.isReserved address

/-! ## Changing -/

/-- Use up the nonce of a sender, which has to be the one that comes next. -/
def useNonce (a : Accounts) (address : String) (nonce : UInt64) :
    Except Rejection Accounts :=
  if nonce = a.nonce address then
    .ok { a with nonces := a.nonces.insert address (a.nonce address + 1) }
  else .error (.invalidNonce address (a.nonce address) nonce)

/-- Create tokens. -/
def mint (a : Accounts) (recipient : String) (amount : Amount) :
    Except Rejection Accounts :=
  if amount = 0 then .error (.invalidAmount .mintOfZero)
  else match Amount.add? a.supply amount with
    | none => .error (.invalidAmount .supplyOverflow)
    | some supply => match Amount.add? (a.balance recipient) amount with
      | none => .error (.invalidAmount (.balanceOverflow recipient))
      | some credited =>
        .ok { a with balances := a.balances.insert recipient credited, supply }

/-- Move tokens between any two accounts. -/
def move (a : Accounts) (sender recipient : String) (amount : Amount) :
    Except Rejection Accounts :=
  if amount = 0 then .error (.invalidAmount .zero)
  else if a.balance sender < amount then
    .error (.insufficientBalance sender (a.balance sender) amount)
  else if sender = recipient then .ok a
  else match Amount.add? (a.balance recipient) amount with
    | none => .error (.invalidAmount (.balanceOverflow recipient))
    | some credited =>
      .ok { a with
        balances := (a.balances.insert sender
          (a.balance sender - amount)).insert recipient credited }

/-- Move tokens between accounts other than the treasury. -/
def transfer (a : Accounts) (sender recipient : String) (amount : Amount) :
    Except Rejection Accounts :=
  if sender = Address.treasury ∨ recipient = Address.treasury then
    .error (.unauthorized .treasuryFunds)
  else a.move sender recipient amount

/-- Move tokens from the treasury to what a proposal is for. -/
def payOut (a : Accounts) (recipient : String) (amount : Amount)
    (p : Proposal) : Except Rejection Accounts :=
  if p.status ≠ .passed then .error (.invalidProposal (.notPassed p.id))
  else a.move Address.treasury recipient amount

end Accounts
end CouncilLedger
