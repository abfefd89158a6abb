import CouncilLedger.Digest
import CouncilLedger.SortedMap

/-!
# Delegations

An account may lend its whole voting power to another for a time. A book of
delegations keeps the latest one of each delegator.
-/

namespace CouncilLedger

/-- Voting power lent from one account to another for a time. -/
structure Delegation where
  delegator : String
  delegate : String
  startsAt : UInt64
  endsAt : UInt64
  revokedAt : Option UInt64
  transaction : Digest
deriving DecidableEq

namespace Delegation

/-- The longest that a delegation lasts: a year of seconds. -/
def maxDuration : UInt64 := 31536000

/-- Whether a delegation is in force at a time: from its start up to its end or
its revocation. -/
def isActiveAt (d : Delegation) (t : UInt64) : Bool :=
  d.startsAt ≤ t && t < d.endsAt && d.revokedAt.all (t < ·)

end Delegation

/-- The latest delegation of each delegator. -/
abbrev Delegations := SortedMap String Delegation

namespace Delegations

/-- To whom an account lends its power at a time. -/
def delegateOf? (ds : Delegations) (delegator : String) (t : UInt64) :
    Option String :=
  ((ds.get? delegator).filter (·.isActiveAt t)).map (·.delegate)

/-- The delegations in force at a time, by delegator. -/
def active (ds : Delegations) (t : UInt64) : List Delegation :=
  ds.values.filter (·.isActiveAt t)

/-- The delegations to an account that are in force at a time. -/
def toDelegate (ds : Delegations) (delegate : String) (t : UInt64) :
    List Delegation :=
  ds.values.filter fun d => d.delegate = delegate && d.isActiveAt t

end Delegations
end CouncilLedger
