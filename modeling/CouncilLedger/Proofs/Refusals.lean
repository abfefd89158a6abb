import CouncilLedger.Proofs.Making

/-!
# Why operations are refused

A block is refused for its place, where it does not fit onto the chain, or for
what one of its transactions asks for. The checks of a block know the first kind
of reasons only, and the operations of the council only the second. What an
action is refused for is stated once for any class of reasons that has the
second kind: `Ledger.act_refuses`.
-/

namespace CouncilLedger

namespace Rejection

/-- The reasons for which a block does not fit onto a chain, whatever its
transactions ask for. -/
def isOfPlace : Rejection → Bool
  | fork .. | invalidNonce .. | invalidBlock _ | duplicateKey _
  | duplicateTransaction _ => true
  | _ => false

/-- The reasons for which what a transaction asks for is refused, other than its
amount. -/
def isOfAction : Rejection → Bool
  | invalidFormat _ | notFound _ | duplicateVote .. | insufficientBalance ..
  | invalidProposal _ | invalidDelegation _ | proposalClosed _
  | unauthorized _ => true
  | _ => false

end Rejection

/-! ## Classes of reasons -/

/-- An operation is refused for reasons of one class only. -/
def RefusesOnly (P : Rejection → Prop) {α : Type} (x : Except Rejection α) :
    Prop :=
  ∀ r, x = .error r → P r

namespace RefusesOnly

variable {α β : Type} {P Q : Rejection → Prop} {x : Except Rejection α}

theorem ok (a : α) : RefusesOnly P (.ok a) := nofun

theorem error {r : Rejection} (hr : P r) :
    RefusesOnly P (.error r : Except Rejection α) :=
  fun _ h => Except.error.inj h ▸ hr

theorem bind {f : α → Except Rejection β} (hx : RefusesOnly P x)
    (hf : ∀ a, x = .ok a → RefusesOnly P (f a)) : RefusesOnly P (x >>= f) := by
  intro r h
  rcases Outcome.bind_eq_error.mp h with h | ⟨a, ha, h⟩
  · exact hx r h
  · exact hf a ha r h

theorem guard {p : Prop} [Decidable p] {r : Rejection} (hr : p → P r)
    (hx : RefusesOnly P x) : RefusesOnly P (if p then .error r else x) := by
  split
  · next hp => exact error (hr hp)
  · exact hx

theorem forM {f : α → Except Rejection Unit} (hf : ∀ a, RefusesOnly P (f a))
    {l : List α} : RefusesOnly P (l.forM f) := by
  induction l with
  | nil => exact .ok ()
  | cons a rest ih => exact .bind (hf a) fun _ _ => ih

theorem map (hx : RefusesOnly P x) (f : α → β) : RefusesOnly P (x.map f) :=
  fun r h => hx r (Outcome.map_eq_error.mp h)

theorem mono (hx : RefusesOnly P x) (h : ∀ r, P r → Q r) : RefusesOnly Q x :=
  fun r hr => h r (hx r hr)

end RefusesOnly

/-! ## The place of a block -/

section

variable (a : Archive) (c : Chain) (b : Block)

theorem Block.check_refuses : RefusesOnly (·.isOfPlace) b.check := by
  refine .bind ?_ fun _ _ => .guard (fun _ => rfl) (.forM fun t => ?_)
  · unfold checkParent
    split
    · exact .guard (fun _ => rfl) (.ok _)
    · split
      · exact .ok _
      · exact .error rfl
  · exact .guard (fun _ => rfl) (.guard (fun _ => rfl) (.ok _))

theorem Chain.checkLink_refuses :
    RefusesOnly (·.isOfPlace) (c.checkLink b) := by
  refine .guard (fun _ => rfl) ?_
  split
  · exact .guard (fun _ => rfl) (.ok _)
  · exact .ok _

theorem Archive.checkTransactions_refuses (block : Digest) (seen : List Digest)
    (ts : List Transaction) :
    RefusesOnly (·.isOfPlace) (a.checkTransactions block seen ts) := by
  induction ts generalizing seen with
  | nil => exact .ok _
  | cons t rest ih => exact .guard (fun _ => rfl) (ih _)

theorem Archive.check_refuses : RefusesOnly (·.isOfPlace) (a.check b) := by
  refine .guard (fun _ => rfl) ?_
  split
  · exact .error rfl
  · exact a.checkTransactions_refuses _ _ _

end

/-! ## The council -/

namespace Council

variable (c : Council)

theorem proposal_refuses (id : String) :
    RefusesOnly (·.isOfAction) (c.proposal id) := by
  unfold proposal
  split
  · exact .ok _
  · exact .error rfl

theorem propose_refuses (id creator : String) (draft : Draft) (balance : Amount)
    (now height : UInt64) :
    RefusesOnly (·.isOfAction)
      (c.propose id creator draft balance now height) := by
  unfold propose
  split
  · exact .error rfl
  · exact .guard (fun _ => rfl) (.guard (fun _ => rfl) (.ok _))

theorem vote_refuses (id voter : String) (choice : Choice) (backing : Backing)
    (now : UInt64) (electorate : UInt64 → Electorate) (transaction : Digest) :
    RefusesOnly (·.isOfAction)
      (c.vote id voter choice backing now electorate transaction) := by
  unfold vote
  split
  · exact .error rfl
  · refine .bind (c.proposal_refuses id) fun p _ => ?_
    refine .guard (fun _ => rfl) (.guard (fun _ => rfl) ?_)
    exact .bind (.guard (fun _ => rfl) (.guard (fun _ => rfl) (.ok _)))
      fun _ _ => .ok _

theorem authorizePayout_refuses (id recipient : String) (amount : Amount)
    (now : UInt64) (electorate : UInt64 → Electorate) (transaction : Digest) :
    RefusesOnly (·.isOfAction)
      (c.authorizePayout id recipient amount now electorate transaction) := by
  refine .bind (c.proposal_refuses id) fun p _ => ?_
  refine .guard (fun _ => rfl) (.guard (fun _ => rfl) ?_)
  dsimp only
  split
  · exact .error rfl
  · split
    · exact .error rfl
    · exact .guard (fun _ => rfl) (.ok _)

theorem delegate_refuses (delegator delegate : String) (duration : UInt64)
    (balance : Amount) (known : Bool) (now : UInt64) (transaction : Digest) :
    RefusesOnly (·.isOfAction) (c.delegate delegator delegate duration balance
      known now transaction) := by
  refine .guard (fun _ => rfl) (.guard (fun _ => rfl) (.guard (fun _ => rfl) ?_))
  refine .guard (fun _ => rfl) (.guard (fun _ => rfl) ?_)
  dsimp only
  split
  · exact .error rfl
  · refine .guard (fun _ => rfl) ?_
    split
    · exact .error rfl
    · exact .ok _

theorem revoke_refuses (delegator : String) (now : UInt64) :
    RefusesOnly (·.isOfAction) (c.revoke delegator now) := by
  unfold revoke
  split
  · exact .error rfl
  · exact .ok _

end Council

/-! ## Actions -/

namespace Ledger

theorem wellFormed_refuses {α : Type} (x : Except FormatFault α) :
    RefusesOnly (·.isOfAction) (wellFormed x) := by
  cases x with
  | error fault => exact .error rfl
  | ok a => exact .ok a

/-- **What an action is refused for**: reasons of what is asked, and those for
which the accounts refuse to mint or move. -/
theorem act_refuses {P : Rejection → Prop} {l : Ledger} {t : Transaction}
    {height now : UInt64} (asked : ∀ r, r.isOfAction = true → P r)
    (mint : ∀ recipient amount, t.action = .mint recipient amount →
      RefusesOnly P (l.mint t height recipient amount))
    (move : ∀ sender recipient amount,
      RefusesOnly P (l.accounts.move sender recipient amount))
    (first : height = 0 → P (.invalidBlock (.genesisAction t.kind))) :
    RefusesOnly P (l.act t height now) := by
  have hformat {α : Type} (x : Except FormatFault α) :
      RefusesOnly P (wellFormed x) :=
    (wellFormed_refuses x).mono asked
  have hcouncil {α : Type} {x : Except Rejection α}
      (hx : RefusesOnly (·.isOfAction) x) : RefusesOnly P x := hx.mono asked
  unfold act
  split
  · next recipient amount haction => exact mint recipient amount haction
  · next hother =>
    refine .guard first (.guard (fun _ => asked _ rfl) ?_)
    cases haction : t.action with
    | mint recipient amount => exact mint recipient amount haction
    | transfer recipient amount =>
      refine .bind (hformat _) fun _ _ => .bind (hformat _) fun _ _ =>
        .bind ?_ fun _ _ => .ok _
      exact .guard (fun _ => asked _ rfl) (move _ _ _)
    | propose draft =>
      refine .bind (hformat _) fun _ _ => .bind ?_ fun _ _ => .ok _
      exact hcouncil (l.council.propose_refuses _ _ _ _ _ _)
    | vote text choice =>
      refine .bind (hformat _) fun id _ =>
        .bind (hcouncil (l.council.proposal_refuses id)) ?_
      exact fun _ _ => .bind (hcouncil (l.council.vote_refuses _ _ _ _ _ _ _))
        fun _ _ => .ok _
    | payOut text recipient amount =>
      refine .bind (hformat _) fun id _ => .bind (hformat _) fun _ _ =>
        .bind ?_ fun council _ => ?_
      · exact hcouncil (l.council.authorizePayout_refuses _ _ _ _ _ _)
      · refine .bind (hcouncil (council.proposal_refuses id)) fun _ _ =>
          .bind ?_ fun _ _ => .ok _
        exact .guard (fun _ => asked _ rfl) (move _ _ _)
    | delegate holder duration =>
      refine .bind (hformat _) fun _ _ => .bind ?_ fun _ _ => .ok _
      exact hcouncil (l.council.delegate_refuses _ _ _ _ _ _ _)
    | revoke =>
      exact .bind (hcouncil (l.council.revoke_refuses _ _)) fun _ _ => .ok _

end Ledger
end CouncilLedger
