import CouncilLedger.Chain
import CouncilLedger.Proofs.Council

/-!
# What a transaction does

`Acted` lists, for each kind of action, what follows from its success: who may
send it, and which operation of the accounts or of the council gave the new
state. Invariants of the ledger are proved by cases on it, and carried through
the transactions of a block by `applyBlock_induction`.
-/

namespace CouncilLedger

open Outcome

/-! ## Accounts -/

namespace Accounts

variable {a a' : Accounts}

theorem useNonce_ok {address : String} {nonce : UInt64}
    (h : a.useNonce address nonce = .ok a') :
    nonce = a.nonce address ∧
      a' =
        { a with nonces := a.nonces.insert address (a.nonce address + 1) } := by
  unfold useNonce at h
  split at h
  · next hnonce => exact ⟨hnonce, (Except.ok.inj h).symm⟩
  · cases h

theorem mint_ok {recipient : String} {amount : Amount}
    (h : a.mint recipient amount = .ok a') :
    amount ≠ 0 ∧ ∃ supply credited, Amount.add? a.supply amount = some supply ∧
      Amount.add? (a.balance recipient) amount = some credited ∧
      a' =
        { a with
          balances := a.balances.insert recipient credited, supply } := by
  rw [mint, guard_eq_ok] at h
  obtain ⟨hamount, h⟩ := h
  split at h
  · cases h
  · next supply hsupply =>
    split at h
    · cases h
    · next credited hcredited =>
      exact ⟨hamount, supply, credited, hsupply, hcredited,
        (Except.ok.inj h).symm⟩

/-- A move to oneself changes nothing; any other moves what the sender has. -/
theorem move_ok {sender recipient : String} {amount : Amount}
    (h : a.move sender recipient amount = .ok a') :
    amount ≠ 0 ∧ amount ≤ a.balance sender ∧
      (sender = recipient ∧ a' = a ∨
        sender ≠ recipient ∧
        ∃ credited, Amount.add? (a.balance recipient) amount = some credited ∧
          a' = { a with
            balances :=
              (a.balances.insert sender (a.balance sender - amount)).insert
                recipient credited }) := by
  simp only [move, guard_eq_ok, UInt64.not_lt] at h
  obtain ⟨hamount, hheld, h⟩ := h
  refine ⟨hamount, hheld, ?_⟩
  split at h
  · next hself => exact .inl ⟨hself, (Except.ok.inj h).symm⟩
  · next hother =>
    split at h
    · cases h
    · next credited hcredited =>
      exact .inr ⟨hother, credited, hcredited, (Except.ok.inj h).symm⟩

theorem transfer_ok {sender recipient : String} {amount : Amount}
    (h : a.transfer sender recipient amount = .ok a') :
    sender ≠ Address.treasury ∧ recipient ≠ Address.treasury ∧
      a.move sender recipient amount = .ok a' := by
  rw [transfer, guard_eq_ok, not_or] at h
  exact ⟨h.1.1, h.1.2, h.2⟩

theorem payOut_ok {recipient : String} {amount : Amount} {p : Proposal}
    (h : a.payOut recipient amount p = .ok a') :
    p.status = .passed ∧ a.move Address.treasury recipient amount = .ok a' := by
  rw [payOut, guard_eq_ok, ne_eq, not_not] at h
  exact h

end Accounts

/-! ## Actions -/

namespace Ledger

/-- Anything but a mint is sent after the first block, and by no reserved
account. -/
structure MaySend (t : Transaction) (height : UInt64) : Prop where
  late : height ≠ 0
  unreserved : Address.isReserved t.sender = false

/-- The ledger after the action of a transaction that succeeded. -/
inductive Acted (height now : UInt64) (l : Ledger) (t : Transaction) :
    Ledger → Prop where
  | mint {recipient : String} {amount : Amount} {accounts : Accounts}
      (action : t.action = .mint recipient amount) (first : height = 0)
      (sender : t.sender = Address.genesis)
      (address : Address.check recipient = .ok ())
      (ok : l.accounts.mint recipient amount = .ok accounts) :
      Acted height now l t { l with accounts }
  | transfer {recipient : String} {amount : Amount} {accounts : Accounts}
      (action : t.action = .transfer recipient amount) (may : MaySend t height)
      (sender : Address.check t.sender = .ok ())
      (address : Address.check recipient = .ok ())
      (ok : l.accounts.transfer t.sender recipient amount = .ok accounts) :
      Acted height now l t { l with accounts }
  | propose {draft : Draft} {council : Council}
      (action : t.action = .propose draft) (may : MaySend t height)
      (sender : Address.check t.sender = .ok ())
      (ok : l.council.propose t.hash.hex t.sender draft
        (l.accounts.balance t.sender) now height = .ok council) :
      Acted height now l t { l with council }
  | vote {text id : String} {choice : Choice} {p : Proposal} {council : Council}
      (action : t.action = .vote text choice) (may : MaySend t height)
      (names : Council.normalizeId text = .ok id)
      (found : l.council.proposal? id = some p)
      (ok : l.council.vote id t.sender choice
        (l.standing.backing t.sender now p) now
        (fun _ => l.standing.electorateAt now) t.hash = .ok council) :
      Acted height now l t { l with council }
  | payOut {text id recipient : String} {amount : Amount} {council : Council}
      {p : Proposal} {accounts : Accounts}
      (action : t.action = .payOut text recipient amount)
      (may : MaySend t height) (names : Council.normalizeId text = .ok id)
      (address : Address.check recipient = .ok ())
      (authorized : l.council.authorizePayout id recipient amount now
        l.standing.electorateAt t.hash = .ok council)
      (found : council.proposal? id = some p)
      (ok : l.accounts.payOut recipient amount p = .ok accounts) :
      Acted height now l t { accounts, council }
  | delegate {holder : String} {duration : UInt64} {council : Council}
      (action : t.action = .delegate holder duration) (may : MaySend t height)
      (address : Address.check holder = .ok ())
      (ok : l.council.delegate t.sender holder duration
        (l.accounts.balance t.sender) (l.accounts.isKnown holder) now
        t.hash = .ok council) :
      Acted height now l t { l with council }
  | revoke {council : Council}
      (action : t.action = .revoke) (may : MaySend t height)
      (ok : l.council.revoke t.sender now = .ok council) :
      Acted height now l t { l with council }

theorem wellFormed_eq_ok {α : Type} {x : Except FormatFault α} {a : α} :
    wellFormed x = .ok a ↔ x = .ok a := by
  cases x <;> simp [wellFormed]

variable {height now : UInt64} {l l' : Ledger} {t : Transaction}

theorem mint_ok {recipient : String} {amount : Amount}
    (h : l.mint t height recipient amount = .ok l') :
    height = 0 ∧ t.sender = Address.genesis ∧ Address.check recipient = .ok () ∧
      ∃ accounts, l.accounts.mint recipient amount = .ok accounts ∧
        l' = { l with accounts } := by
  simp only [mint, throw_bind, guard_eq_ok, bind_eq_ok, wellFormed_eq_ok,
    pure_eq_ok, ne_eq, not_not] at h
  obtain ⟨hheight, hsender, ⟨⟩, haddress, accounts, hok, rfl⟩ := h
  exact ⟨hheight, hsender, haddress, accounts, hok, rfl⟩

/-- Whatever an action does is in the list. -/
theorem acted_of_act (h : l.act t height now = .ok l') :
    Acted height now l t l' := by
  unfold act at h
  split at h
  · next recipient amount haction =>
    obtain ⟨hheight, hsender, haddress, accounts, hok, rfl⟩ := mint_ok h
    exact .mint haction hheight hsender haddress hok
  · next hother =>
    simp only [guard_eq_ok] at h
    obtain ⟨hlate, hreserved, h⟩ := h
    -- every kind but a mint has passed the same two guards
    have hmay : MaySend t height := ⟨hlate, by simpa using hreserved⟩
    cases haction : t.action with
    | mint recipient amount => exact absurd haction (hother recipient amount)
    | transfer recipient amount =>
      simp only [haction, transfer, bind_eq_ok, wellFormed_eq_ok,
        pure_eq_ok] at h
      obtain ⟨⟨⟩, hsender, ⟨⟩, haddress, accounts, hok, rfl⟩ := h
      exact .transfer haction hmay hsender haddress hok
    | propose draft =>
      simp only [haction, propose, bind_eq_ok, wellFormed_eq_ok, pure_eq_ok] at h
      obtain ⟨⟨⟩, hsender, council, hok, rfl⟩ := h
      exact .propose haction hmay hsender hok
    | vote text choice =>
      simp only [haction, vote, bind_eq_ok, wellFormed_eq_ok, pure_eq_ok,
        Council.proposal_eq_ok] at h
      obtain ⟨id, hid, p, hp, council, hok, rfl⟩ := h
      exact .vote haction hmay hid hp hok
    | payOut text recipient amount =>
      simp only [haction, payOut, bind_eq_ok, wellFormed_eq_ok, pure_eq_ok,
        Council.proposal_eq_ok] at h
      obtain ⟨id, hid, ⟨⟩, haddress, council, hauthorized, p, hp,
        accounts, hok, rfl⟩ := h
      exact .payOut haction hmay hid haddress hauthorized hp hok
    | delegate holder duration =>
      simp only [haction, delegate, bind_eq_ok, wellFormed_eq_ok,
        pure_eq_ok] at h
      obtain ⟨⟨⟩, haddress, council, hok, rfl⟩ := h
      exact .delegate haction hmay haddress hok
    | revoke =>
      simp only [haction, revoke, bind_eq_ok, pure_eq_ok] at h
      obtain ⟨council, hok, rfl⟩ := h
      exact .revoke haction hmay hok

/-- What `Acted` says of an action is all that it needs. -/
theorem act_of_acted (h : Acted height now l t l') :
    l.act t height now = .ok l' := by
  cases h with
  | mint action first sender address ok =>
    simp [act, action, mint, first, sender, address, ok, wellFormed, pure,
      Except.pure, bind, Except.bind]
  | transfer action may sender address ok =>
    simp [act, action, may.late, may.unreserved, transfer, sender, address, ok,
      wellFormed, pure, Except.pure, bind, Except.bind]
  | propose action may sender ok =>
    simp [act, action, may.late, may.unreserved, propose, sender, ok,
      wellFormed, pure, Except.pure, bind, Except.bind]
  | vote action may names found ok =>
    simp [act, action, may.late,
      may.unreserved, vote, names, Council.proposal_eq_ok.mpr found, ok,
      wellFormed, pure, Except.pure, bind, Except.bind]
  | payOut action may names address authorized found ok =>
    simp [act, action, may.late, may.unreserved, payOut, names, address,
      authorized, Council.proposal_eq_ok.mpr found, ok, wellFormed, pure,
      Except.pure, bind, Except.bind]
  | delegate action may address ok =>
    simp [act, action, may.late, may.unreserved, delegate, address, ok,
      wellFormed, pure, Except.pure, bind, Except.bind]
  | revoke action may ok =>
    simp [act, action, may.late, may.unreserved, revoke, ok, pure, Except.pure,
      bind, Except.bind]

/-- The ledger after the next nonce of an account is used up. -/
def withNonceUsed (l : Ledger) (address : String) : Ledger :=
  { l with accounts := { l.accounts with
    nonces := l.accounts.nonces.insert address (l.accounts.nonce address + 1) } }

/-- A transaction carries the next nonce of its sender, which is used up before
it acts. -/
theorem apply_ok (h : apply height now l t = .ok l') :
    t.nonce = l.accounts.nonce t.sender ∧
      Acted height now (l.withNonceUsed t.sender) t l' := by
  obtain ⟨accounts, haccounts, hact⟩ := bind_eq_ok.mp h
  obtain ⟨hnonce, rfl⟩ := Accounts.useNonce_ok haccounts
  exact ⟨hnonce, acted_of_act hact⟩

/-! ## Blocks -/

theorem applyBlock_ok {b : Block} (h : l.applyBlock b = .ok l') :
    ∃ m,
      b.transactions.foldlM (apply b.height b.timestamp)
          (l.settle b.timestamp) =
        .ok m ∧ l' = m.settle b.timestamp := by
  obtain ⟨m, hm, h⟩ := bind_eq_ok.mp h
  exact ⟨m, hm, (pure_eq_ok.mp h).symm⟩

/-- **What a block keeps**: a property that settlement and every transaction
keep holds after the block. -/
theorem applyBlock_induction {P : Ledger → Prop} {b : Block}
    (h : l.applyBlock b = .ok l') (hl : P l)
    (settles : ∀ m, P m → P (m.settle b.timestamp))
    (applies : ∀ t ∈ b.transactions, ∀ m m', P m →
      apply b.height b.timestamp m t = .ok m' → P m') : P l' := by
  obtain ⟨m, hm, rfl⟩ := applyBlock_ok h
  exact settles m (foldlM_induction hm (settles l hl) applies)

/-- The same for a property of the ledger and of all transactions so far. -/
theorem applyBlock_append_induction {P : List Transaction → Ledger → Prop}
    {b : Block} {ts : List Transaction} (h : l.applyBlock b = .ok l')
    (hl : P ts l) (settles : ∀ ts m, P ts m → P ts (m.settle b.timestamp))
    (applies : ∀ ts, ∀ t ∈ b.transactions, ∀ m m', P ts m →
      apply b.height b.timestamp m t = .ok m' → P (ts ++ [t]) m') :
    P (ts ++ b.transactions) l' := by
  obtain ⟨m, hm, rfl⟩ := applyBlock_ok h
  exact settles _ m (foldlM_append_induction hm (settles ts l hl) applies)

/-- What one step of a block does to a ledger, from the ledger `l` before the
block on: it settles proposals, applies a transaction, or settles again. -/
inductive Stage (b : Block) (l : Ledger) : Ledger → Ledger → Prop where
  | opening : Stage b l l (l.settle b.timestamp)
  | acting {before : List Transaction} {t : Transaction}
      {rest : List Transaction} {m m' : Ledger}
      (split : b.transactions = before ++ t :: rest)
      (reached : before.foldlM (apply b.height b.timestamp)
        (l.settle b.timestamp) = .ok m)
      (ok : apply b.height b.timestamp m t = .ok m') : Stage b l m m'
  | closing {m : Ledger}
      (reached : b.transactions.foldlM (apply b.height b.timestamp)
        (l.settle b.timestamp) = .ok m) :
      Stage b l m (m.settle b.timestamp)

/-- What every step of a block keeps holds of all that the first of its
transactions lead to. -/
theorem foldlM_stage_induction {P : Ledger → Prop} {b : Block} (hl : P l)
    (step : ∀ m m', Stage b l m m' → P m → P m')
    {before rest : List Transaction} {m : Ledger}
    (hsplit : b.transactions = before ++ rest)
    (hm : before.foldlM (apply b.height b.timestamp) (l.settle b.timestamp) =
      .ok m) : P m := by
  induction before using List.reverseRecOn generalizing rest m with
  | nil =>
    rw [← pure_eq_ok.mp hm]
    exact step _ _ .opening hl
  | append_singleton init t ih =>
    obtain ⟨k, hk, ht⟩ := foldlM_snoc_eq_ok.mp hm
    rw [List.append_assoc, List.singleton_append] at hsplit
    exact step k m (.acting hsplit hk ht) (ih hsplit hk)

/-- What every step of a block keeps holds after the block. -/
theorem applyBlock_stage_induction {P : Ledger → Prop} {b : Block}
    (h : l.applyBlock b = .ok l') (hl : P l)
    (step : ∀ m m', Stage b l m m' → P m → P m') : P l' := by
  obtain ⟨m, hm, rfl⟩ := applyBlock_ok h
  exact step _ _ (.closing hm)
    (foldlM_stage_induction hl step (List.append_nil _).symm hm)

/-- What every step of a block keeps holds before each of them. -/
theorem Stage.induction {P : Ledger → Prop} {b : Block} {m m' : Ledger}
    (h : Stage b l m m') (hl : P l)
    (step : ∀ m m', Stage b l m m' → P m → P m') : P m := by
  cases h with
  | opening => exact hl
  | acting split reached _ => exact foldlM_stage_induction hl step split reached
  | closing reached =>
    exact foldlM_stage_induction hl step (List.append_nil _).symm reached

/-! ## Rules -/

/-- No action changes the rules. -/
theorem Acted.rules (h : Acted height now l t l') :
    l'.council.rules = l.council.rules := by
  cases h with
  | mint => rfl
  | transfer => rfl
  | propose _ _ _ ok => rw [(Council.propose_ok ok).2.2.2]
  | vote _ _ _ _ ok =>
    obtain ⟨p, -, -, -, -, -, rfl⟩ := Council.vote_ok ok
    rfl
  | payOut _ _ _ _ authorized =>
    obtain ⟨p, -, -, -, -, -, rfl⟩ := Council.authorizePayout_ok authorized
    rfl
  | delegate _ _ _ ok =>
    obtain ⟨-, -, -, -, -, -, -, -, -, rfl⟩ := Council.delegate_ok ok
    rfl
  | revoke _ _ ok =>
    obtain ⟨d, -, -, rfl⟩ := Council.revoke_ok ok
    rfl

theorem Stage.rules {b : Block} {m m' : Ledger} (h : Stage b l m m') :
    m'.council.rules = m.council.rules := by
  cases h with
  | opening | closing => rfl
  | acting _ _ ok => exact (apply_ok ok).2.rules

theorem applyBlock_rules {b : Block} (h : l.applyBlock b = .ok l') :
    l'.council.rules = l.council.rules :=
  applyBlock_stage_induction (P := fun m => m.council.rules = l.council.rules) h
    rfl fun _ _ hstage hm => hstage.rules.trans hm

end Ledger
end CouncilLedger
