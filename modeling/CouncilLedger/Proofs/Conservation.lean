import CouncilLedger.Proofs.Refusals
import CouncilLedger.Proofs.Run

/-!
# The accounts follow from the blocks

What an account holds is what the transactions of all blocks have brought to it,
less what they have taken from it, in numbers without bound. So the balances add
up to the supply, the supply is what the first block minted, and no sum of
balances ever leaves 64 bits. The invariant is `Ledger.Balanced`; the main
statements are `Ledger.Balanced.applyBlock` and
`Ledger.Balanced.applyBlock_fits`.
-/

namespace CouncilLedger

open Outcome

/-! ## What a transaction moves -/

namespace Transaction

/-- What a transaction brings to an account: a mint, or a transfer or payout to
it. -/
def credit (t : Transaction) (address : String) : Nat :=
  match t.action with
  | .mint recipient amount => if recipient = address then amount.toNat else 0
  | .transfer recipient amount => if recipient = address then amount.toNat else 0
  | .payOut _ recipient amount => if recipient = address then amount.toNat else 0
  | _ => 0

/-- What a transaction takes from an account: a transfer by it, or from the
treasury a payout. -/
def debit (t : Transaction) (address : String) : Nat :=
  match t.action with
  | .transfer _ amount => if t.sender = address then amount.toNat else 0
  | .payOut _ _ amount => if Address.treasury = address then amount.toNat else 0
  | _ => 0

/-- What a transaction creates. -/
def minted (t : Transaction) : Nat :=
  match t.action with
  | .mint _ amount => amount.toNat
  | _ => 0

/-- All that some transactions bring to an account. -/
def received (ts : List Transaction) (address : String) : Nat :=
  (ts.map (·.credit address)).sum

/-- All that some transactions take from an account. -/
def spent (ts : List Transaction) (address : String) : Nat :=
  (ts.map (·.debit address)).sum

/-- All that some transactions create. -/
def created (ts : List Transaction) : Nat := (ts.map minted).sum

theorem received_snoc (ts : List Transaction) (t : Transaction)
    (address : String) :
    received (ts ++ [t]) address = received ts address + t.credit address := by
  simp [received]

theorem spent_snoc (ts : List Transaction) (t : Transaction) (address : String) :
    spent (ts ++ [t]) address = spent ts address + t.debit address := by
  simp [spent]

theorem created_snoc (ts : List Transaction) (t : Transaction) :
    created (ts ++ [t]) = created ts + t.minted := by
  simp [created]

end Transaction

/-! ## Overflow -/

/-- An operation never refuses because a balance would leave 64 bits. -/
def Fits {α : Type} (x : Except Rejection α) : Prop :=
  ∀ address, x ≠ .error (.invalidAmount (.balanceOverflow address))

namespace Fits

variable {α β : Type} {x : Except Rejection α}

theorem ok (a : α) : Fits (.ok a) := fun _ => nofun

theorem error {r : Rejection}
    (hr : ∀ address, r ≠ .invalidAmount (.balanceOverflow address)) :
    Fits (.error r : Except Rejection α) :=
  fun address h => hr address (Except.error.inj h)

theorem iff_refusesOnly :
    Fits x ↔
      RefusesOnly
        (fun r => ∀ address, r ≠ .invalidAmount (.balanceOverflow address))
        x := by
  constructor
  · rintro h r hr address rfl
    exact h address hr
  · exact fun h address hr => h _ hr address rfl

/-- Nothing that is refused for other reasons overflows. -/
theorem of_refusesOnly {P : Rejection → Prop} (h : RefusesOnly P x)
    (hP : ∀ address, ¬ P (.invalidAmount (.balanceOverflow address))) : Fits x :=
  fun address hr => hP address (h _ hr)

theorem bind {f : α → Except Rejection β} (hx : Fits x)
    (hf : ∀ a, x = .ok a → Fits (f a)) : Fits (x >>= f) :=
  iff_refusesOnly.mpr (.bind (iff_refusesOnly.mp hx) fun a ha =>
    iff_refusesOnly.mp (hf a ha))

theorem map (hx : Fits x) (f : α → β) : Fits (x.map f) :=
  iff_refusesOnly.mpr ((iff_refusesOnly.mp hx).map f)

end Fits

/-! ## What an operation moves -/

namespace Accounts

/-- The sum of all balances. -/
def total (a : Accounts) : Nat := a.balances.sumBy UInt64.toNat

variable {a a' : Accounts} {sender recipient : String} {amount : Amount}

/-- Writing a balance trades the old one for the new one. -/
theorem sumBy_insert_amount (m : SortedMap String Amount) (address : String)
    (amount : Amount) :
    (m.insert address amount).sumBy UInt64.toNat + (m.getD address 0).toNat =
      m.sumBy UInt64.toNat + amount.toNat :=
  SortedMap.sumBy_insert_getD (f := UInt64.toNat) (d := 0) rfl m address amount

theorem balance_le_total (a : Accounts) (address : String) :
    (a.balance address).toNat ≤ a.total := by
  rw [balance, SortedMap.getD]
  cases h : a.balances.get? address with
  | none => exact Nat.zero_le _
  | some held => exact SortedMap.le_sumBy h

/-- Two accounts hold no more than all of them. -/
theorem add_balance_le_total (a : Accounts) {p q : String} (h : p ≠ q) :
    (a.balance p).toNat + (a.balance q).toNat ≤ a.total := by
  have hpart := SortedMap.sum_getD_le_sumBy (f := UInt64.toNat)
    (d := 0) rfl a.balances {p, q}
  rwa [Finset.sum_pair h] at hpart

/-! ### Minting -/

theorem mint_effect (h : a.mint recipient amount = .ok a') :
    (∀ q,
        (a'.balance q).toNat =
          (a.balance q).toNat + if recipient = q then amount.toNat else 0) ∧
      a'.total = a.total + amount.toNat ∧
      a'.supply.toNat = a.supply.toNat + amount.toNat := by
  obtain ⟨-, supply, credited, hsupply, hcredited, rfl⟩ := mint_ok h
  have hcredited' := Amount.toNat_of_add? hcredited
  refine ⟨?_, ?_, Amount.toNat_of_add? hsupply⟩
  · intro q
    show ((a.balances.insert recipient credited).getD q 0).toNat = _
    rw [SortedMap.getD_insert]
    by_cases hq : q = recipient
    · rw [if_pos hq, if_pos hq.symm, hcredited', hq]
    · rw [if_neg hq, if_neg (Ne.symm hq)]
      rfl
  · have hsum := sumBy_insert_amount a.balances recipient credited
    simp only [balance, total] at *
    omega

/-- Where the balances add up to the supply, a mint that fits into the supply
fits into the balance. -/
theorem mint_fits (h : a.total = a.supply.toNat) :
    Fits (a.mint recipient amount) := by
  intro address herror
  simp only [mint, guard_eq_error, reduceCtorEq, and_false, false_or,
    Rejection.invalidAmount.injEq] at herror
  obtain ⟨-, herror⟩ := herror
  cases hsupply : Amount.add? a.supply amount with
  | none => simp [hsupply] at herror
  | some supply =>
    have hfits := Amount.toNat_of_add? hsupply
    have hbound := supply.toNat_lt
    have hheld := a.balance_le_total recipient
    have hover : Amount.add? (a.balance recipient) amount = none := by
      cases hadd : Amount.add? (a.balance recipient) amount with
      | none => rfl
      | some credited => simp [hsupply, hadd] at herror
    have hsize := Amount.add?_eq_none_iff.mp hover
    simp only [UInt64.size] at hsize
    omega

/-! ### Moving -/

theorem move_effect (h : a.move sender recipient amount = .ok a') :
    (∀ q, (a'.balance q).toNat + (if sender = q then amount.toNat else 0) =
        (a.balance q).toNat + if recipient = q then amount.toNat else 0) ∧
      a'.total = a.total ∧ a'.supply = a.supply := by
  obtain ⟨-, hheld, ⟨rfl, rfl⟩ | ⟨hne, credited, hcredited, rfl⟩⟩ := move_ok h
  · exact ⟨fun _ => rfl, rfl, rfl⟩
  · have hcredited' := Amount.toNat_of_add? hcredited
    have hheld' := UInt64.le_iff_toNat_le.mp hheld
    have hleft :
        (a.balance sender - amount).toNat =
          (a.balance sender).toNat - amount.toNat :=
      UInt64.toNat_sub_of_le _ _ hheld
    have hother :
        (a.balances.insert sender (a.balance sender - amount)).getD recipient
            0 =
          a.balance recipient := by
      rw [SortedMap.getD_insert, if_neg hne.symm]
      rfl
    refine ⟨?_, ?_, rfl⟩
    · intro q
      show (((a.balances.insert sender (a.balance sender - amount)).insert
        recipient credited).getD q 0).toNat + _ = _
      rw [SortedMap.getD_insert, SortedMap.getD_insert]
      by_cases hr : q = recipient
      · subst hr
        rw [if_pos rfl, if_pos rfl, if_neg hne, hcredited']
        rfl
      · rw [if_neg hr, if_neg (Ne.symm hr)]
        by_cases hs : q = sender
        · subst hs
          rw [if_pos rfl, if_pos rfl, hleft]
          omega
        · rw [if_neg hs, if_neg (Ne.symm hs)]
          rfl
    · have hfirst :=
        sumBy_insert_amount a.balances sender (a.balance sender - amount)
      have hsecond := sumBy_insert_amount (a.balances.insert sender
        (a.balance sender - amount)) recipient credited
      rw [hother] at hsecond
      simp only [balance, total] at *
      omega

/-- What the sender holds and what the recipient holds fit into the supply
together. -/
theorem move_fits (h : a.total = a.supply.toNat) :
    Fits (a.move sender recipient amount) := by
  intro address herror
  simp only [move, guard_eq_error, reduceCtorEq, and_false, false_or,
    Rejection.invalidAmount.injEq, UInt64.not_lt] at herror
  obtain ⟨-, hheld, herror⟩ := herror
  split at herror
  · cases herror
  · next hne =>
    have hover : Amount.add? (a.balance recipient) amount = none := by
      cases hadd : Amount.add? (a.balance recipient) amount with
      | none => rfl
      | some credited => simp [hadd] at herror
    have hsize := Amount.add?_eq_none_iff.mp hover
    have htwo := a.add_balance_le_total hne
    have hheld' := UInt64.le_iff_toNat_le.mp hheld
    have hbound := a.supply.toNat_lt
    simp only [UInt64.size] at hsize
    omega

end Accounts

/-! ## The invariant -/

namespace Ledger

open Transaction (received spent created)

/-- The accounts are what some transactions lead to. -/
structure Balanced (l : Ledger) (ts : List Transaction) : Prop where
  balance : ∀ a, (l.accounts.balance a).toNat + spent ts a = received ts a
  total : l.accounts.total = l.accounts.supply.toNat
  supply : l.accounts.supply.toNat = created ts
  /-- At no point was more taken from an account than brought to it. -/
  covered : ∀ before, before <+: ts → ∀ a, spent before a ≤ received before a

variable {l l' : Ledger} {ts : List Transaction} {t : Transaction}
    {height now : UInt64}

namespace Balanced

theorem start (rules : Rules) : (Chain.empty rules).ledger.Balanced [] := by
  refine ⟨fun _ => rfl, rfl, rfl, ?_⟩
  intro before hbefore a
  rw [List.prefix_nil.mp hbefore]
  exact Nat.le_refl _

/-- A change of the accounts by exactly what a transaction moves. -/
theorem snoc (h : l.Balanced ts)
    (hflow : ∀ a, (l'.accounts.balance a).toNat + t.debit a =
      (l.accounts.balance a).toNat + t.credit a)
    (htotal : l'.accounts.total = l.accounts.total + t.minted)
    (hsupply : l'.accounts.supply.toNat = l.accounts.supply.toNat + t.minted) :
    l'.Balanced (ts ++ [t]) := by
  have hbalance : ∀ a, (l'.accounts.balance a).toNat + spent (ts ++ [t]) a =
      received (ts ++ [t]) a := by
    intro a
    have hbefore := h.balance a
    have hstep := hflow a
    rw [Transaction.spent_snoc, Transaction.received_snoc]
    omega
  refine ⟨hbalance, ?_, ?_, ?_⟩
  · rw [htotal, hsupply, h.total]
  · rw [hsupply, h.supply, Transaction.created_snoc]
  · intro before hbefore a
    rcases List.prefix_concat_iff.mp hbefore with rfl | hbefore
    · exact Nat.le.intro ((Nat.add_comm _ _).trans (hbalance a))
    · exact h.covered before hbefore a

/-- A transaction that moves no tokens, in a ledger with the same accounts. -/
theorem snoc_of_accounts (h : l.Balanced ts)
    (haccounts : l'.accounts = l.accounts)
    (hmoves : (∀ a, t.debit a = 0 ∧ t.credit a = 0) ∧ t.minted = 0) :
    l'.Balanced (ts ++ [t]) := by
  apply h.snoc
  · intro a
    rw [haccounts, (hmoves.1 a).1, (hmoves.1 a).2]
  · rw [haccounts, hmoves.2]
    rfl
  · rw [haccounts, hmoves.2]
    rfl

/-- **Every action moves what its transaction says.** -/
theorem acted (h : l.Balanced ts) (hact : Acted height now l t l') :
    l'.Balanced (ts ++ [t]) := by
  cases hact with
  | @mint _ amount _ action first sender address ok =>
    obtain ⟨hbalance, htotal, hsupply⟩ := Accounts.mint_effect ok
    have hminted : t.minted = amount.toNat := by rw [Transaction.minted, action]
    refine h.snoc (fun a => ?_) (by rw [hminted]; exact htotal)
      (by rw [hminted]; exact hsupply)
    simp only [Transaction.debit, Transaction.credit, action]
    exact hbalance a
  | transfer action may sender address ok =>
    obtain ⟨hbalance, htotal, hsupply⟩ :=
      Accounts.move_effect (Accounts.transfer_ok ok).2.2
    have hminted : t.minted = 0 := by rw [Transaction.minted, action]
    refine h.snoc (fun a => ?_) (by rw [hminted]; exact htotal)
      (by rw [hminted, ← hsupply]; rfl)
    simp only [Transaction.debit, Transaction.credit, action]
    exact hbalance a
  | payOut action may names address authorized found ok =>
    obtain ⟨hbalance, htotal, hsupply⟩ :=
      Accounts.move_effect (Accounts.payOut_ok ok).2
    have hminted : t.minted = 0 := by rw [Transaction.minted, action]
    refine h.snoc (fun a => ?_) (by rw [hminted]; exact htotal)
      (by rw [hminted, ← hsupply]; rfl)
    simp only [Transaction.debit, Transaction.credit, action]
    exact hbalance a
  | propose action | vote action | delegate action | revoke action =>
    refine h.snoc_of_accounts ?_ ?_
    · rfl
    · simp [Transaction.debit, Transaction.credit, Transaction.minted, action]

theorem apply (h : l.Balanced ts) (hok : Ledger.apply height now l t = .ok l') :
    l'.Balanced (ts ++ [t]) := by
  have hused : (l.withNonceUsed t.sender).Balanced ts :=
    ⟨h.balance, h.total, h.supply, h.covered⟩
  exact hused.acted (apply_ok hok).2

theorem settle (h : l.Balanced ts) (now : UInt64) :
    (l.settle now).Balanced ts :=
  ⟨h.balance, h.total, h.supply, h.covered⟩

/-- The transactions of a block one after the other. -/
theorem foldlM (h : l.Balanced ts) {more : List Transaction}
    (hok : more.foldlM (Ledger.apply height now) l = .ok l') :
    l'.Balanced (ts ++ more) := by
  refine foldlM_append_induction (P := fun ts l => l.Balanced ts) hok h ?_
  exact fun _ _ _ _ _ hm hstep => hm.apply hstep

theorem applyBlock (h : l.Balanced ts) {b : Block}
    (hok : l.applyBlock b = .ok l') : l'.Balanced (ts ++ b.transactions) := by
  obtain ⟨m, hm, rfl⟩ := applyBlock_ok hok
  exact ((h.settle b.timestamp).foldlM hm).settle b.timestamp

end Balanced

end Ledger

/-! ## No overflow -/

namespace Ledger

variable {l l' : Ledger} {ts : List Transaction}

/-- No action overflows where the balances add up to the supply. -/
theorem act_fits (h : l.accounts.total = l.accounts.supply.toNat)
    (t : Transaction) (height now : UInt64) : Fits (l.act t height now) := by
  have hasked : ∀ r : Rejection, r.isOfAction = true →
      ∀ address, r ≠ .invalidAmount (.balanceOverflow address) := by
    rintro _ hr address rfl
    cases hr
  refine Fits.iff_refusesOnly.mpr (act_refuses hasked ?_ ?_ ?_)
  · intro recipient amount _
    refine .guard (fun _ => nofun) (.guard (fun _ => nofun) ?_)
    refine .bind ((wellFormed_refuses _).mono hasked) fun _ _ =>
      .bind ?_ fun _ _ => .ok _
    exact Fits.iff_refusesOnly.mp (Accounts.mint_fits h)
  · exact fun _ _ _ => Fits.iff_refusesOnly.mp (Accounts.move_fits h)
  · exact fun _ => nofun

theorem apply_fits (h : l.accounts.total = l.accounts.supply.toNat)
    (height now : UInt64) (t : Transaction) : Fits (apply height now l t) := by
  refine .bind ?_ fun accounts haccounts => act_fits ?_ t height now
  · unfold Accounts.useNonce
    split
    · exact .ok _
    · exact .error (by rintro _ ⟨⟩)
  · obtain ⟨-, rfl⟩ := Accounts.useNonce_ok haccounts
    exact h

/-- **No block overflows a balance**: the transactions before the one in
question have left the balances in step with the supply. -/
theorem Balanced.applyBlock_fits (h : l.Balanced ts) (b : Block) :
    Fits (l.applyBlock b) := by
  refine .bind ?_ fun _ _ => .ok _
  intro address herror
  -- the transaction that fails, and the state that those before it led to
  obtain ⟨before, t, after, m, -, hm, ht⟩ := foldlM_eq_error herror
  exact apply_fits ((h.settle b.timestamp).foldlM hm).total b.height
    b.timestamp t address ht

end Ledger

/-! ## Chains and nodes -/

namespace Chain

open Transaction (created)

variable {rules : Rules} {blocks : List Block} {c : Chain}

/-- The transactions of a chain in their order. -/
def transactions (c : Chain) : List Transaction :=
  c.blocks.flatMap (·.transactions)

theorem balanced_of_ofBlocks (h : ofBlocks rules blocks = .ok c) :
    c.ledger.Balanced (blocks.flatMap (·.transactions)) := by
  refine ofBlocks_transactions_induction (P := fun ts l => l.Balanced ts) h
    (.start rules) ?_
  exact fun _ _ _ _ hl hblock => hl.applyBlock hblock

theorem validate_fits (h : ofBlocks rules blocks = .ok c) (b : Block) :
    Fits (c.validate b) := by
  have hplace {α : Type} {x : Except Rejection α}
      (hx : RefusesOnly (·.isOfPlace) x) : Fits x :=
    .of_refusesOnly hx nofun
  refine .bind (hplace b.check_refuses) fun _ _ =>
    .bind (hplace (c.checkLink_refuses b)) fun _ _ => ?_
  exact .bind (hplace (c.archive.check_refuses b)) fun _ _ =>
    (balanced_of_ofBlocks h).applyBlock_fits b

/-! ### The supply -/

/-- Tokens are created by the first block only. -/
theorem created_of_late {b : Block} {l after : Ledger} (hlate : b.height ≠ 0)
    (h : l.applyBlock b = .ok after) : created b.transactions = 0 := by
  obtain ⟨m, hm, -⟩ := Ledger.applyBlock_ok h
  apply List.sum_eq_zero
  intro n hn
  obtain ⟨t, ht, rfl⟩ := List.mem_map.mp hn
  obtain ⟨m₁, m₂, happly⟩ := step_of_foldlM hm ht
  cases (Ledger.apply_ok happly).2 with
  | mint action first => exact absurd first hlate
  | transfer action | propose action | vote action | payOut action
  | delegate action | revoke action => rw [Transaction.minted, action]

theorem created_of_ofBlocks {first : Block} {rest : List Block}
    (h : ofBlocks rules (first :: rest) = .ok c) :
    created ((first :: rest).flatMap (·.transactions)) =
      created first.transactions := by
  have hrecords := records_of_ofBlocks h
  have hrest : ∀ b ∈ rest, created b.transactions = 0 := by
    intro b hb
    obtain ⟨i, hi, hget⟩ := List.getElem_of_mem hb
    have hheight : b.height.toNat = i + 1 :=
      hrecords.height (i + 1) b (by simp [List.getElem?_eq_getElem hi, hget])
    obtain ⟨l, after, hblock⟩ := applyBlock_of_mem h (List.mem_cons_of_mem _ hb)
    have hlate : b.height ≠ 0 := by
      intro hzero
      rw [hzero] at hheight
      cases hheight
    exact created_of_late hlate hblock
  have hsum : created (rest.flatMap (·.transactions)) = 0 := by
    apply List.sum_eq_zero
    intro n hn
    obtain ⟨t, ht, rfl⟩ := List.mem_map.mp hn
    obtain ⟨b, hb, ht⟩ := List.mem_flatMap.mp ht
    have hpart : t.minted ≤ created b.transactions :=
      List.single_le_sum (fun _ _ => Nat.zero_le _) _
        (List.mem_map.mpr ⟨t, ht, rfl⟩)
    exact Nat.le_zero.mp (hrest b hb ▸ hpart)
  rw [List.flatMap_cons, created, List.map_append, List.sum_append]
  exact congrArg (created first.transactions + ·) hsum

end Chain

/-- The first block mints what the configuration says, in its order. -/
theorem Config.sum_genesisBlock (config : Config) {f : Transaction → Nat}
    {g : Allocation → Nat}
    (h : ∀ t a, t.action = .mint a.address a.amount → f t = g a) :
    (config.genesisBlock.transactions.map f).sum =
      (config.mints.map g).sum := by
  have hfst : (config.mints.zipIdx.map fun m => g m.1) = config.mints.map g := by
    have hmap := congrArg (List.map g) (List.zipIdx_map_fst 0 config.mints)
    rwa [List.map_map] at hmap
  show ((((config.mints.zipIdx).map _).map _).map f).sum = _
  rw [← hfst, List.map_map, List.map_map]
  exact congrArg List.sum (List.map_congr_left fun m _ => h _ m.1 rfl)

theorem Config.created_genesisBlock (config : Config) :
    Transaction.created config.genesisBlock.transactions =
      (config.mints.map (·.amount.toNat)).sum :=
  config.sum_genesisBlock fun t a action => by rw [Transaction.minted, action]

namespace Node

open Transaction (received spent)

variable {config : Config} {n next : Node} {blocks : List Block}

namespace Tracks

theorem transactions_eq (h : n.Tracks config blocks) :
    n.chain.transactions = blocks.flatMap (·.transactions) := by
  rw [Chain.transactions, h.blocks_eq]

theorem balanced (h : n.Tracks config blocks) :
    n.chain.ledger.Balanced n.chain.transactions := by
  rw [h.transactions_eq]
  exact Chain.balanced_of_ofBlocks h.history

theorem commit_fits (h : n.Tracks config blocks) (m : Moment) (b : Block) :
    Fits (n.commit m b).1 := by
  have hvalid := Chain.validate_fits h.history b
  rcases commit_cases h m b with
    ⟨r, hr, hcommit⟩ | ⟨after, d, -, -, -, hcommit⟩ |
    ⟨after, next, -, -, hcommit, -⟩
  · rw [hcommit]
    exact fun address heq => hvalid address (by rw [hr, Except.error.inj heq])
  · rw [hcommit]
    exact .error nofun
  · rw [hcommit]
    exact .ok ()

theorem submit_fits (h : n.Tracks config blocks) (m : Moment) (sender : String)
    (action : Action) : Fits (n.submit m sender action).1 := by
  unfold submit
  split
  · next r hr =>
    have hblock : Fits (n.chain.blockFor m.clock sender action) := by
      refine .bind
        (.of_refusesOnly (Ledger.wellFormed_refuses _) nofun) fun _ _ => ?_
      split
      · exact .error nofun
      · exact .ok _
    exact fun address heq => hblock address (by rw [hr, Except.error.inj heq])
  · next t b _ => exact (h.commit_fits m b).map _

theorem tick_fits (h : n.Tracks config blocks) (m : Moment) :
    Fits (n.tick m).1 := by
  unfold tick
  split
  · next r hr =>
    have hclosing : Fits (n.chain.closingBlock m.clock) := by
      unfold Chain.closingBlock
      split
      · exact .error nofun
      · dsimp only
        split
        · exact .ok _
        · exact .ok _
    exact fun address heq => hclosing address (by rw [hr, Except.error.inj heq])
  · exact .ok 0
  · next due b _ => exact (h.commit_fits m b).map _

theorem supply (h : n.Tracks config (config.genesisBlock :: blocks)) :
    n.chain.accounts.supply.toNat = (config.mints.map (·.amount.toNat)).sum := by
  rw [← config.created_genesisBlock, ← Chain.created_of_ofBlocks
    h.history, ← h.blocks_eq]
  exact h.balanced.supply

/-! ### Transactions -/

/-- The transactions of a block that commits come behind the others. -/
theorem transactions_commit (h : n.Tracks config blocks) {m : Moment}
    {b : Block} (hcommit : n.commit m b = (.ok (), next)) :
    next.chain.transactions = n.chain.transactions ++ b.transactions := by
  obtain ⟨-, -, -, -, hnext⟩ := h.of_commit_eq_ok hcommit
  rw [hnext.transactions_eq, h.transactions_eq, List.flatMap_append,
    List.flatMap_singleton]

/-- A run forgets no transaction. -/
theorem mem_transactions_run (h : n.Tracks config blocks) (hne : blocks ≠ [])
    (hrun : Run config n next) {t : Transaction}
    (ht : t ∈ n.chain.transactions) : t ∈ next.chain.transactions := by
  obtain ⟨more, hnext⟩ := h.run hne hrun
  rw [h.transactions_eq] at ht
  rw [hnext.transactions_eq, List.flatMap_append]
  exact List.mem_append_left _ ht

end Tracks

/-- **The accounts follow from the blocks**: a balance is what was received less
what was spent, never below zero on the way; the balances add up to the supply,
which is what the first block minted and stays so; and no operation refuses
because a balance would leave 64 bits, nor does the check of a first block,
whose mints are the only ones. -/
theorem accounts_follow_from_blocks (h : n.Reachable config) :
    (∀ a,
        ((n.chain.accounts.balance a).toNat : Int) =
          received n.chain.transactions a - spent n.chain.transactions a) ∧
      (∀ before, before <+: n.chain.transactions →
        ∀ a, spent before a ≤ received before a) ∧
      n.chain.accounts.total = n.chain.accounts.supply.toNat ∧
      n.chain.accounts.supply.toNat = (config.mints.map (·.amount.toNat)).sum ∧
      (∀ later, Run config n later →
        later.chain.accounts.supply = n.chain.accounts.supply) ∧
      (∀ m b, Fits (n.commit m b).1) ∧
      (∀ m sender action, Fits (n.submit m sender action).1) ∧
      (∀ m, Fits (n.tick m).1) ∧
      ∀ b, Fits ((Chain.empty config.rules).validate b) := by
  obtain ⟨rest, htracks⟩ := h.tracks
  have hbalanced := htracks.balanced
  have hempty : Chain.ofBlocks config.rules [] = .ok (.empty config.rules) := rfl
  refine ⟨?_, hbalanced.covered, hbalanced.total, htracks.supply, ?_,
    htracks.commit_fits, htracks.submit_fits, htracks.tick_fits,
    Chain.validate_fits hempty⟩
  · intro a
    have hbalance : (n.chain.accounts.balance a).toNat + _ = _ :=
      hbalanced.balance a
    omega
  · intro later hrun
    obtain ⟨more, hlater⟩ := htracks.run (by simp) hrun
    exact UInt64.toNat_inj.mp (hlater.supply.trans htracks.supply.symm)

/-- The balances of the node with a vote add up to what its two holders started
with. -/
theorem accounts_follow_from_blocks_voted :
    ∃ n, Reachable .twoHolders n ∧ n.chain.accounts.total = 5 + 3 := by
  obtain ⟨n, -, hn, -⟩ := exists_voted
  obtain ⟨-, -, htotal, hsupply, -⟩ := accounts_follow_from_blocks hn
  exact ⟨n, hn, htotal.trans hsupply⟩

end Node
end CouncilLedger
