import CouncilLedger.Proofs.Amount
import CouncilLedger.Proofs.Conservation
import CouncilLedger.Proofs.Delegations
import Mathlib.Algebra.Order.BigOperators.Group.Finset

/-!
# What accounts vote with

The electorate adds up what each account votes with, after the balances of all
who lend have moved to their delegates. Since power is lent in one hop and the
balances add up to a supply of 64 bits, no sum stops short, and no account
votes with more than the electorate counts for it. So what any accounts could
vote with, together, is part of the electorate: `Standing.sum_weight_le_power`.
-/

namespace CouncilLedger

/-! ## The power of counted balances -/

namespace Electorate

variable (mode : VotingMode)

/-- One account more adds its weight, unless that leaves 64 bits. -/
theorem toNat_power_count (e : Electorate) (balance : Amount)
    (h : (e.power mode).toNat + balance.toNat < UInt64.size) :
    ((e.count balance).power mode).toNat =
      (e.power mode).toNat + (mode.weight balance).toNat := by
  have hweight := mode.weight_le balance
  unfold count
  by_cases hzero : balance = 0
  · rw [if_pos hzero, hzero, mode.weight_zero]
    rfl
  · unfold VotingMode.weight at hweight ⊢
    rw [if_neg hzero] at hweight ⊢
    rw [if_neg hzero]
    cases mode with
    | simple =>
      have hone : (1 : Amount).toNat ≤ balance.toNat := hweight
      show (e.holders + 1).toNat = e.holders.toNat + (1 : Amount).toNat
      rw [UInt64.toNat_add]
      exact Nat.mod_eq_of_lt (by simp only [power, UInt64.size] at *; omega)
    | weighted =>
      show (Amount.addCapped e.weighted balance).toNat = _
      rw [Amount.toNat_addCapped]
      simp only [power] at *
      omega
    | quadratic =>
      show (Amount.addCapped e.quadratic (Amount.isqrt balance)).toNat = _
      rw [Amount.toNat_addCapped]
      simp only [power] at *
      omega

theorem toNat_power_foldl (e : Electorate) (balances : List Amount)
    (h : (e.power mode).toNat + (balances.map UInt64.toNat).sum < UInt64.size) :
    ((balances.foldl count e).power mode).toNat =
      (e.power mode).toNat +
        (balances.map fun b => (mode.weight b).toNat).sum := by
  induction balances generalizing e with
  | nil => rfl
  | cons b rest ih =>
    rw [List.map_cons, List.sum_cons] at h
    have hweight := mode.weight_le b
    have hcount := toNat_power_count mode e b (by omega)
    rw [List.foldl_cons, ih (e.count b) (by omega), hcount, List.map_cons,
      List.sum_cons, Nat.add_assoc]

/-- **The power of an electorate is the sum of all weights.** -/
theorem toNat_power_ofBalances (balances : List Amount)
    (h : (balances.map UInt64.toNat).sum < UInt64.size) :
    ((ofBalances balances).power mode).toNat =
      (balances.map fun b => (mode.weight b).toNat).sum := by
  have hnone : (none.power mode).toNat = 0 := by cases mode <;> rfl
  rw [ofBalances, toNat_power_foldl mode none balances
    (by rw [hnone, Nat.zero_add]; exact h), hnone, Nat.zero_add]

end Electorate

/-! ## Balances that are lent -/

namespace Standing

/-- A balance as a number, zero where there is none. -/
def held (m : SortedMap String Amount) (a : String) : Nat := (m.getD a 0).toNat

variable {m : SortedMap String Amount} {d : Delegation}

/-- The balance of the delegator moves to the delegate. -/
theorem held_lend (hself : d.delegate ≠ d.delegator)
    (hfits : m.sumBy UInt64.toNat < UInt64.size) :
    (lend m d).sumBy UInt64.toNat = m.sumBy UInt64.toNat ∧
      ∀ a,
        held (lend m d) a =
          if a = d.delegator then 0
          else held m a + if d.delegate = a then held m d.delegator else 0 := by
  have hemptied :
      ∀ a,
        (m.insert d.delegator 0).getD a 0 =
          if a = d.delegator then 0 else m.getD a 0 :=
    fun a => SortedMap.getD_insert m _ _ _ _
  have hsum := Accounts.sumBy_insert_amount m d.delegator 0
  unfold lend
  cases hlent : m.get? d.delegator with
  | none =>
    have hnothing : m.getD d.delegator 0 = 0 := by
      rw [SortedMap.getD, hlent]; rfl
    refine ⟨?_, ?_⟩
    · rw [hnothing] at hsum
      exact hsum
    · intro a
      simp only [held, hemptied, hnothing]
      split <;> simp
  | some lent =>
    have hheld : m.getD d.delegator 0 = lent := by
      rw [SortedMap.getD, hlent]; rfl
    -- the two balances are parts of one sum, so the new one fits
    have htwo : held m d.delegate + lent.toNat ≤ m.sumBy UInt64.toNat := by
      have hpair := Accounts.add_balance_le_total ⟨m, .empty, 0⟩ hself
      rwa [← hheld]
    have hother :
        (m.insert d.delegator 0).getD d.delegate 0 = m.getD d.delegate 0 := by
      rw [hemptied, if_neg hself]
    have hnew : (Amount.addCapped (m.getD d.delegate 0) lent).toNat =
        held m d.delegate + lent.toNat := by
      rw [Amount.toNat_addCapped]
      simp only [held] at *
      omega
    have hsum' := Accounts.sumBy_insert_amount (m.insert d.delegator 0)
      d.delegate (Amount.addCapped (m.getD d.delegate 0) lent)
    rw [hother, hnew] at hsum'
    rw [hheld] at hsum
    refine ⟨?_, ?_⟩
    · simp only [hother, held, UInt64.toNat_zero] at *
      omega
    · intro a
      simp only [held, hother, SortedMap.getD_insert, hheld]
      by_cases ha : a = d.delegate
      · subst ha
        rw [if_pos rfl, if_neg hself, if_pos rfl, hnew]
        rfl
      · rw [if_neg ha, if_neg (Ne.symm ha)]
        split <;> simp

/-- Where no delegate lends itself, each account ends up with nothing when it
lends, and else with what it has and all that is lent to it. -/
theorem held_foldl_lend {ds : List Delegation}
    (hnodup : (ds.map (·.delegator)).Nodup)
    (hapart : ∀ d ∈ ds, ∀ e ∈ ds, d.delegate ≠ e.delegator)
    (hfits : m.sumBy UInt64.toNat < UInt64.size) :
    (ds.foldl lend m).sumBy UInt64.toNat = m.sumBy UInt64.toNat ∧
      ∀ a,
        held (ds.foldl lend m) a =
          if a ∈ ds.map (·.delegator) then 0
          else held m a +
            ((ds.filter (·.delegate = a)).map
              fun d => held m d.delegator).sum := by
  induction ds generalizing m with
  | nil => simp
  | cons d rest ih =>
    obtain ⟨hnew, hrest⟩ := List.nodup_cons.mp hnodup
    obtain ⟨hsum, hheld⟩ := held_lend (m := m)
      (hapart d List.mem_cons_self d List.mem_cons_self) hfits
    obtain ⟨htotal, hfinal⟩ := ih (m := lend m d) hrest (fun e he f hf =>
        hapart e (List.mem_cons_of_mem _ he) f (List.mem_cons_of_mem _ hf))
      (by rw [hsum]; exact hfits)
    refine ⟨by rw [List.foldl_cons, htotal, hsum], ?_⟩
    intro a
    -- the others lend what they had: none of them is `d.delegator` or
    -- `d.delegate`
    have hothers : ((rest.filter (·.delegate = a)).map fun e =>
        held (lend m d) e.delegator) =
        (rest.filter (·.delegate = a)).map fun e => held m e.delegator := by
      refine List.map_congr_left fun e he => ?_
      have hmem := List.mem_of_mem_filter he
      have hne : e.delegator ≠ d.delegator := fun heq =>
        hnew (List.mem_map.mpr ⟨e, hmem, heq⟩)
      rw [hheld, if_neg hne, if_neg (hapart d List.mem_cons_self e
        (List.mem_cons_of_mem _ hmem)), Nat.add_zero]
    rw [List.foldl_cons, hfinal, hothers, hheld, List.map_cons]
    by_cases had : a = d.delegator
    · -- nothing is lent to one that lends
      have hnobody : rest.filter (·.delegate = a) = [] := by
        refine List.filter_eq_nil_iff.mpr fun e he => ?_
        simpa [had] using hapart e
          (List.mem_cons_of_mem _ he) d List.mem_cons_self
      rw [if_pos (List.mem_cons.mpr (.inl had)), if_pos had, hnobody]
      exact ite_self 0
    · by_cases hlends : a ∈ rest.map (·.delegator)
      · rw [if_pos hlends, if_pos (List.mem_cons_of_mem _ hlends)]
      · have hnone : a ∉ d.delegator :: rest.map (·.delegator) := by
          simp only [List.mem_cons, not_or]
          exact ⟨had, hlends⟩
        rw [if_neg hlends, if_neg had, if_neg hnone]
        by_cases hto : d.delegate = a
        · rw [if_pos hto, List.filter_cons_of_pos (by simpa using hto),
            List.map_cons, List.sum_cons]
          omega
        · rw [if_neg hto,
            List.filter_cons_of_neg (by simpa using hto), Nat.add_zero]

/-! ## What an account votes with -/

variable {s : Standing} {a : String} {now t : UInt64}

theorem own_le_balance (s : Standing) (a : String) (t : UInt64) :
    (s.own a t).toNat ≤ (s.accounts.balance a).toNat := by
  unfold own
  split
  · exact Nat.zero_le _
  · exact Nat.le_refl _

theorem toNat_backing (s : Standing) (voter : String) (t : UInt64)
    (p : Proposal) :
    (s.backing voter t p).balance.toNat =
      min ((s.own voter t).toNat +
        ((s.backing voter t p).delegators.map
          fun a => (s.accounts.balance a).toNat).sum) (UInt64.size - 1) := by
  have hfold : ∀ (l : List Delegation) (b : Backing), (l.foldl (fun b d =>
        (⟨Amount.addCapped b.balance (s.accounts.balance d.delegator),
        b.delegators ++ [d.delegator]⟩ : Backing)) b).balance =
          l.foldl (fun sum d => Amount.addCapped sum
            (s.accounts.balance d.delegator)) b.balance := by
    intro l
    induction l with
    | nil => exact fun _ => rfl
    | cons d rest ih => exact fun _ => ih _
  rw [backing_delegators, List.map_map, backing, hfold,
    Amount.toNat_foldl_addCapped]
  rfl

/-- A vote has at most the balances of the accounts it carries. -/
theorem backing_le_balances (s : Standing) (voter : String) (t : UInt64)
    (p : Proposal) :
    (s.backing voter t p).balance.toNat ≤
      ((voter :: (s.backing voter t p).delegators).map
        fun a => (s.accounts.balance a).toNat).sum := by
  have hown := s.own_le_balance voter t
  have hbacking := s.toNat_backing voter t p
  rw [List.map_cons, List.sum_cons]
  omega

theorem toNat_effective (s : Standing) (a : String) (t : UInt64) :
    (s.effective a t).toNat =
      min ((s.own a t).toNat +
        ((s.delegations.toDelegate a t).map
          fun d => (s.accounts.balance d.delegator).toNat).sum)
        (UInt64.size - 1) := by
  have hzero : (0 : Amount).toNat = 0 := rfl
  rw [effective, Amount.toNat_addCapped, delegated,
    Amount.toNat_foldl_addCapped, hzero]
  omega

/-- Without the delegators whose power is used, no more stands behind a vote. -/
theorem backing_le_effective (s : Standing) (a : String) (t : UInt64)
    (p : Proposal) :
    (s.backing a t p).balance.toNat ≤ (s.effective a t).toNat := by
  have hpart : ((s.backing a t p).delegators.map fun a =>
      (s.accounts.balance a).toNat).sum ≤ ((s.delegations.toDelegate a t).map
        fun d => (s.accounts.balance d.delegator).toNat).sum := by
    rw [backing_delegators, List.map_map]
    exact (List.filter_sublist.map _).sum_le_sum fun _ _ => Nat.zero_le _
  rw [toNat_backing, toNat_effective]
  omega

/-- Behind the vote on a proposal without votes stands all that an account can
vote with. -/
theorem backing_eq_effective {p : Proposal} (hp : p.votes = .empty) :
    (s.backing a t p).balance = s.effective a t := by
  have hall : (s.delegations.toDelegate a t).filter (fun d =>
      !p.powerUsedBy d.delegator) = s.delegations.toDelegate a t :=
    List.filter_eq_self.mpr fun d _ => by rw [Proposal.powerUsedBy, hp]; rfl
  rw [← UInt64.toNat_inj, toNat_backing, toNat_effective, backing_delegators,
    hall, List.map_map]
  rfl

/-! ## The part of the electorate -/

theorem held_holdings (accounts : Accounts) (ha : Address.isReserved a = false) :
    held accounts.holdings a = (accounts.balance a).toNat := by
  rw [held, Accounts.balance, SortedMap.getD, SortedMap.getD, Accounts.holdings,
    SortedMap.get?_filter, ha]
  cases accounts.balances.get? a with
  | none => rfl
  | some held =>
    by_cases hzero : held = 0
    · simp [hzero, Option.filter]
    · simp [hzero, Option.filter]

/-- What holds of all that decides what accounts vote with: each account lends
once and in one hop, and what all hold together fits into 64 bits. -/
structure Sound (s : Standing) (now : UInt64) : Prop where
  keyed : s.delegations.Keyed
  oneHop : s.delegations.OneHop now
  fits : s.accounts.total < UInt64.size

theorem Sound.holdings_lt (h : s.Sound now) :
    s.accounts.holdings.sumBy UInt64.toNat < UInt64.size :=
  Nat.lt_of_le_of_lt (SortedMap.sumBy_filter_le _ _ _) h.fits

section

variable (hsound : s.Sound now)

include hsound

theorem sumBy_votingBalances (t : UInt64) :
    (s.votingBalances t).sumBy UInt64.toNat =
      s.accounts.holdings.sumBy UInt64.toNat :=
  (held_foldl_lend (hsound.keyed.nodup_active t)
    (hsound.oneHop.apart t) hsound.holdings_lt).1

theorem sumBy_votingBalances_lt (t : UInt64) :
    (s.votingBalances t).sumBy UInt64.toNat < UInt64.size := by
  rw [sumBy_votingBalances hsound]
  exact hsound.holdings_lt

theorem held_votingBalances (t : UInt64) (a : String) :
    held (s.votingBalances t) a =
      if a ∈ (s.delegations.active t).map (·.delegator) then 0
      else held s.accounts.holdings a +
        (((s.delegations.active t).filter (·.delegate = a)).map
          fun d => held s.accounts.holdings d.delegator).sum :=
  (held_foldl_lend (hsound.keyed.nodup_active t)
    (hsound.oneHop.apart t) hsound.holdings_lt).2 a

/-- The electorate counts for an account what it can vote with. -/
theorem toNat_effective_eq_held (ha : Address.isReserved a = false) :
    (s.effective a t).toNat = held (s.votingBalances t) a := by
  have hheld := held_votingBalances hsound t a
  rw [toNat_effective]
  by_cases hlends : a ∈ (s.delegations.active t).map (·.delegator)
  · -- who lends has nothing of its own, and holds no power of others
    rw [if_pos hlends] at hheld
    obtain ⟨d, hd, rfl⟩ := List.mem_map.mp hlends
    have hlent : s.delegations.delegateOf? d.delegator t ≠ none := fun hnone =>
      hsound.keyed.delegateOf?_eq_none_iff.mp hnone d hd rfl
    rw [hheld, hsound.oneHop.toDelegate_eq_nil hsound.keyed hlent, own,
      if_pos (Option.isSome_iff_ne_none.mpr hlent)]
    rfl
  · have hnone : s.delegations.delegateOf? a t = none :=
      hsound.keyed.delegateOf?_eq_none_iff.mpr fun d hd heq =>
        hlends (List.mem_map.mpr ⟨d, hd, heq⟩)
    have hto :
        s.delegations.toDelegate a t =
          (s.delegations.active t).filter (·.delegate = a) := by
      rw [Delegations.toDelegate, Delegations.active, List.filter_filter]
    have hlent : ((s.delegations.toDelegate a t).map
        fun d => (s.accounts.balance d.delegator).toNat) =
        ((s.delegations.active t).filter (·.delegate = a)).map
          fun d => held s.accounts.holdings d.delegator := by
      rw [hto]
      refine List.map_congr_left fun d hd => ?_
      have hmem := (Delegations.mem_active.mp (List.mem_of_mem_filter hd)).1
      rw [held_holdings _ (hsound.oneHop.unreserved d hmem)]
    rw [if_neg hlends, held_holdings _ ha, ← hlent] at hheld
    have hown : s.own a t = s.accounts.balance a := by rw [own, hnone]; rfl
    -- it is part of a sum that fits into 64 bits
    have hpart := ((s.votingBalances t).getD a 0).toNat_lt
    rw [hown, ← hheld]
    simp only [held, UInt64.size]
    omega

/-- The electorate's power is the sum of the weights of all that is voted
with. -/
theorem toNat_power_electorateAt (mode : VotingMode) (t : UInt64) :
    ((s.electorateAt t).power mode).toNat =
      (s.votingBalances t).sumBy fun b => (mode.weight b).toNat :=
  Electorate.toNat_power_ofBalances mode (s.votingBalances t).values
    (sumBy_votingBalances_lt hsound t)

/-- **What some accounts could vote with is part of the electorate.** -/
theorem sum_weight_le_power (mode : VotingMode) (voters : Finset String)
    (hvoters : ∀ a ∈ voters, Address.isReserved a = false) :
    ∑ a ∈ voters, (mode.weight (s.effective a t)).toNat ≤
      ((s.electorateAt t).power mode).toNat := by
  have hzero : (mode.weight 0).toNat = 0 := by rw [mode.weight_zero]; rfl
  calc ∑ a ∈ voters, (mode.weight (s.effective a t)).toNat
      ≤ ∑ a ∈ voters, (mode.weight ((s.votingBalances t).getD a 0)).toNat :=
        Finset.sum_le_sum fun a ha =>
          mode.weight_mono (toNat_effective_eq_held hsound (hvoters a ha)).le
    _ ≤ (s.votingBalances t).sumBy fun b => (mode.weight b).toNat :=
        SortedMap.sum_getD_le_sumBy
          (f := fun b => (mode.weight b).toNat) hzero _ _
    _ = ((s.electorateAt t).power mode).toNat :=
        (toNat_power_electorateAt hsound mode t).symm

end

end Standing

/-- Whatever a chain has come to, it decides soundly at the time of its last
block. -/
theorem Chain.sound_of_ofBlocks {rules : Rules} {blocks : List Block}
    {c : Chain} (h : ofBlocks rules blocks = .ok c) :
    c.standing.Sound c.time where
  keyed := (powerApart_of_ofBlocks h).delegations
  oneHop := (franchise_of_ofBlocks h).delegations
  fits := by
    have htotal : c.accounts.total = c.accounts.supply.toNat :=
      (balanced_of_ofBlocks h).total
    show c.accounts.total < UInt64.size
    rw [htotal]
    exact c.accounts.supply.toNat_lt

end CouncilLedger
