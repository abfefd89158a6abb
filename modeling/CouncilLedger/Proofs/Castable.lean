import CouncilLedger.Proofs.Lapse
import CouncilLedger.Proofs.Quorum

/-!
# The electorate is what can be cast

The electorate moves balances from delegators to delegates one after the other,
and a vote adds up the balances behind it. Both come to the same for every
account that is not reserved, so the power of the electorate is the sum of all
weights that a proposal without votes could still get. All these sums are parts
of one supply of 64 bits, so none of the additions on the way stops short. The
main statement is `Node.electorate_is_castable`.
-/

namespace CouncilLedger

/-! ## Additions that do not stop short -/

/-- No addition of a sum stops short. -/
def Amount.SumsFit {α : Type} (f : α → Amount) (start : Amount) : List α → Prop
  | [] => True
  | a :: rest =>
    start.toNat + (f a).toNat < UInt64.size ∧
      SumsFit f (addCapped start (f a)) rest

theorem Amount.sumsFit_of_sum_lt {α : Type} {f : α → Amount} {start : Amount}
    {l : List α}
    (h : start.toNat + (l.map fun a => (f a).toNat).sum < UInt64.size) :
    SumsFit f start l := by
  induction l generalizing start with
  | nil => trivial
  | cons a rest ih =>
    rw [List.map_cons, List.sum_cons] at h
    have hsum := toNat_addCapped start (f a)
    exact ⟨by omega, ih (by omega)⟩

/-- No addition stops short while balances are counted, in any mode. -/
def Electorate.CountsFit (e : Electorate) : List Amount → Prop
  | [] => True
  | b :: rest =>
    (b ≠ 0 →
      e.holders.toNat + 1 < UInt64.size ∧
        e.weighted.toNat + b.toNat < UInt64.size ∧
        e.quadratic.toNat + (Amount.isqrt b).toNat < UInt64.size) ∧
      (e.count b).CountsFit rest

theorem Electorate.countsFit_of_sum_lt {e : Electorate} {balances : List Amount}
    (h : ∀ mode,
      (e.power mode).toNat + (balances.map UInt64.toNat).sum < UInt64.size) :
    e.CountsFit balances := by
  induction balances generalizing e with
  | nil => trivial
  | cons b rest ih =>
    simp only [List.map_cons, List.sum_cons] at h
    refine ⟨?_, ih fun mode => ?_⟩
    · intro hb
      have hone : b.toNat ≠ 0 := fun hzero => hb (UInt64.toNat_inj.mp hzero)
      have hroot := Nat.sqrt_le_self b.toNat
      have hsimple := h .simple
      have hweighted := h .weighted
      have hquadratic := h .quadratic
      rw [← Amount.toNat_isqrt] at hroot
      simp only [power] at hsimple hweighted hquadratic
      exact ⟨by omega, by omega, by omega⟩
    · have hweight := mode.weight_le b
      have hcount := toNat_power_count mode e b (by have := h mode; omega)
      have hmode := h mode
      omega

namespace Standing

/-- No addition stops short while power is lent. -/
def LendsFit (m : SortedMap String Amount) : List Delegation → Prop
  | [] => True
  | d :: rest =>
    (∀ lent ∈ m.get? d.delegator,
      ((m.insert d.delegator 0).getD d.delegate 0).toNat + lent.toNat <
        UInt64.size) ∧
      LendsFit (lend m d) rest

theorem lendsFit_of_sum_lt {m : SortedMap String Amount} {ds : List Delegation}
    (hself : ∀ d ∈ ds, d.delegate ≠ d.delegator)
    (h : m.sumBy UInt64.toNat < UInt64.size) : LendsFit m ds := by
  induction ds generalizing m with
  | nil => trivial
  | cons d rest ih =>
    rw [List.forall_mem_cons] at hself
    refine ⟨?_, ih hself.2 (by rw [(held_lend hself.1 h).1]; exact h)⟩
    intro lent hlent
    have hheld : m.getD d.delegator 0 = lent := by
      rw [SortedMap.getD, hlent]; rfl
    -- the two balances are parts of one sum
    have hpair :
        (m.getD d.delegate 0).toNat + (m.getD d.delegator 0).toNat ≤
          m.sumBy UInt64.toNat :=
      Accounts.add_balance_le_total ⟨m, .empty, 0⟩ hself.1
    rw [SortedMap.getD_insert, if_neg hself.1, ← hheld]
    omega

/-- No addition stops short while it is found out what an account can vote with,
or how large the electorate is. -/
structure Unsaturated (s : Standing) (t : UInt64) : Prop where
  delegated : ∀ a, Amount.SumsFit
    (fun d : Delegation => s.accounts.balance d.delegator) 0
    (s.delegations.toDelegate a t)
  effective : ∀ a, (s.own a t).toNat + (s.delegated a t).toNat < UInt64.size
  backing : ∀ a (p : Proposal), Amount.SumsFit
    (fun d : Delegation => s.accounts.balance d.delegator) (s.own a t)
    ((s.delegations.toDelegate a t).filter fun d => !p.powerUsedBy d.delegator)
  lent : LendsFit s.accounts.holdings (s.delegations.active t)
  counted : Electorate.none.CountsFit (s.votingBalances t).values

section

variable {s : Standing} {a : String} {now t : UInt64} (hsound : s.Sound now)

include hsound

/-- An account and its delegators hold no more than there is. -/
theorem sum_behind_lt (a : String) (t : UInt64) :
    (s.own a t).toNat +
        ((s.delegations.toDelegate a t).map
          fun d => (s.accounts.balance d.delegator).toNat).sum <
      UInt64.size := by
  have hnodup :
      (a :: (s.delegations.toDelegate a t).map (·.delegator)).Nodup := by
    refine List.nodup_cons.mpr
      ⟨?_, hsound.keyed.nodup_delegators.sublist (List.filter_sublist.map _)⟩
    intro ha
    obtain ⟨d, hd, heq⟩ := List.mem_map.mp ha
    obtain ⟨hactive, hdelegate⟩ := Delegations.mem_toDelegate.mp hd
    exact hsound.keyed.of_mem (Delegations.mem_active.mp hactive).1
      (hdelegate.trans heq.symm)
  have hpart := SortedMap.sum_getD_le_sumBy
    (f := UInt64.toNat) (d := 0) rfl s.accounts.balances
    (a :: (s.delegations.toDelegate a t).map (·.delegator)).toFinset
  rw [List.sum_toFinset _ hnodup, List.map_cons, List.sum_cons,
    List.map_map] at hpart
  have hown : (s.own a t).toNat ≤ (s.accounts.balances.getD a 0).toNat :=
    s.own_le_balance a t
  have htotal : s.accounts.balances.sumBy UInt64.toNat < UInt64.size :=
    hsound.fits
  simp only [Function.comp_def] at hpart
  show _ + ((s.delegations.toDelegate a t).map
    fun d => (s.accounts.balances.getD d.delegator 0).toNat).sum < _
  omega

/-- And so do an account and those delegators whose power was not used on a
proposal yet. -/
theorem sum_backing_lt (a : String) (t : UInt64) (p : Proposal) :
    (s.own a t).toNat +
        ((s.backing a t p).delegators.map
          fun d => (s.accounts.balance d).toNat).sum <
      UInt64.size := by
  have hall := sum_behind_lt hsound a t
  have hpart : ((s.backing a t p).delegators.map fun d =>
      (s.accounts.balance d).toNat).sum ≤ ((s.delegations.toDelegate a t).map
        fun d => (s.accounts.balance d.delegator).toNat).sum := by
    rw [backing_delegators, List.map_map]
    exact (List.filter_sublist.map _).sum_le_sum fun _ _ => Nat.zero_le _
  omega

theorem unsaturated (t : UInt64) : s.Unsaturated t := by
  refine ⟨?_, ?_, ?_, ?_, ?_⟩
  · intro a
    have hall := sum_behind_lt hsound a t
    exact Amount.sumsFit_of_sum_lt (by rw [UInt64.toNat_zero]; omega)
  · intro a
    have hall := sum_behind_lt hsound a t
    rw [delegated, Amount.toNat_foldl_addCapped, UInt64.toNat_zero]
    omega
  · intro a p
    have hpart := sum_backing_lt hsound a t p
    rw [backing_delegators, List.map_map] at hpart
    exact Amount.sumsFit_of_sum_lt hpart
  · exact lendsFit_of_sum_lt (fun d hd => hsound.oneHop.apart t d hd d hd)
      hsound.holdings_lt
  · refine Electorate.countsFit_of_sum_lt fun mode => ?_
    have hnone : (Electorate.none.power mode).toNat = 0 := by cases mode <;> rfl
    rw [hnone, Nat.zero_add]
    exact sumBy_votingBalances_lt hsound t

/-! ## What the electorate counts for an account -/

/-- Behind the vote on a proposal without votes stands all that the electorate
counts. -/
theorem backing_eq_votingBalance {p : Proposal} (hp : p.votes = .empty)
    (ha : Address.isReserved a = false) :
    (s.backing a t p).balance = (s.votingBalances t).getD a 0 := by
  rw [backing_eq_effective hp]
  exact UInt64.toNat_inj.mp (toNat_effective_eq_held hsound ha)

/-- The electorate counts nothing for reserved accounts. -/
theorem held_votingBalances_of_reserved (ha : Address.isReserved a = true) :
    held (s.votingBalances t) a = 0 := by
  have hnothing : held s.accounts.holdings a = 0 := by
    rw [held, SortedMap.getD, Accounts.holdings, SortedMap.get?_filter, ha]
    cases s.accounts.balances.get? a <;> simp [Option.filter]
  have hnobody : (s.delegations.active t).filter (·.delegate = a) = [] := by
    refine List.filter_eq_nil_iff.mpr fun d hd hdelegate => ?_
    have hreceiver := hsound.oneHop.receivers d (Delegations.mem_active.mp hd).1
    rw [of_decide_eq_true hdelegate, ha] at hreceiver
    cases hreceiver
  rw [held_votingBalances hsound, hnothing, hnobody]
  exact ite_self 0

/-- **The electorate's power is what can be cast** on a proposal without
votes. -/
theorem exists_power_eq_sum (mode : VotingMode) {p : Proposal}
    (hp : p.votes = .empty) :
    ∃ voters : Finset String,
      (∀ a, a ∈ voters ↔
        Address.isReserved a = false ∧
          mode.weight (s.backing a t p).balance ≠ 0) ∧
      ((s.electorateAt t).power mode).toNat =
        ∑ a ∈ voters, (mode.weight (s.backing a t p).balance).toNat := by
  have hzero : (mode.weight 0).toNat = 0 := by rw [mode.weight_zero]; rfl
  have hbacking : ∀ a, Address.isReserved a = false →
      (s.backing a t p).balance = (s.votingBalances t).getD a 0 := fun a ha =>
    backing_eq_votingBalance hsound hp ha
  -- those for whom the electorate counts something are among the keys
  let voters := (s.votingBalances t).keys.toFinset.filter fun a =>
    Address.isReserved a = false ∧ mode.weight (s.backing a t p).balance ≠ 0
  have hmem : ∀ a, a ∈ voters ↔ Address.isReserved a = false ∧
      mode.weight (s.backing a t p).balance ≠ 0 := by
    intro a
    refine ⟨fun h => (Finset.mem_filter.mp h).2, fun h =>
      Finset.mem_filter.mpr ⟨?_, h⟩⟩
    rw [hbacking a h.1] at h
    refine List.mem_toFinset.mpr ?_
    cases hcounted : (s.votingBalances t).get? a with
    | none =>
      exact absurd
        (by rw [SortedMap.getD, hcounted]; exact mode.weight_zero) h.2
    | some counted =>
      exact List.mem_map.mpr
        ⟨(a, counted), SortedMap.get?_eq_some_iff.mp hcounted, rfl⟩
  refine ⟨voters, hmem, ?_⟩
  rw [toNat_power_electorateAt hsound,
    SortedMap.sumBy_eq_sum (f := fun b => (mode.weight b).toNat) hzero
      (s.votingBalances t) (s := voters) ?_]
  · refine Finset.sum_congr rfl fun a ha => ?_
    rw [hbacking a ((hmem a).mp ha).1]
  · intro a ha
    have hunreserved : Address.isReserved a = false := by
      rw [← Bool.not_eq_true]
      intro hreserved
      have hnothing := held_votingBalances_of_reserved hsound (t := t) hreserved
      exact ha (mode.toNat_weight_eq_zero_iff.mpr hnothing)
    refine (hmem a).mpr ⟨hunreserved, fun hnone => ha ?_⟩
    rw [hbacking a hunreserved] at hnone
    rw [hnone]
    rfl

/-- Lending neither makes nor loses power: one token, one vote. -/
theorem toNat_weighted_electorateAt (t : UInt64) :
    (s.electorateAt t).weighted.toNat =
      (s.accounts.balances.filter fun a _ => !Address.isReserved a).sumBy
        UInt64.toNat := by
  have hweight : ∀ b : Amount, VotingMode.weighted.weight b = b := fun b => by
    by_cases hzero : b = 0
    · rw [hzero, VotingMode.weight_zero]
    · exact if_neg hzero
  have hpower := toNat_power_electorateAt hsound .weighted t
  simp only [hweight] at hpower
  refine hpower.trans ((sumBy_votingBalances hsound t).trans ?_)
  -- the holdings leave out what has run empty
  refine SortedMap.sumBy_congr (f := UInt64.toNat) (d := 0) rfl fun a => ?_
  rw [SortedMap.getD, SortedMap.getD, Accounts.holdings, SortedMap.get?_filter,
    SortedMap.get?_filter]
  cases s.accounts.balances.get? a with
  | none => rfl
  | some held =>
    by_cases hzero : held = 0 <;> cases Address.isReserved a <;>
      simp [hzero, Option.filter]

end

end Standing

namespace Node

variable {config : Config} {n : Node}

/-- **The electorate is what can be cast.** At any time and in any mode its
power is the sum of the weights with which all accounts that are not reserved
can vote on a proposal that has no votes. The weighted power is the sum of all
their balances, whoever lends to whom. No sum on the way stops short. -/
theorem electorate_is_castable (h : n.Reachable config) (t : UInt64) :
    (∀ mode (p : Proposal), p.votes = .empty →
        ∃ voters : Finset String,
          (∀ a, a ∈ voters ↔
            Address.isReserved a = false ∧
              mode.weight (n.chain.standing.backing a t p).balance ≠ 0) ∧
          ((n.chain.standing.electorateAt t).power mode).toNat =
            ∑ a ∈ voters,
              (mode.weight (n.chain.standing.backing a t p).balance).toNat) ∧
      ((n.chain.standing.electorateAt t).power .weighted).toNat =
        (n.chain.accounts.balances.filter
          fun a _ => !Address.isReserved a).sumBy UInt64.toNat ∧
      n.chain.standing.Unsaturated t := by
  obtain ⟨rest, htracks⟩ := h.tracks
  have hsound := Chain.sound_of_ofBlocks htracks.history
  exact ⟨fun mode _ hp => Standing.exists_power_eq_sum hsound mode hp,
    Standing.toNat_weighted_electorateAt hsound t, Standing.unsaturated hsound t⟩

/-- In the run a delegation lapses: two accounts can vote before, and three
after. -/
theorem electorate_is_castable_fourFifths :
    ∃ n p, Reachable .fourFifths n ∧ p.votes = .empty ∧
      (∃ voters : Finset String, ∑ a ∈ voters,
        (VotingMode.simple.weight
            (n.chain.standing.backing a 29 p).balance).toNat =
          2) ∧
      ∃ voters : Finset String, ∑ a ∈ voters,
        (VotingMode.simple.weight
            (n.chain.standing.backing a 30 p).balance).toNat =
          3 := by
  obtain ⟨first, n, b, -, -, hn, -, -, hfacts⟩ := exists_twoProposals
  obtain ⟨q, -⟩ := hfacts.late
  let p := { q with votes := .empty }
  obtain ⟨before, -, htwo⟩ := (electorate_is_castable hn 29).1 .simple p rfl
  obtain ⟨after, -, hthree⟩ := (electorate_is_castable hn 30).1 .simple p rfl
  refine ⟨n, p, hn, rfl, ⟨before, ?_⟩, after, ?_⟩
  · exact htwo.symm.trans (congrArg UInt64.toNat hfacts.holders.1)
  · exact hthree.symm.trans (congrArg UInt64.toNat hfacts.holders.2)

end Node
end CouncilLedger
