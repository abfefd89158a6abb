import CouncilLedger.Proofs.Electorate

/-!
# Delegations that lapse

While no block comes, delegations only end, and what was lent is back with its
owner. One balance then counts as two, which weigh at least as much together. So
the power of the electorate does not fall in any mode, and an electorate without
power stays without. The main statement is `Standing.power_le_of_later`.
-/

namespace CouncilLedger.Standing

variable (mode : VotingMode) {m : SortedMap String Amount} {d : Delegation}
    {ds es : List Delegation}

/-! ## Lending and weights -/

/-- Lending does not raise the sum of all weights. -/
theorem sumBy_weight_lend_le (m : SortedMap String Amount)
    (hself : d.delegate ≠ d.delegator) :
    (lend m d).sumBy (fun b => (mode.weight b).toNat) ≤
      m.sumBy fun b => (mode.weight b).toNat := by
  have hzero : (mode.weight 0).toNat = 0 := by rw [mode.weight_zero]; rfl
  have hemptied := SortedMap.sumBy_insert_getD
    (f := fun b => (mode.weight b).toNat) hzero m d.delegator 0
  unfold lend
  cases hlent : m.get? d.delegator with
  | none =>
    simp only at hemptied ⊢
    omega
  | some lent =>
    have hheld : m.getD d.delegator 0 = lent := by
      rw [SortedMap.getD, hlent]; rfl
    have hother :
        (m.insert d.delegator 0).getD d.delegate 0 = m.getD d.delegate 0 := by
      rw [SortedMap.getD_insert, if_neg hself]
    have hsum : (Amount.addCapped (m.getD d.delegate 0) lent).toNat ≤
        (m.getD d.delegate 0).toNat + lent.toNat := by
      rw [Amount.toNat_addCapped]
      exact Nat.min_le_left _ _
    have hfilled := SortedMap.sumBy_insert_getD (f := fun b =>
      (mode.weight b).toNat) hzero (m.insert d.delegator 0) d.delegate
      (Amount.addCapped (m.getD d.delegate 0) lent)
    have hweight := mode.weight_add_le hsum
    simp only [hheld, hother] at hemptied hfilled hweight ⊢
    omega

theorem sumBy_weight_foldl_lend_le (m : SortedMap String Amount)
    (hself : ∀ d ∈ ds, d.delegate ≠ d.delegator) :
    (ds.foldl lend m).sumBy (fun b => (mode.weight b).toNat) ≤
      m.sumBy fun b => (mode.weight b).toNat := by
  induction ds generalizing m with
  | nil => exact Nat.le_refl _
  | cons d rest ih =>
    rw [List.forall_mem_cons] at hself
    exact Nat.le_trans (ih (lend m d) hself.2)
      (sumBy_weight_lend_le mode m hself.1)

/-- The order in which power is lent does not matter. -/
theorem held_foldl_lend_of_perm (hperm : ds.Perm es)
    (hnodup : (ds.map (·.delegator)).Nodup)
    (hapart : ∀ d ∈ ds, ∀ e ∈ ds, d.delegate ≠ e.delegator)
    (hfits : m.sumBy UInt64.toNat < UInt64.size) (a : String) :
    held (ds.foldl lend m) a = held (es.foldl lend m) a := by
  have hnodup' : (es.map (·.delegator)).Nodup :=
    (hperm.map _).nodup_iff.mp hnodup
  have hapart' : ∀ d ∈ es, ∀ e ∈ es, d.delegate ≠ e.delegator :=
    fun d hd e he =>
    hapart d (hperm.mem_iff.mpr hd) e (hperm.mem_iff.mpr he)
  have hlends : a ∈ ds.map (·.delegator) ↔ a ∈ es.map (·.delegator) :=
    (hperm.map _).mem_iff
  have hlent :=
    ((hperm.filter (·.delegate = a)).map fun d => held m d.delegator).sum_eq
  rw [(held_foldl_lend hnodup hapart hfits).2,
    (held_foldl_lend hnodup' hapart' hfits).2, hlent]
  exact if_congr hlends rfl rfl

theorem sumBy_weight_eq_zero_iff :
    m.sumBy (fun b => (mode.weight b).toNat) = 0 ↔
      m.sumBy UInt64.toNat = 0 := by
  simp [SortedMap.sumBy, List.sum_eq_zero_iff, mode.toNat_weight_eq_zero_iff]

/-! ## The power at a later time -/

section

variable {s : Standing} {now t : UInt64} (hsound : s.Sound now)

include hsound

theorem sumBy_weight_votingBalances_le (hnow : now ≤ t) :
    (s.votingBalances now).sumBy (fun b => (mode.weight b).toNat) ≤
      (s.votingBalances t).sumBy fun b => (mode.weight b).toNat := by
  have hzero : (mode.weight 0).toNat = 0 := by rw [mode.weight_zero]; rfl
  -- what is in force now is what is in force then and what lapses until then
  let lapsed := (s.delegations.active now).filter fun d => !d.isActiveAt t
  have hperm :
      (s.delegations.active now).Perm (s.delegations.active t ++ lapsed) := by
    rw [hsound.oneHop.active_later hnow]
    exact (List.filter_append_perm _ _).symm
  have hself : ∀ d ∈ lapsed, d.delegate ≠ d.delegator := fun d hd =>
    hsound.oneHop.apart now d (List.mem_of_mem_filter hd) d
      (List.mem_of_mem_filter hd)
  have hheld := held_foldl_lend_of_perm (m := s.accounts.holdings) hperm
    (hsound.keyed.nodup_active now) (hsound.oneHop.apart now) hsound.holdings_lt
  calc (s.votingBalances now).sumBy (fun b => (mode.weight b).toNat)
      = ((s.delegations.active t ++ lapsed).foldl lend
          s.accounts.holdings).sumBy (fun b => (mode.weight b).toNat) := by
        refine SortedMap.sumBy_congr (f := fun b => (mode.weight b).toNat)
          hzero fun a => ?_
        exact congrArg (fun b => (mode.weight b).toNat)
          (UInt64.toNat_inj.mp (hheld a))
    _ = (lapsed.foldl lend (s.votingBalances t)).sumBy
          (fun b => (mode.weight b).toNat) := by
        rw [List.foldl_append]
        rfl
    _ ≤ (s.votingBalances t).sumBy fun b => (mode.weight b).toNat :=
        sumBy_weight_foldl_lend_le mode _ hself

/-- **The electorate's power does not fall** while no block comes. -/
theorem power_le_of_later (hnow : now ≤ t) :
    ((s.electorateAt now).power mode).toNat ≤
      ((s.electorateAt t).power mode).toNat := by
  rw [toNat_power_electorateAt hsound, toNat_power_electorateAt hsound]
  exact sumBy_weight_votingBalances_le mode hsound hnow

/-- An electorate without power has none at any time: no tokens are voted
with. -/
theorem power_eq_zero_of_power_eq_zero (t : UInt64)
    (hnone : ((s.electorateAt now).power mode).toNat = 0) :
    ((s.electorateAt t).power mode).toNat = 0 := by
  rw [toNat_power_electorateAt hsound, sumBy_weight_eq_zero_iff,
    sumBy_votingBalances hsound] at hnone ⊢
  exact hnone

end

end CouncilLedger.Standing
