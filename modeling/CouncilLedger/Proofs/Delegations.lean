import CouncilLedger.Proofs.Voting

/-!
# Power is lent in one hop

At no time does an account that lends its power hold power of others: whoever
delegates holds no lent power at that time, and delegates to one that has not
lent its own. Delegations that are in force later were in force already when the
next one is made, since time only goes on. The accounts behind votes and the
delegators are no reserved ones. The invariant is `Council.Franchise`; the main
statement is `Chain.franchise_of_ofBlocks`.
-/

namespace CouncilLedger

open Outcome

/-! ## Delegations -/

namespace Delegation

variable {d : Delegation} {now t : UInt64}

theorem isActiveAt_iff : d.isActiveAt t = true ↔
    d.startsAt ≤ t ∧ t < d.endsAt ∧ d.revokedAt.all (t < ·) = true := by
  simp [isActiveAt, and_assoc]

/-- What has started and is in force later is in force now. -/
theorem isActiveAt_of_later (h : d.isActiveAt t = true)
    (hstarted : d.startsAt ≤ now) (hnow : now ≤ t) :
    d.isActiveAt now = true := by
  obtain ⟨-, hends, hrevoked⟩ := isActiveAt_iff.mp h
  refine isActiveAt_iff.mpr ⟨hstarted, UInt64.lt_of_le_of_lt hnow hends, ?_⟩
  cases hr : d.revokedAt with
  | none => rfl
  | some r =>
    rw [hr] at hrevoked
    have hlt : t < r := by simpa using hrevoked
    simpa using UInt64.lt_of_le_of_lt hnow hlt

/-- A delegation that is revoked now is in force only when it was before. -/
theorem isActiveAt_of_revoked (hnow : d.isActiveAt now = true)
    (h : isActiveAt { d with revokedAt := some now } t = true) :
    d.isActiveAt t = true := by
  obtain ⟨hstarted, hends, hrevoked⟩ := isActiveAt_iff.mp h
  have hlt : t < now := by simpa using hrevoked
  obtain ⟨-, -, hlater⟩ := isActiveAt_iff.mp hnow
  refine isActiveAt_iff.mpr ⟨hstarted, hends, ?_⟩
  cases hr : d.revokedAt with
  | none => rfl
  | some r =>
    rw [hr] at hlater
    have hlt' : now < r := by simpa using hlater
    simpa using UInt64.lt_trans hlt hlt'

end Delegation

namespace Delegations

variable {ds : Delegations} {d : Delegation} {a : String} {now t : UInt64}

theorem mem_active : d ∈ ds.active t ↔ d ∈ ds.values ∧ d.isActiveAt t = true :=
  List.mem_filter

theorem mem_toDelegate :
    d ∈ ds.toDelegate a t ↔ d ∈ ds.active t ∧ d.delegate = a := by
  simp only [toDelegate, active, List.mem_filter, Bool.and_eq_true,
    decide_eq_true_eq]
  tauto

/-- No account is the delegator of two delegations in force. -/
theorem Keyed.nodup_active (h : ds.Keyed) (t : UInt64) :
    ((ds.active t).map (·.delegator)).Nodup :=
  h.nodup_delegators.sublist (List.filter_sublist.map _)

/-- An account lends its power when a delegation of it is in force. -/
theorem Keyed.delegateOf?_eq_none_iff (h : ds.Keyed) :
    ds.delegateOf? a t = none ↔ ∀ d ∈ ds.active t, d.delegator ≠ a := by
  rw [delegateOf?, Option.map_eq_none_iff, Option.filter_eq_none_iff]
  constructor
  · intro hnone d hd
    obtain ⟨hmem, hactive⟩ := mem_active.mp hd
    obtain ⟨k, hk⟩ := SortedMap.mem_values_iff.mp hmem
    rintro rfl
    rw [(h k d hk).1] at hnone
    exact hnone d hk hactive
  · intro hnone d hd hactive
    exact hnone d
      (mem_active.mpr ⟨SortedMap.mem_values_of_get? hd, hactive⟩) (h a d hd).1

/-- Who lends power holds none of others, at any time, and power is lent among
accounts that are not reserved. -/
structure OneHop (ds : Delegations) (now : UInt64) : Prop where
  started : ∀ d ∈ ds.values, d.startsAt ≤ now
  unreserved : ∀ d ∈ ds.values, Address.isReserved d.delegator = false
  receivers : ∀ d ∈ ds.values, Address.isReserved d.delegate = false
  apart : ∀ t, ∀ d ∈ ds.active t, ∀ e ∈ ds.active t, d.delegate ≠ e.delegator

namespace OneHop

theorem empty (now : UInt64) : OneHop SortedMap.empty now where
  started := fun _ h => nomatch h
  unreserved := fun _ h => nomatch h
  receivers := fun _ h => nomatch h
  apart := fun _ _ h => nomatch h

theorem mono (h : ds.OneHop now) {later : UInt64} (hlater : now ≤ later) :
    ds.OneHop later where
  started := fun d hd => UInt64.le_trans (h.started d hd) hlater
  unreserved := h.unreserved
  receivers := h.receivers
  apart := h.apart

/-- What is in force later is what is left of what is in force now. -/
theorem active_later (h : ds.OneHop now) (hnow : now ≤ t) :
    ds.active t = (ds.active now).filter (·.isActiveAt t) := by
  rw [active, active, List.filter_filter]
  refine List.filter_congr fun d hd => ?_
  cases hactive : d.isActiveAt t with
  | false => rfl
  | true =>
    rw [Delegation.isActiveAt_of_later hactive
      (h.started d hd) hnow, Bool.and_self]

theorem active_now (h : ds.OneHop now) (hd : d ∈ ds.active t) (hnow : now ≤ t) :
    d ∈ ds.active now :=
  List.mem_of_mem_filter (h.active_later hnow ▸ hd)

/-- A delegation that starts now, by an account that neither lends nor holds
power of others, to one that does not lend. -/
theorem lent (h : ds.OneHop now) (hkeyed : ds.Keyed)
    {delegator delegate : String} {duration : UInt64} {transaction : Digest}
    (hself : delegator ≠ delegate)
    (hunreserved : Address.isReserved delegator = false)
    (hreceiver : Address.isReserved delegate = false)
    (hholds : ds.toDelegate delegator now = [])
    (honward : ds.delegateOf? delegate now = none) :
    OneHop
      (ds.insert delegator (.lent delegator delegate now duration transaction))
      now := by
  generalize hnew : Delegation.lent delegator delegate now duration
    transaction = new
  have hdelegator : new.delegator = delegator := by rw [← hnew]; rfl
  have hdelegate : new.delegate = delegate := by rw [← hnew]; rfl
  have hstarts : new.startsAt = now := by rw [← hnew]; rfl
  have hnow : ∀ t, new.isActiveAt t = true → now ≤ t := fun t ht =>
    hstarts ▸ (Delegation.isActiveAt_iff.mp ht).1
  refine ⟨?_, ?_, ?_, ?_⟩
  · intro d hd
    rcases SortedMap.mem_values_insert hd with rfl | hd
    · exact hstarts ▸ UInt64.le_refl _
    · exact h.started d hd
  · intro d hd
    rcases SortedMap.mem_values_insert hd with rfl | hd
    · rwa [hdelegator]
    · exact h.unreserved d hd
  · intro d hd
    rcases SortedMap.mem_values_insert hd with rfl | hd
    · rwa [hdelegate]
    · exact h.receivers d hd
  · intro t d hd e he
    obtain ⟨hdmem, hdactive⟩ := mem_active.mp hd
    obtain ⟨hemem, heactive⟩ := mem_active.mp he
    -- the new delegation against itself and against each of the old ones
    rcases SortedMap.mem_values_insert hdmem with rfl | hdold
    · rcases SortedMap.mem_values_insert hemem with rfl | heold
      · rw [hdelegate, hdelegator]
        exact hself.symm
      · have henow :=
          h.active_now (mem_active.mpr ⟨heold, heactive⟩) (hnow t hdactive)
        rw [hdelegate]
        exact (hkeyed.delegateOf?_eq_none_iff.mp honward e henow).symm
    · have hdnow : now ≤ t → d ∈ ds.active now :=
        h.active_now (mem_active.mpr ⟨hdold, hdactive⟩)
      rcases SortedMap.mem_values_insert hemem with rfl | heold
      · rw [hdelegator]
        intro heq
        have hto := mem_toDelegate.mpr ⟨hdnow (hnow t heactive), heq⟩
        rw [hholds] at hto
        cases hto
      · exact h.apart t d (mem_active.mpr ⟨hdold, hdactive⟩) e
          (mem_active.mpr ⟨heold, heactive⟩)

theorem revoked (h : ds.OneHop now) {delegator : String}
    (hd : ds.get? delegator = some d) (hactive : d.isActiveAt now = true) :
    OneHop (ds.insert delegator { d with revokedAt := some now }) now := by
  have hmem := SortedMap.mem_values_of_get? hd
  -- each entry has the ends and the start of an old one that is in force
  -- whenever it is
  have hold : ∀ e ∈
      SortedMap.values (ds.insert delegator { d with revokedAt := some now }),
      ∃ e' ∈ ds.values, e'.delegator = e.delegator ∧ e'.delegate = e.delegate ∧
        e'.startsAt = e.startsAt ∧ ∀ t, e.isActiveAt t = true →
        e'.isActiveAt t = true := by
    intro e he
    rcases SortedMap.mem_values_insert he with rfl | he
    · exact ⟨d, hmem, rfl, rfl, rfl, fun t =>
        Delegation.isActiveAt_of_revoked hactive⟩
    · exact ⟨e, he, rfl, rfl, rfl, fun t ht => ht⟩
  refine ⟨?_, ?_, ?_, ?_⟩
  · intro e he
    obtain ⟨e', he', -, -, hstart, -⟩ := hold e he
    exact hstart ▸ h.started e' he'
  · intro e he
    obtain ⟨e', he', hdelegator, -⟩ := hold e he
    exact hdelegator ▸ h.unreserved e' he'
  · intro e he
    obtain ⟨e', he', -, hdelegate, -⟩ := hold e he
    exact hdelegate ▸ h.receivers e' he'
  · intro t e he f hf
    obtain ⟨hemem, heactive⟩ := mem_active.mp he
    obtain ⟨hfmem, hfactive⟩ := mem_active.mp hf
    obtain ⟨e', he', -, hdelegate, -, hein⟩ := hold e hemem
    obtain ⟨f', hf', hdelegator, -, -, hfin⟩ := hold f hfmem
    rw [← hdelegate, ← hdelegator]
    exact h.apart t e' (mem_active.mpr ⟨he', hein t heactive⟩) f'
      (mem_active.mpr ⟨hf', hfin t hfactive⟩)

/-- An account that lends holds no power of others. -/
theorem toDelegate_eq_nil (h : ds.OneHop now) (hkeyed : ds.Keyed)
    (hlends : ds.delegateOf? a t ≠ none) : ds.toDelegate a t = [] := by
  simp only [ne_eq, hkeyed.delegateOf?_eq_none_iff, not_forall,
    not_not] at hlends
  obtain ⟨e, he, rfl⟩ := hlends
  rw [List.eq_nil_iff_forall_not_mem]
  intro d hd
  obtain ⟨hactive, hdelegate⟩ := mem_toDelegate.mp hd
  exact h.apart t d hactive e he hdelegate

end OneHop

end Delegations

/-! ## The council -/

namespace Council

/-- Power is lent in one hop, and no reserved account votes or lends. -/
structure Franchise (c : Council) (now : UInt64) : Prop where
  delegations : c.delegations.OneHop now
  voters : ∀ p ∈ c.proposals, ∀ v ∈ p.votes.values, ∀ a ∈ v.accounts,
    Address.isReserved a = false

variable {c : Council} {now : UInt64}

namespace Franchise

theorem ofRules (rules : Rules) (now : UInt64) :
    (ofRules rules).Franchise now where
  delegations := .empty now
  voters := fun _ h => nomatch h

theorem mono (h : c.Franchise now) {later : UInt64} (hlater : now ≤ later) :
    c.Franchise later :=
  ⟨h.delegations.mono hlater, h.voters⟩

theorem settle (h : c.Franchise now) (time : UInt64)
    (electorate : UInt64 → Electorate) :
    (c.settle time electorate).Franchise now := by
  refine ⟨h.delegations, ?_⟩
  intro q hq
  obtain ⟨p, hp, rfl⟩ := List.mem_map.mp hq
  exact h.voters p hp

/-- Another state of a proposal whose votes are of unreserved accounts. -/
theorem setProposal (h : c.Franchise now) {p : Proposal}
    (hp : ∀ v ∈ p.votes.values, ∀ a ∈ v.accounts, Address.isReserved a = false) :
    (c.setProposal p).Franchise now := by
  refine ⟨h.delegations, ?_⟩
  intro q hq
  rcases mem_replaceFirst hq with rfl | hq
  · exact hp
  · exact h.voters q hq

end Franchise
end Council

/-! ## Transactions and blocks -/

namespace Ledger

variable {l l' : Ledger} {t : Transaction} {height now : UInt64}

/-- **Every action keeps power lent in one hop**, among unreserved accounts. -/
theorem Acted.franchise (hact : Acted height now l t l')
    (hapart : l.council.PowerApart) (h : l.council.Franchise now) :
    l'.council.Franchise now := by
  cases hact with
  | mint => exact h
  | transfer => exact h
  | propose _ _ _ ok =>
    obtain ⟨-, -, -, rfl⟩ := Council.propose_ok ok
    refine ⟨h.delegations, ?_⟩
    intro q hq
    rcases List.mem_append.mp hq with hq | hq
    · exact h.voters q hq
    · rw [List.mem_singleton.mp hq]
      exact fun _ hv => nomatch hv
  | vote _ may _ _ ok =>
    obtain ⟨p, hp, -, -, -, -, rfl⟩ := Council.vote_ok ok
    refine h.setProposal ?_
    intro v hv a ha
    rcases SortedMap.mem_values_insert hv with rfl | hv
    · rcases List.mem_cons.mp ha with rfl | ha
      · exact may.unreserved
      · obtain ⟨d, hd, -, -, rfl⟩ := Standing.mem_backing ha
        exact h.delegations.unreserved d hd
    · exact h.voters p (Council.mem_of_proposal? hp) v hv a ha
  | payOut _ _ _ _ authorized =>
    obtain ⟨p, hp, -, -, -, -, rfl⟩ := Council.authorizePayout_ok authorized
    exact h.setProposal (h.voters p (Council.mem_of_proposal? hp))
  | delegate _ may _ ok =>
    obtain ⟨hself, hreceiver, -, -, -, -, -, hholds, honward, rfl⟩ :=
      Council.delegate_ok ok
    exact ⟨h.delegations.lent hapart.delegations hself may.unreserved hreceiver
      hholds honward, h.voters⟩
  | revoke _ _ ok =>
    obtain ⟨d, hd, hactive, rfl⟩ := Council.revoke_ok ok
    exact ⟨h.delegations.revoked hd hactive, h.voters⟩

theorem applyBlock_franchise {b : Block} (hblock : l.applyBlock b = .ok l')
    (hapart : l.council.PowerApart) (h : l.council.Franchise b.timestamp) :
    l'.council.Franchise b.timestamp := by
  have hboth : l'.council.PowerApart ∧ l'.council.Franchise b.timestamp := by
    refine applyBlock_induction (P := fun m => m.council.PowerApart ∧
      m.council.Franchise b.timestamp) hblock ⟨hapart, h⟩ ?_ ?_
    · exact fun m hm => ⟨hm.1.settle _ _, hm.2.settle _ _⟩
    · exact fun t _ m m' hm hstep => ⟨(apply_ok hstep).2.powerApart hm.1,
        (apply_ok hstep).2.franchise hm.1 hm.2⟩
  exact hboth.2

end Ledger

/-! ## Chains -/

namespace Chain

/-- The time of the last block. -/
def time (c : Chain) : UInt64 := (c.tip.map (·.timestamp)).getD 0

variable {rules : Rules} {blocks : List Block} {c : Chain}

/-- The time of a valid block is not before that of the last one. -/
theorem time_le_timestamp {b : Block} (h : c.checkLink b = .ok ()) :
    c.time ≤ b.timestamp := by
  obtain ⟨-, -, htime⟩ := checkLink_ok h
  unfold time
  cases htip : c.tip with
  | none => exact UInt64.le_iff_toNat_le.mpr (Nat.zero_le _)
  | some tip => exact htime tip htip

theorem franchise_of_ofBlocks (h : ofBlocks rules blocks = .ok c) :
    c.council.Franchise c.time := by
  refine ofBlocks_validate_induction
    (P := fun _ c => c.council.Franchise c.time) h (.ofRules rules _) ?_
  intro before m b after hm hfranchise hvalid
  obtain ⟨-, hlink, -, hblock⟩ := validate_ok hvalid
  exact Ledger.applyBlock_franchise hblock (powerApart_of_ofBlocks hm)
    (hfranchise.mono (time_le_timestamp hlink))

end Chain
end CouncilLedger
