import CouncilLedger.Proofs.Run
import Mathlib.Data.List.Nodup

/-!
# No power is used twice

A vote carries the power of its voter and of some delegators. On one proposal no
account is among those of two votes, or twice among those of one, in whatever
order votes, delegations and revocations come: a vote is refused when its voter
is carried already, and leaves out the delegators that are. The invariant is
`Council.PowerApart`; the main statement is `Node.votes_carry_disjoint_power`.
-/

namespace CouncilLedger

open Outcome

/-- The accounts whose power a vote carries. -/
def Vote.accounts (v : Vote) : List String := v.voter :: v.delegators

/-! ## Proposals -/

namespace Proposal

/-- Every vote is kept under its voter, and no account is carried twice. -/
structure PowerApart (p : Proposal) : Prop where
  keyed : ∀ k v, p.votes.get? k = some v → v.voter = k
  apart : (p.votes.values.flatMap Vote.accounts).Nodup

variable {p : Proposal}

/-- Power is used by the accounts that the votes carry. -/
theorem PowerApart.powerUsedBy_iff (h : p.PowerApart) {a : String} :
    p.powerUsedBy a = true ↔ a ∈ p.votes.values.flatMap Vote.accounts := by
  rw [powerUsedBy, Bool.or_eq_true, SortedMap.contains_iff, List.any_eq_true,
    List.mem_flatMap]
  constructor
  · rintro (⟨v, hv⟩ | ⟨v, hv, ha⟩)
    · exact ⟨v, SortedMap.mem_values_of_get? hv,
        h.keyed a v hv ▸ List.mem_cons_self⟩
    · exact ⟨v, hv, List.mem_cons_of_mem _ (by simpa using ha)⟩
  · rintro ⟨v, hv, ha⟩
    rcases List.mem_cons.mp ha with rfl | ha
    · obtain ⟨k, hk⟩ := SortedMap.mem_values_iff.mp hv
      exact .inl ⟨v, h.keyed k v hk ▸ hk⟩
    · exact .inr ⟨v, hv, by simpa using ha⟩

/-- No two votes are of one voter. -/
theorem PowerApart.nodup_voters (h : p.PowerApart) :
    (p.votes.values.map (·.voter)).Nodup := by
  rw [SortedMap.map_values_eq_keys h.keyed]
  exact SortedMap.nodup_keys p.votes

/-- Who has a vote has used its power. -/
theorem get?_votes_of_unused {a : String} (h : p.powerUsedBy a = false) :
    p.votes.get? a = none := by
  rw [powerUsedBy, Bool.or_eq_false_iff] at h
  exact SortedMap.contains_eq_false_iff.mp h.1

/-- A vote of accounts that were not carried yet. -/
theorem PowerApart.withVote (h : p.PowerApart) {v : Vote}
    (hnodup : v.accounts.Nodup)
    (hunused : ∀ a ∈ v.accounts, p.powerUsedBy a = false) (e : Electorate) :
    (p.withVote v e).PowerApart := by
  have hnew := get?_votes_of_unused (hunused v.voter List.mem_cons_self)
  refine ⟨?_, ?_⟩
  · intro k w hw
    have hw' : (p.votes.insert v.voter v).get? k = some w := hw
    rw [SortedMap.get?_insert] at hw'
    split at hw'
    · next hk =>
      cases hw'
      exact hk.symm
    · exact h.keyed k w hw'
  · have hperm :=
      (SortedMap.values_insert_perm v hnew).flatMap_right Vote.accounts
    refine hperm.nodup_iff.mpr ?_
    rw [List.flatMap_cons, List.nodup_append]
    refine ⟨hnodup, h.apart, ?_⟩
    intro a ha b hb heq
    have hused := h.powerUsedBy_iff.mpr (heq ▸ hb)
    rw [hunused a ha] at hused
    cases hused

end Proposal

/-! ## Delegations -/

namespace Delegations

/-- Every delegation is kept under its delegator, who lends to another
account. -/
def Keyed (ds : Delegations) : Prop :=
  ∀ k d, ds.get? k = some d → d.delegator = k ∧ d.delegate ≠ k

variable {ds : Delegations}

theorem Keyed.insert (h : ds.Keyed) {d : Delegation}
    (hself : d.delegate ≠ d.delegator) :
    Keyed (SortedMap.insert ds d.delegator d) := by
  intro k d' hd'
  rw [SortedMap.get?_insert] at hd'
  split at hd'
  · next hk =>
    cases hd'
    exact ⟨hk.symm, hk ▸ hself⟩
  · exact h k d' hd'

theorem Keyed.of_mem (h : ds.Keyed) {d : Delegation} (hd : d ∈ ds.values) :
    d.delegate ≠ d.delegator := by
  obtain ⟨k, hk⟩ := SortedMap.mem_values_iff.mp hd
  obtain ⟨hkey, hself⟩ := h k d hk
  rwa [hkey]

/-- No account is the delegator of two delegations. -/
theorem Keyed.nodup_delegators (h : ds.Keyed) :
    (ds.values.map (·.delegator)).Nodup := by
  rw [SortedMap.map_values_eq_keys fun k d hd => (h k d hd).1]
  exact SortedMap.nodup_keys ds

end Delegations

namespace Standing

variable {s : Standing} {voter : String} {t : UInt64} {p : Proposal}

/-- A vote carries the delegators whose power was not used yet. -/
theorem backing_delegators (s : Standing) (voter : String) (t : UInt64)
    (p : Proposal) :
    (s.backing voter t p).delegators =
      ((s.delegations.toDelegate voter t).filter
        fun d => !p.powerUsedBy d.delegator).map (·.delegator) := by
  have hfold : ∀ (l : List Delegation) (b : Backing),
      (l.foldl (fun b d =>
        (⟨Amount.addCapped b.balance (s.accounts.balance d.delegator),
          b.delegators ++ [d.delegator]⟩ : Backing)) b).delegators =
        b.delegators ++ l.map (·.delegator) := by
    intro l
    induction l with
    | nil => simp
    | cons d rest ih =>
      intro b
      rw [List.foldl_cons, ih]
      simp
  rw [backing, hfold, List.nil_append]

theorem mem_backing {a : String} (h : a ∈ (s.backing voter t p).delegators) :
    ∃ d ∈ s.delegations.values, d.delegate = voter ∧ p.powerUsedBy a = false ∧
      d.delegator = a := by
  rw [backing_delegators] at h
  obtain ⟨d, hd, rfl⟩ := List.mem_map.mp h
  obtain ⟨hto, hunused⟩ := List.mem_filter.mp hd
  obtain ⟨hmem, hactive⟩ := List.mem_filter.mp hto
  rw [Bool.and_eq_true, decide_eq_true_eq] at hactive
  exact ⟨d, hmem, hactive.1, by simpa using hunused, rfl⟩

/-- A vote carries unused power only. -/
theorem powerUsedBy_of_backing (hvoter : p.powerUsedBy voter = false) :
    ∀ a ∈ voter :: (s.backing voter t p).delegators,
      p.powerUsedBy a = false := by
  intro a ha
  rcases List.mem_cons.mp ha with rfl | ha
  · exact hvoter
  · obtain ⟨d, -, -, hunused, -⟩ := mem_backing ha
    exact hunused

/-- The delegators behind a vote are distinct, and none of them is the voter. -/
theorem nodup_backing (h : s.delegations.Keyed) :
    (voter :: (s.backing voter t p).delegators).Nodup := by
  refine List.nodup_cons.mpr ⟨?_, ?_⟩
  · intro hvoter
    obtain ⟨d, hd, hdelegate, -, hdelegator⟩ := mem_backing hvoter
    exact h.of_mem hd (hdelegate.trans hdelegator.symm)
  · rw [backing_delegators]
    have hsub : ((s.delegations.toDelegate voter t).filter
        fun d => !p.powerUsedBy d.delegator).Sublist s.delegations.values :=
      List.filter_sublist.trans List.filter_sublist
    exact h.nodup_delegators.sublist (hsub.map _)

end Standing

/-! ## The council -/

namespace Council

/-- Nobody lends to itself, and no power is used twice on a proposal; the ids of
proposals are distinct, and each is the only spelling that is looked up. -/
structure PowerApart (c : Council) : Prop where
  delegations : c.delegations.Keyed
  proposals : ∀ p ∈ c.proposals, p.PowerApart
  ids : (c.proposals.map (·.id)).Nodup
  normal : ∀ p ∈ c.proposals, normalizeId p.id = .ok p.id

variable {c : Council}

theorem PowerApart.proposal?_of_mem (h : c.PowerApart) {p : Proposal}
    (hp : p ∈ c.proposals) : c.proposal? p.id = some p := by
  cases hfind : c.proposal? p.id with
  | none => exact absurd (List.find?_eq_none.mp hfind p hp) (by simp)
  | some q =>
    rw [List.inj_on_of_nodup_map h.ids (mem_of_proposal? hfind) hp
      (id_of_proposal? hfind)]

/-- Another state of a proposal of the same id. -/
theorem PowerApart.setProposal (h : c.PowerApart) {id : String}
    {p p' : Proposal} (hp : c.proposal? id = some p) (hid : p'.id = p.id)
    (hapart : p'.PowerApart) : (c.setProposal p').PowerApart := by
  obtain ⟨before, after, hold, hnew⟩ := setProposal_of_proposal? hp hid
  have hmem : ∀ q ∈ (c.setProposal p').proposals, q = p' ∨
      q ∈ c.proposals := fun q hq =>
    mem_replaceFirst hq
  refine ⟨h.delegations, ?_, ?_, ?_⟩
  · intro q hq
    rcases hmem q hq with rfl | hq
    · exact hapart
    · exact h.proposals q hq
  · rw [hnew, List.map_append, List.map_cons, hid]
    simpa [hold] using h.ids
  · intro q hq
    rcases hmem q hq with rfl | hq
    · rw [hid]
      exact h.normal p (mem_of_proposal? hp)
    · exact h.normal q hq

theorem PowerApart.ofRules (rules : Rules) : (ofRules rules).PowerApart where
  delegations := fun _ _ h => nomatch h
  proposals := fun _ h => nomatch h
  ids := .nil
  normal := fun _ h => nomatch h

/-- A new proposal, named after its transaction. -/
theorem PowerApart.proposed (h : c.PowerApart) {d : Digest}
    (hnew : c.proposal? d.hex = none) (creator : String) (draft : Draft)
    (now height : UInt64) : PowerApart { c with
      proposals :=
        c.proposals ++ [.ofDraft d.hex creator draft now height] } := by
  refine ⟨h.delegations, ?_, ?_, ?_⟩
  · intro q hq
    rcases List.mem_append.mp hq with hq | hq
    · exact h.proposals q hq
    · cases List.mem_singleton.mp hq
      exact ⟨fun _ _ h => (nomatch h), .nil⟩
  · rw [List.map_append, List.nodup_append]
    refine ⟨h.ids, List.nodup_singleton _, ?_⟩
    intro a ha b hb heq
    obtain ⟨q, hq, rfl⟩ := List.mem_map.mp ha
    have hother := List.find?_eq_none.mp hnew q hq
    rw [List.mem_singleton.mp hb] at heq
    exact hother (by simpa [Proposal.ofDraft] using heq)
  · intro q hq
    rcases List.mem_append.mp hq with hq | hq
    · exact h.normal q hq
    · cases List.mem_singleton.mp hq
      show (Digest.ofHex d.hex).map Digest.hex = .ok d.hex
      rw [Digest.ofHex_hex]
      rfl

theorem PowerApart.settle (h : c.PowerApart) (now : UInt64)
    (electorate : UInt64 → Electorate) :
    (c.settle now electorate).PowerApart := by
  refine ⟨h.delegations, ?_, ?_, ?_⟩
  · intro q hq
    obtain ⟨p, hp, rfl⟩ := List.mem_map.mp hq
    exact ⟨(h.proposals p hp).keyed, (h.proposals p hp).apart⟩
  · rw [Council.settle, List.map_map]
    exact h.ids
  · intro q hq
    obtain ⟨p, hp, rfl⟩ := List.mem_map.mp hq
    exact h.normal p hp

end Council

/-! ## Transactions and blocks -/

namespace Ledger

variable {l l' : Ledger} {t : Transaction} {height now : UInt64}

/-- **Every action keeps power apart.** -/
theorem Acted.powerApart (hact : Acted height now l t l')
    (h : l.council.PowerApart) : l'.council.PowerApart := by
  cases hact with
  | mint => exact h
  | transfer => exact h
  | propose _ _ _ ok =>
    obtain ⟨-, -, hnew, rfl⟩ := Council.propose_ok ok
    exact h.proposed hnew t.sender _ now height
  | @vote text id choice p council _ _ _ found ok =>
    obtain ⟨q, hq, -, hvoter, -, -, rfl⟩ := Council.vote_ok ok
    -- the proposal that the weight was taken from is the one that is voted on
    cases found.symm.trans hq
    have hapart := h.proposals p (Council.mem_of_proposal? found)
    have hdelegations : l.standing.delegations.Keyed := h.delegations
    refine h.setProposal found rfl (hapart.withVote ?_ ?_ _)
    · exact Standing.nodup_backing hdelegations
    · exact Standing.powerUsedBy_of_backing hvoter
  | payOut _ _ _ _ authorized =>
    obtain ⟨p, hp, -, -, -, -, rfl⟩ := Council.authorizePayout_ok authorized
    have hapart := h.proposals p (Council.mem_of_proposal? hp)
    exact h.setProposal hp rfl ⟨hapart.keyed, hapart.apart⟩
  | delegate _ _ _ ok =>
    obtain ⟨hself, -, -, -, -, -, -, -, -, rfl⟩ := Council.delegate_ok ok
    exact ⟨h.delegations.insert (d := .lent t.sender _ now _ t.hash) hself.symm,
      h.proposals, h.ids, h.normal⟩
  | revoke _ _ ok =>
    obtain ⟨d, hd, -, rfl⟩ := Council.revoke_ok ok
    obtain ⟨hkey, hself⟩ := h.delegations t.sender d hd
    have hkeyed := h.delegations.insert
      (d := { d with revokedAt := some now }) (hkey ▸ hself)
    exact ⟨hkey ▸ hkeyed, h.proposals, h.ids, h.normal⟩

theorem Stage.powerApart {b : Block} {m m' : Ledger} (hstage : Stage b l m m')
    (h : m.council.PowerApart) : m'.council.PowerApart := by
  cases hstage with
  | opening | closing => exact h.settle _ _
  | acting _ _ ok => exact (apply_ok ok).2.powerApart h

theorem applyBlock_powerApart {b : Block} (hblock : l.applyBlock b = .ok l')
    (h : l.council.PowerApart) : l'.council.PowerApart :=
  applyBlock_stage_induction (P := fun m => m.council.PowerApart) hblock h
    fun _ _ hstage hm => hstage.powerApart hm

end Ledger

/-! ## Chains and nodes -/

theorem Chain.powerApart_of_ofBlocks {rules : Rules} {blocks : List Block}
    {c : Chain} (h : ofBlocks rules blocks = .ok c) : c.council.PowerApart :=
  ofBlocks_induction (P := fun _ l => l.council.PowerApart) h (.ofRules rules)
    fun _ _ _ _ hl hblock => Ledger.applyBlock_powerApart hblock hl

namespace Node

variable {config : Config} {n : Node}

/-- **No power is used twice on a proposal**: the accounts that two votes carry
are apart, and those of one vote are distinct. However its id is spelled, a
proposal is found under one spelling, and no two proposals share it. -/
theorem votes_carry_disjoint_power (h : n.Reachable config) :
    (n.chain.council.proposals.map (·.id)).Nodup ∧
      ∀ p ∈ n.chain.council.proposals,
        (p.votes.values.Pairwise fun v w => v.accounts.Disjoint w.accounts) ∧
        (∀ v ∈ p.votes.values, v.delegators.Nodup ∧ v.voter ∉ v.delegators) ∧
        ∀ text, Council.normalizeId text = Council.normalizeId p.id →
          ∃ id, Council.normalizeId text = .ok id ∧
            n.chain.council.proposal? id = some p := by
  obtain ⟨rest, htracks⟩ := h.tracks
  have hcouncil := Chain.powerApart_of_ofBlocks htracks.history
  refine ⟨hcouncil.ids, ?_⟩
  intro p hp
  have hid := hcouncil.normal p hp
  obtain ⟨hdistinct, hdisjoint⟩ :=
    List.nodup_flatMap.mp (hcouncil.proposals p hp).apart
  refine ⟨hdisjoint, ?_, ?_⟩
  · intro v hv
    exact (List.nodup_cons.mp (hdistinct v hv)).symm
  · intro text htext
    exact ⟨p.id, htext.trans hid, hcouncil.proposal?_of_mem hp⟩

/-- A vote that carries a delegator, who is not its voter. -/
theorem votes_carry_disjoint_power_voted :
    ∃ n, Reachable .twoHolders n ∧
      ∃ p ∈ n.chain.council.proposals, ∃ v ∈ p.votes.values,
        v.delegators = ["ben"] ∧ v.voter ∉ v.delegators := by
  obtain ⟨n, -, hn, -, p, hp, v, hv, hdelegators⟩ := exists_voted
  obtain ⟨-, hvotes, -⟩ := (votes_carry_disjoint_power hn).2 p hp
  exact ⟨n, hn, p, hp, v, hv, hdelegators, (hvotes v hv).2⟩

end Node
end CouncilLedger
