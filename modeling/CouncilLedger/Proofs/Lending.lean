import CouncilLedger.Proofs.Delegations

/-!
# Delegations that are over stay over

The book keeps each delegation as it was made, but for a time of revocation that
may come once: what a transaction does to the book is `Delegations.Becomes`, and
what a run does to one delegation is `Delegation.Becomes`. A delegation is told
by the hash of its transaction, which no later one shares, so what has ended or
was revoked is not in force again. The main statement is
`Node.delegations_one_hop`.
-/

namespace CouncilLedger

open Outcome

/-! ## One delegation -/

namespace Delegation

variable {d e : Delegation} {since now t later : UInt64}

/-- Whether a delegation is over at a time: it has ended, or it was revoked. -/
def isOverAt (d : Delegation) (t : UInt64) : Bool :=
  d.endsAt ≤ t || d.revokedAt.any (· ≤ t)

theorem isActiveAt_eq (d : Delegation) (t : UInt64) :
    d.isActiveAt t = (decide (d.startsAt ≤ t) && !d.isOverAt t) := by
  cases hr : d.revokedAt <;> simp [isActiveAt, isOverAt, hr, ← UInt64.not_le,
    Bool.and_assoc]

theorem isOverAt_of_le (h : d.isOverAt t = true) (hlater : t ≤ later) :
    d.isOverAt later = true := by
  rw [isOverAt, Bool.or_eq_true, decide_eq_true_eq, Option.any_eq_true] at h ⊢
  refine h.imp (UInt64.le_trans · hlater) ?_
  rintro ⟨r, hr, hrevoked⟩
  exact ⟨r, hr,
    decide_eq_true (UInt64.le_trans (of_decide_eq_true hrevoked) hlater)⟩

/-- What is over is not in force from then on. -/
theorem isActiveAt_of_isOverAt (h : d.isOverAt t = true) (hlater : t ≤ later) :
    d.isActiveAt later = false := by
  rw [isActiveAt_eq, isOverAt_of_le h hlater, Bool.not_true, Bool.and_false]

/-- A delegation lasts no longer than is allowed, and was revoked in its time if
at all. -/
structure WithinTerm (d : Delegation) (now : UInt64) : Prop where
  ordered : d.startsAt ≤ d.endsAt
  span : d.endsAt.toNat ≤ d.startsAt.toNat + maxDuration.toNat
  revoked : ∀ r ∈ d.revokedAt, d.startsAt ≤ r ∧ r < d.endsAt ∧ r ≤ now

theorem WithinTerm.mono (h : d.WithinTerm now) (hlater : now ≤ later) :
    d.WithinTerm later where
  ordered := h.ordered
  span := h.span
  revoked := fun r hr => (h.revoked r hr).imp_right
    (And.imp_right (UInt64.le_trans · hlater))

theorem withinTerm_lent (delegator delegate : String) (now : UInt64)
    {duration : UInt64} (transaction : Digest) (h : duration ≤ maxDuration) :
    (lent delegator delegate now duration transaction).WithinTerm now := by
  have hends :
      (lent delegator delegate now duration transaction).endsAt.toNat =
        min (now.toNat + duration.toNat) (UInt64.size - 1) :=
    Amount.toNat_addCapped now duration
  have hstarts :
      (lent delegator delegate now duration transaction).startsAt = now := rfl
  have hbound := now.toNat_lt
  rw [UInt64.le_iff_toNat_le] at h
  refine ⟨UInt64.le_iff_toNat_le.mpr ?_, ?_, nofun⟩
  · rw [hstarts, hends, UInt64.size]
    omega
  · rw [hstarts, hends]
    omega

theorem WithinTerm.revoke (h : d.WithinTerm now)
    (hactive : d.isActiveAt now = true) :
    WithinTerm { d with revokedAt := some now } now := by
  obtain ⟨hstarted, hends, -⟩ := isActiveAt_iff.mp hactive
  refine ⟨h.ordered, h.span, ?_⟩
  rintro r ⟨⟩
  exact ⟨hstarted, hends, UInt64.le_refl _⟩

/-- What is in force has not been revoked. -/
theorem WithinTerm.revokedAt_eq_none (h : d.WithinTerm now)
    (hactive : d.isActiveAt now = true) : d.revokedAt = none := by
  obtain ⟨-, -, hrevoked⟩ := isActiveAt_iff.mp hactive
  rw [Option.eq_none_iff_forall_ne_some]
  intro r hr
  rw [hr] at hrevoked
  exact UInt64.not_lt.mpr (h.revoked r hr).2.2 (by simpa using hrevoked)

/-- What becomes of a delegation from a time on: nothing, or it is revoked once
while it is in force. -/
inductive Becomes (since : UInt64) (d : Delegation) : Delegation → Prop where
  | kept : Becomes since d d
  | revoked {r : UInt64} (unrevoked : d.revokedAt = none)
      (inForce : d.isActiveAt r = true) (late : since ≤ r) :
      Becomes since d { d with revokedAt := some r }

/-- A delegation that was over stays over. -/
theorem Becomes.isActiveAt_of_isOverAt (h : d.Becomes since e)
    (hover : d.isOverAt t = true) (hlater : t ≤ later) :
    e.isActiveAt later = false := by
  refine Delegation.isActiveAt_of_isOverAt (t := t) ?_ hlater
  cases h with
  | kept => exact hover
  | revoked unrevoked =>
    -- it was not revoked before, so it has ended
    simp only [isOverAt, unrevoked, Option.any_none, Bool.or_false] at hover
    simp only [isOverAt, hover, Bool.true_or]

end Delegation

/-! ## The book -/

namespace Delegations

/-- What a transaction at `now` makes of the book. -/
inductive Becomes (now : UInt64) (t : Transaction) (ds : Delegations) :
    Delegations → Prop where
  | same : Becomes now t ds ds
  | lent {delegate : String} {duration : UInt64}
      (limited : duration ≤ Delegation.maxDuration) :
      Becomes now t ds
        (ds.insert t.sender (.lent t.sender delegate now duration t.hash))
  | revoked {d : Delegation} (held : ds.get? t.sender = some d)
      (inForce : d.isActiveAt now = true) :
      Becomes now t ds (ds.insert t.sender { d with revokedAt := some now })

/-- Every delegation keeps its term. -/
def WithinTerms (ds : Delegations) (now : UInt64) : Prop :=
  ∀ d ∈ ds.values, d.WithinTerm now

/-- Every delegation is of a transaction of its delegator. -/
def MadeBy (ds : Delegations) (ts : List Transaction) : Prop :=
  ∀ d ∈ ds.values, ∃ t ∈ ts, t.hash = d.transaction ∧ t.sender = d.delegator

/-- All that the book still has of a delegation is what may have become of
it. -/
def Retains (ds : Delegations) (since : UInt64) (d : Delegation) : Prop :=
  ∀ e ∈ ds.values, e.transaction = d.transaction → d.Becomes since e

variable {ds ds' : Delegations}
    {d : Delegation} {t : Transaction} {ts : List Transaction}
  {since now : UInt64}

theorem WithinTerms.mono (h : ds.WithinTerms now) {later : UInt64}
    (hlater : now ≤ later) : ds.WithinTerms later :=
  fun d hd => (h d hd).mono hlater

theorem Becomes.withinTerms (h : ds.Becomes now t ds')
    (hds : ds.WithinTerms now) : ds'.WithinTerms now := by
  cases h with
  | same => exact hds
  | lent limited =>
    intro d hd
    rcases SortedMap.mem_values_insert hd with rfl | hd
    · exact Delegation.withinTerm_lent _ _ now _ limited
    · exact hds d hd
  | revoked held inForce =>
    intro d hd
    rcases SortedMap.mem_values_insert hd with rfl | hd
    · exact (hds _ (SortedMap.mem_values_of_get? held)).revoke inForce
    · exact hds d hd

theorem Becomes.madeBy (h : ds.Becomes now t ds') (hds : ds.MadeBy ts) :
    ds'.MadeBy (ts ++ [t]) := by
  have hold :
      ∀ d ∈ ds.values, ∃ u ∈ ts ++ [t], u.hash = d.transaction ∧
        u.sender = d.delegator :=
    fun d hd => (hds d hd).imp fun _ => And.imp_left (List.mem_append_left _)
  cases h with
  | same => exact hold
  | lent =>
    intro d hd
    rcases SortedMap.mem_values_insert hd with rfl | hd
    · exact ⟨t, by simp, rfl, rfl⟩
    · exact hold d hd
  | @revoked held hheld =>
    intro d hd
    rcases SortedMap.mem_values_insert hd with rfl | hd
    · exact hold held (SortedMap.mem_values_of_get? hheld)
    · exact hold d hd

/-- A transaction that is not the one of a delegation revokes it at most. -/
theorem Becomes.retains (h : ds.Becomes now t ds') (hds : ds.WithinTerms now)
    (hsince : since ≤ now) (hother : t.hash ≠ d.transaction)
    (hretains : ds.Retains since d) : ds'.Retains since d := by
  cases h with
  | same => exact hretains
  | lent =>
    intro e he hsame
    rcases SortedMap.mem_values_insert he with rfl | he
    · exact absurd hsame hother
    · exact hretains e he hsame
  | @revoked held hheld inForce =>
    intro e he hsame
    rcases SortedMap.mem_values_insert he with rfl | he
    · have hmem := SortedMap.mem_values_of_get? hheld
      have hunrevoked := (hds held hmem).revokedAt_eq_none inForce
      -- what is revoked now was not revoked before, so it is as it was
      cases hretains held hmem hsame with
      | kept => exact .revoked hunrevoked inForce hsince
      | revoked => cases hunrevoked
    · exact hretains e he hsame

/-- The book holds a delegation of each transaction once. -/
theorem MadeBy.retains (h : ds.MadeBy ts) (hkeyed : ds.Keyed)
    (hdistinct : (ts.map (·.hash)).Nodup) (hd : d ∈ ds.values) :
    ds.Retains since d := by
  intro e he hsame
  obtain ⟨t, ht, hthash, htsender⟩ := h d hd
  obtain ⟨u, hu, huhash, husender⟩ := h e he
  cases List.inj_on_of_nodup_map hdistinct hu ht (by rw [huhash, hsame, hthash])
  have hdelegator : e.delegator = d.delegator := husender.symm.trans htsender
  rw [List.inj_on_of_nodup_map hkeyed.nodup_delegators he hd hdelegator]
  exact .kept

end Delegations

/-! ## Transactions and blocks -/

namespace Ledger

variable {l l' : Ledger} {t : Transaction} {height now : UInt64} {b : Block}

/-- **Every action leaves the book as it is**, or lends, or revokes. -/
theorem Acted.delegations (hact : Acted height now l t l') :
    l.council.delegations.Becomes now t l'.council.delegations := by
  cases hact with
  | mint | transfer => exact .same
  | propose _ _ _ ok =>
    obtain ⟨-, -, -, rfl⟩ := Council.propose_ok ok
    exact .same
  | vote _ _ _ _ ok =>
    obtain ⟨p, -, -, -, -, -, rfl⟩ := Council.vote_ok ok
    exact .same
  | payOut _ _ _ _ authorized =>
    obtain ⟨p, -, -, -, -, -, rfl⟩ := Council.authorizePayout_ok authorized
    exact .same
  | delegate _ _ _ ok =>
    obtain ⟨-, -, -, -, hlimited, -, -, -, -, rfl⟩ := Council.delegate_ok ok
    exact .lent hlimited
  | revoke _ _ ok =>
    obtain ⟨d, hd, hactive, rfl⟩ := Council.revoke_ok ok
    exact .revoked hd hactive

theorem applyBlock_withinTerms (hblock : l.applyBlock b = .ok l')
    (h : l.council.delegations.WithinTerms b.timestamp) :
    l'.council.delegations.WithinTerms b.timestamp :=
  applyBlock_induction (P := fun m =>
    m.council.delegations.WithinTerms b.timestamp) hblock h (fun _ hm => hm)
    fun _ _ _ _ hm hstep => (apply_ok hstep).2.delegations.withinTerms hm

theorem applyBlock_madeBy {ts : List Transaction}
    (hblock : l.applyBlock b = .ok l') (h : l.council.delegations.MadeBy ts) :
    l'.council.delegations.MadeBy (ts ++ b.transactions) :=
  applyBlock_append_induction (P := fun ts m => m.council.delegations.MadeBy ts)
    hblock h (fun _ _ hm => hm) fun _ _ _ _ _ hm hstep =>
    (apply_ok hstep).2.delegations.madeBy hm

theorem applyBlock_retains {since : UInt64} {d : Delegation}
    (hblock : l.applyBlock b = .ok l')
    (hterms : l.council.delegations.WithinTerms b.timestamp)
    (hsince : since ≤ b.timestamp)
    (hothers : ∀ t ∈ b.transactions, t.hash ≠ d.transaction)
    (h : l.council.delegations.Retains since d) :
    l'.council.delegations.Retains since d := by
  have hboth : l'.council.delegations.WithinTerms b.timestamp ∧
      l'.council.delegations.Retains since d := by
    refine applyBlock_induction (P := fun m => m.council.delegations.WithinTerms
      b.timestamp ∧ m.council.delegations.Retains since d) hblock ⟨hterms, h⟩
      (fun _ hm => hm) ?_
    intro t ht m m' hm hstep
    have hbecomes := (apply_ok hstep).2.delegations
    exact ⟨hbecomes.withinTerms hm.1, hbecomes.retains hm.1 hsince
      (hothers t ht) hm.2⟩
  exact hboth.2

end Ledger

/-! ## Chains -/

namespace Chain

variable {rules : Rules} {blocks more : List Block} {c c' : Chain}
    {d : Delegation}

theorem withinTerms_of_ofBlocks (h : ofBlocks rules blocks = .ok c) :
    c.council.delegations.WithinTerms c.time := by
  refine ofBlocks_validate_induction (P := fun _ c =>
    c.council.delegations.WithinTerms c.time) h (fun _ hd => nomatch hd) ?_
  intro before m b after _ hterms hvalid
  obtain ⟨-, hlink, -, hblock⟩ := validate_ok hvalid
  exact Ledger.applyBlock_withinTerms hblock
    (hterms.mono (time_le_timestamp hlink))

theorem madeBy_of_ofBlocks (h : ofBlocks rules blocks = .ok c) :
    c.council.delegations.MadeBy (blocks.flatMap (·.transactions)) :=
  ofBlocks_transactions_induction (P := fun ts l =>
    l.council.delegations.MadeBy ts) h (fun _ hd => nomatch hd)
    fun _ _ _ _ hl hblock => Ledger.applyBlock_madeBy hblock hl

/-- **A delegation is never made again**: further blocks revoke it at most. -/
theorem retains_of_ofBlocks (h : ofBlocks rules blocks = .ok c)
    (hmore : ofBlocks rules (blocks ++ more) = .ok c')
    (hd : d ∈ c.council.delegations.values) :
    c'.council.delegations.Retains c.time d := by
  have hmade := madeBy_of_ofBlocks h
  obtain ⟨made, hmem, hhash, -⟩ := hmade d hd
  have hstart : c.council.delegations.Retains c.time d :=
    hmade.retains (powerApart_of_ofBlocks h).delegations
      (indexes_of_ofBlocks h).distinct hd
  have hfinal :
      (∃ t ∈ (blocks ++ more).flatMap (·.transactions),
          t.hash = d.transaction) ∧
        c.time ≤ c'.time ∧ c'.council.delegations.Retains c.time d := by
    refine ofBlocks_append_validate_induction (P := fun bs c' =>
      (∃ t ∈ bs.flatMap (·.transactions), t.hash = d.transaction) ∧
        c.time ≤ c'.time ∧ c'.council.delegations.Retains c.time d) h hmore
      ⟨⟨made, hmem, hhash⟩, UInt64.le_refl _, hstart⟩ ?_
    rintro before m b after hm ⟨⟨t, ht, hthash⟩, htime, hretains⟩ hvalid
    obtain ⟨-, hlink, harchive, hblock⟩ := validate_ok hvalid
    have hlater := time_le_timestamp hlink
    have hindexes :
        (m.extended b after).Indexes
          (before.flatMap (·.transactions) ++ b.transactions) :=
      (indexes_of_ofBlocks hm).extended harchive
    have hdistinct := hindexes.distinct
    -- the hash of the delegation is taken
    have hothers : ∀ u ∈ b.transactions, u.hash ≠ d.transaction := by
      intro u hu heq
      rw [List.map_append, List.nodup_append] at hdistinct
      exact hdistinct.2.2 _ (List.mem_map_of_mem ht) _ (List.mem_map_of_mem hu)
        (hthash.trans heq.symm)
    refine ⟨⟨t, ?_, hthash⟩, UInt64.le_trans htime hlater, ?_⟩
    · rw [List.flatMap_append]
      exact List.mem_append_left _ ht
    · exact Ledger.applyBlock_retains hblock ((withinTerms_of_ofBlocks hm).mono
        hlater) (UInt64.le_trans htime hlater) hothers hretains
  exact hfinal.2.2

end Chain

/-! ## Nodes -/

/-- A block in which one of the two holders lends its power, takes it back, and
then receives that of the other, all at one time. -/
def Block.lentBack (parent : Option Digest) : Block :=
  .build 1 parent 0
    [.ofAction "ben" 0 0 (.delegate "ada" 60), .ofAction "ben" 1 0 .revoke,
      .ofAction "ada" 0 0 (.delegate "ben" 60)]

theorem Block.isMade_lentBack (parent : Option Digest) :
    (lentBack parent).IsMade :=
  isMade_build (by simp)

namespace Node

variable {config : Config} {n : Node}

/-- **Delegations are one hop at every instant, and what is over stays over.**
At no time does an account that lends its power receive that of another. Every
delegation is kept under its delegator, lends to another account that is not
reserved, and lasts no longer than is allowed. Whatever runs follow, a
delegation is only ever revoked, and once it has ended or was revoked, nothing
of it is in force at any time from then on. -/
theorem delegations_one_hop (h : n.Reachable config) :
    (∀ t, ∀ d ∈ n.chain.council.delegations.active t,
        ∀ e ∈ n.chain.council.delegations.active t, d.delegator ≠ e.delegate) ∧
      (∀ a d, n.chain.council.delegations.get? a = some d →
        d.delegator = a ∧ d.delegate ≠ a ∧
          Address.isReserved d.delegate = false ∧ d.startsAt ≤ n.chain.time ∧
          d.WithinTerm n.chain.time) ∧
      ∀ next, Run config n next →
        ∀ d ∈ n.chain.council.delegations.values,
          ∀ e ∈ next.chain.council.delegations.values,
            e.transaction = d.transaction →
              d.Becomes n.chain.time e ∧
              ∀ t later, d.isOverAt t = true → t ≤ later →
                e.isActiveAt later = false := by
  obtain ⟨rest, htracks⟩ := h.tracks
  have hapart := Chain.powerApart_of_ofBlocks htracks.history
  have honeHop := (Chain.franchise_of_ofBlocks htracks.history).delegations
  refine ⟨?_, ?_, ?_⟩
  · exact fun t d hd e he => (honeHop.apart t e he d hd).symm
  · intro a d hd
    have hmem := SortedMap.mem_values_of_get? hd
    obtain ⟨hkey, hself⟩ := hapart.delegations a d hd
    exact ⟨hkey, hself, honeHop.receivers d hmem, honeHop.started d hmem,
      Chain.withinTerms_of_ofBlocks htracks.history d hmem⟩
  · intro next hrun d hd e he hsame
    obtain ⟨more, hnext⟩ := htracks.run (List.cons_ne_nil _ _) hrun
    have hbecomes :=
      Chain.retains_of_ofBlocks htracks.history hnext.history hd e he hsame
    exact ⟨hbecomes, fun t later => hbecomes.isActiveAt_of_isOverAt⟩

/-- Right after one holder has taken back what it lent to the other, it receives
from it. -/
theorem delegations_one_hop_lentBack :
    ∃ n, Reachable .twoHolders n ∧
      ∃ d ∈ n.chain.council.delegations.active 0,
        ∃ e ∈ n.chain.council.delegations.values,
          d.delegate = e.delegator ∧ d.delegator = e.delegate ∧
            e.isOverAt 0 = true ∧ d.delegator ≠ d.delegate ∧
            ∀ later, e.isActiveAt later = false := by
  obtain ⟨-, -, n, -, -, hn, -, d, hd, e, he, hto, hfrom, hover⟩ :=
    exists_of_commit .twoHolders
    (fun c => .lentBack (c.tip.map (·.hash))) (fun c => Block.isMade_lentBack _)
    (fun _ n => ∃ d ∈ n.chain.council.delegations.active 0,
      ∃ e ∈ n.chain.council.delegations.values,
        d.delegate = e.delegator ∧ d.delegator = e.delegate ∧
        e.isOverAt 0 = true) (by decide +kernel)
  obtain ⟨hoccupied, -, hruns⟩ := delegations_one_hop hn
  obtain ⟨-, hstays⟩ := hruns n .refl e he e he rfl
  exact ⟨n, hn, d, hd, e, he, hto, hfrom, hover,
    hoccupied 0 d hd d hd, fun later =>
    hstays 0 later hover (UInt64.le_iff_toNat_le.mpr (Nat.zero_le _))⟩

end Node
end CouncilLedger
