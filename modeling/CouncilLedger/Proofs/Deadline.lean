import CouncilLedger.Proofs.Quorum
import CouncilLedger.Query

/-!
# Outcomes are fixed at the deadline

Reads of a proposal whose deadline has come evaluate its votes against the
electorate as it stood at the deadline. The first block from then on records the
same outcome before its transactions take effect, however late it comes, and
what is recorded stays. The main statement is `Node.outcome_fixed_at_deadline`.
-/

namespace CouncilLedger

open Outcome

/-- The members of a list are told apart by a key, so one of them is all that
has its key. -/
theorem filter_eq_singleton {α β : Type} [DecidableEq β] {f : α → β}
    {l : List α} (hnodup : (l.map f).Nodup) {a : α} (ha : a ∈ l) :
    l.filter (fun b => f b = f a) = [a] := by
  induction l with
  | nil => cases ha
  | cons b rest ih =>
    obtain ⟨hnew, hrest⟩ := List.nodup_cons.mp hnodup
    rcases List.mem_cons.mp ha with rfl | ha
    · have hothers : rest.filter (fun b => f b = f a) = [] := by
        refine List.filter_eq_nil_iff.mpr fun b hb heq => hnew ?_
        exact of_decide_eq_true heq ▸ List.mem_map.mpr ⟨b, hb, rfl⟩
      simp [hothers]
    · have hne : f b ≠ f a :=
        fun heq => hnew (heq ▸ List.mem_map.mpr ⟨a, ha, rfl⟩)
      rw [List.filter_cons_of_neg (by simpa using hne), ih hrest ha]

namespace Chain

/-- The status of a proposal that is in every read at a time: in the list of
all, and in the answers to each spelling of its id. -/
structure Reports (c : Chain) (clock : UInt64) (id : String) (status : Status) :
    Prop where
  normal : Council.normalizeId id = .ok id
  listed : ((c.findProposals clock).filter (·.id = id)).map (·.status) = [status]
  found : ∀ text, Council.normalizeId text = .ok id →
    ∃ q, c.findProposal clock text = .ok q ∧ q.id = id ∧ q.status = status
  counted : ∀ text, Council.normalizeId text = .ok id →
    ∃ count, c.findCount clock text = .ok count ∧ count.proposal = id ∧
      count.status = status

/-- The outcome of a proposal for the electorate that stood at its deadline. -/
def outcomeOf (c : Chain) (p : Proposal) : Status :=
  p.finalOutcome ((c.standing.electorateAt p.endsAt).power p.mode)
    c.council.rules

variable {c : Chain} {p : Proposal} {clock : UInt64}

/-- All reads agree on a status. -/
theorem reports_of_mem (h : c.council.PowerApart) (hp : p ∈ c.council.proposals)
    (clock : UInt64) :
    c.Reports clock p.id
      (p.statusAt clock c.standing.electorateAt c.council.rules) := by
  have hfound : c.council.proposal p.id = .ok p :=
    Council.proposal_eq_ok.mpr (h.proposal?_of_mem hp)
  refine ⟨h.normal p hp, ?_, ?_, ?_⟩
  · have hfilter := filter_eq_singleton (f := Proposal.id) h.ids hp
    rw [findProposals, Council.proposalsAt, List.filter_map]
    show ((c.council.proposals.filter fun q => q.id = p.id).map _).map _ = _
    rw [hfilter]
    rfl
  · intro text htext
    refine ⟨p.asOf clock c.standing.electorateAt c.council.rules, ?_, rfl, rfl⟩
    rw [findProposal, htext]
    show (c.council.proposal p.id).map _ = _
    rw [hfound]
    rfl
  · intro text htext
    refine ⟨⟨p.id, p.statusAt clock c.standing.electorateAt c.council.rules,
      p.tally⟩, ?_, rfl, rfl⟩
    rw [findCount, htext]
    show ((c.council.proposal p.id).map _ >>=
      fun q : Proposal => pure (⟨p.id, q.status, q.tally⟩ : Count)) = _
    rw [hfound]
    rfl

/-- **From the deadline on**, reads of an open proposal show its outcome. -/
theorem reports_of_due (h : c.council.PowerApart) (hp : p ∈ c.council.proposals)
    (hrunning : p.status = .running) (hdue : p.endsAt ≤ clock) :
    c.Reports clock p.id (c.outcomeOf p) := by
  rw [outcomeOf, ← Proposal.statusAt_of_due hrunning hdue]
  exact reports_of_mem h hp clock

/-- Reads of a closed proposal show what is recorded. -/
theorem reports_of_hasClosed (h : c.council.PowerApart) {status : Status}
    (hclosed : c.council.HasClosed p status) (clock : UInt64) :
    c.Reports clock p.id status := by
  obtain ⟨hstatus, q, hq, hid, rfl, -⟩ := hclosed
  rw [← hid, ← Proposal.statusAt_of_closed hstatus]
  exact reports_of_mem h hq clock

end Chain

namespace Node

variable {config : Config} {n next later : Node}
    {blocks : List Block} {p : Proposal}

/-- What has been closed stays closed as it is in every run. -/
theorem Tracks.hasClosed_run (h : next.Tracks config blocks) (hne : blocks ≠ [])
    {status : Status} (hclosed : next.chain.council.HasClosed p status)
    (hrun : Run config next later) :
    later.chain.council.HasClosed p status := by
  obtain ⟨more, hlater⟩ := h.run hne hrun
  exact Chain.ofBlocks_append_induction
    (P := fun l => l.council.HasClosed p status) h.history hlater.history
    hclosed fun _ _ _ hl hblock => Ledger.applyBlock_hasClosed hblock hl

/-- **Outcomes are fixed at the deadline**: from then on every read of an open
proposal shows one outcome, whatever the time. A block that is accepted from
then on records it, however late it comes and whatever it does, and all reads of
all later states show it at every time. -/
theorem outcome_fixed_at_deadline (h : n.Reachable config)
    (hp : p ∈ n.chain.council.proposals) (hrunning : p.status = .running) :
    n.chain.outcomeOf p ≠ .running ∧
      (∀ clock, p.endsAt ≤ clock →
        n.chain.Reports clock p.id (n.chain.outcomeOf p)) ∧
      ∀ m b, p.endsAt ≤ b.timestamp → (n.commit m b).1 = .ok () →
        ∀ later, Run config (n.commit m b).2 later →
          later.chain.council.HasClosed p (n.chain.outcomeOf p) ∧
            ∀ clock, later.chain.Reports clock p.id (n.chain.outcomeOf p) := by
  obtain ⟨rest, htracks⟩ := h.tracks
  have hapart := Chain.powerApart_of_ofBlocks htracks.history
  refine ⟨p.finalOutcome_ne_running _ _, fun clock =>
    Chain.reports_of_due hapart hp hrunning, ?_⟩
  intro m b hdue hok later hrun
  rcases commit_cases htracks m b with
    ⟨r, -, hcommit⟩ | ⟨after, d, -, -, -, hcommit⟩ |
    ⟨after, next, hvalid, -, hcommit, hchain, -, hnext⟩
  · rw [hcommit] at hok
    cases hok
  · rw [hcommit] at hok
    cases hok
  · rw [hcommit] at hrun
    obtain ⟨-, -, -, hblock⟩ := Chain.validate_ok hvalid
    have hrecorded : next.chain.council.HasClosed p (n.chain.outcomeOf p) := by
      rw [hchain]
      exact Ledger.applyBlock_closes_due hblock hp hrunning hdue
    have hclosed := hnext.hasClosed_run (by simp) hrecorded hrun
    obtain ⟨more, hlater⟩ := hnext.run (by simp) hrun
    exact ⟨hclosed, Chain.reports_of_hasClosed
      (Chain.powerApart_of_ofBlocks hlater.history) hclosed⟩

/-- The block that closes the open one of the two proposals of the run is valid,
and the node commits it. -/
theorem TwoProposals.exists_closing {b : Block} {first : Node}
    (hfacts : TwoProposals b first n) (h : n.Reachable config) :
    ∃ last after, n.chain.closingBlock 60 = .ok (some (1, last)) ∧
      last.timestamp = 60 ∧ n.chain.validate last = .ok after ∧
      (n.commit ⟨60, true⟩ last).1 = .ok () := by
  obtain ⟨found, hfound, hblock⟩ := exists_of_any_toOption hfacts.closing
  cases found with
  | none => cases hblock
  | some closing =>
    obtain ⟨due, last⟩ := closing
    simp only [Option.any_some, Bool.and_eq_true, decide_eq_true_eq] at hblock
    obtain ⟨⟨rfl, htime⟩, hok⟩ := hblock
    obtain ⟨after, hvalid⟩ := exists_of_isOk hok
    obtain ⟨rest, htracks⟩ := h.tracks
    obtain ⟨next, hcommit, -⟩ :=
      htracks.exists_commit (m := ⟨60, true⟩) hvalid (.inr rfl)
    exact ⟨last, after, hfound, htime, hvalid, congrArg Prod.fst hcommit⟩

/-- The block that closes it records that it has passed. -/
theorem outcome_fixed_at_deadline_fourFifths :
    ∃ n m b p, Reachable .fourFifths n ∧ (n.commit m b).1 = .ok () ∧
      p ∈ n.chain.council.proposals ∧ p.status = .running ∧
      p.endsAt ≤ b.timestamp ∧ n.chain.Reports b.timestamp p.id .passed ∧
      (n.commit m b).2.chain.council.HasClosed p .passed := by
  obtain ⟨first, n, b, -, -, hn, -, -, hfacts⟩ := exists_twoProposals
  obtain ⟨p, hp, hrunning, hends, hpassed⟩ := hfacts.late
  obtain ⟨b, -, -, htime, -, hok⟩ := hfacts.exists_closing hn
  have hdue : p.endsAt ≤ 60 := by
    rw [hends]
    exact UInt64.le_refl _
  have houtcome : n.chain.outcomeOf p = .passed :=
    (Proposal.settledStatus_of_due hrunning hdue).symm.trans hpassed
  obtain ⟨-, hreads, hrecords⟩ := outcome_fixed_at_deadline hn hp hrunning
  rw [houtcome] at hreads hrecords
  rw [← htime] at hdue
  exact ⟨n, _, b, p, hn, hok, hp, hrunning, hdue, hreads _ hdue,
    (hrecords _ b hdue hok _ .refl).1⟩

end Node
end CouncilLedger
