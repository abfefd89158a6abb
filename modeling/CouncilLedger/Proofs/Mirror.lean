import CouncilLedger.Proofs.Delegations
import CouncilLedger.Proofs.Proposals

/-!
# Proposals mirror the blocks

The list of proposals is that of the transactions that open one, in their order,
and the votes on all proposals are those of the transactions that cast one. What
later blocks do to a proposal is `Proposal.Continues`: its terms and recorded
votes stay, and once it is closed so do its status and all its votes. The main
statement is `Node.proposals_mirror_blocks`.
-/

namespace CouncilLedger

open Outcome

theorem filterMap_snoc {α β : Type} (f : α → Option β) (l : List α) (a : α) :
    (l ++ [a]).filterMap f = l.filterMap f ++ (f a).toList := by
  rw [List.filterMap_append, List.filterMap_cons, List.filterMap_nil]
  cases f a <;> rfl

/-! ## What the blocks say -/

/-- What of a vote its transaction tells: on which proposal, by whom, how and
when. -/
structure CastVote where
  proposal : Except FormatFault String
  voter : String
  choice : Choice
  timestamp : UInt64
  transaction : Digest

/-- The proposal that a transaction opens in a block of a height and a time. -/
def Transaction.opened? (height now : UInt64) (t : Transaction) :
    Option Proposal :=
  match t.action with
  | .propose draft => some (.ofDraft t.hash.hex t.sender draft now height)
  | _ => none

/-- The vote that a transaction casts in a block of a time. -/
def Transaction.castVote? (now : UInt64) (t : Transaction) : Option CastVote :=
  match t.action with
  | .vote text choice =>
    some ⟨Council.normalizeId text, t.sender, choice, now, t.hash⟩
  | _ => none

namespace Block

/-- The proposals that a block opens, in their order. -/
def opened (b : Block) : List Proposal :=
  b.transactions.filterMap (Transaction.opened? b.height b.timestamp)

/-- The votes that a block casts. -/
def castVotes (b : Block) : List CastVote :=
  b.transactions.filterMap (Transaction.castVote? b.timestamp)

end Block

/-! ## What the council keeps -/

namespace Proposal

/-- A proposal as it was when it was opened. -/
def asOpened (p : Proposal) : Proposal :=
  { p with status := .running, votes := .empty, fundedBy := none }

/-- What the recorded votes keep of their transactions. -/
def castVotes (p : Proposal) : List CastVote :=
  p.votes.values.map fun v =>
    ⟨.ok p.id, v.voter, v.choice, v.timestamp, v.transaction⟩

/-- Every vote has some weight and came between the opening and the deadline. -/
structure Timely (p : Proposal) (now : UInt64) : Prop where
  created : p.createdAt ≤ now
  weight : ∀ v ∈ p.votes.values, v.weight ≠ 0
  late : ∀ v ∈ p.votes.values, p.createdAt ≤ v.timestamp
  early : ∀ v ∈ p.votes.values, v.timestamp < p.endsAt

/-- What later blocks make of a proposal: its terms and the recorded votes stay,
and once it is closed nothing changes but the mark of the payout. -/
structure Continues (p q : Proposal) : Prop where
  terms : q.asOpened = p.asOpened
  kept : ∀ a v, p.votes.get? a = some v → q.votes.get? a = some v
  final : p.status ≠ .running → q.status = p.status ∧ q.votes = p.votes

variable {p q r : Proposal} {now : UInt64} {e : UInt64 → Electorate}
    {rules : Rules}

theorem Continues.refl (p : Proposal) : p.Continues p where
  terms := rfl
  kept := fun _ _ h => h
  final := fun _ => ⟨rfl, rfl⟩

theorem Continues.trans (h : p.Continues q) (h' : q.Continues r) :
    p.Continues r where
  terms := h'.terms.trans h.terms
  kept := fun a v hv => h'.kept a v (h.kept a v hv)
  final := by
    intro hclosed
    obtain ⟨hstatus, hvotes⟩ := h.final hclosed
    obtain ⟨hstatus', hvotes'⟩ := h'.final (hstatus ▸ hclosed)
    exact ⟨hstatus'.trans hstatus, hvotes'.trans hvotes⟩

theorem Becomes.continues (h : Becomes now e rules p q) : p.Continues q where
  terms := by rw [h.terms]; rfl
  kept := by
    intro a v hv
    cases h with
    | same | settled | paid => exact hv
    | @voted w running early unused weight time =>
      show (p.votes.insert w.voter w).get? a = some v
      have hne : a ≠ w.voter := by
        rintro rfl
        rw [get?_votes_of_unused unused] at hv
        cases hv
      rw [SortedMap.get?_insert_of_ne _ hne, hv]
  final := h.of_closed

theorem Timely.mono (h : p.Timely now) {later : UInt64} (hlater : now ≤ later) :
    p.Timely later :=
  { h with created := UInt64.le_trans h.created hlater }

theorem timely_ofDraft (id creator : String) (draft : Draft)
    (now height : UInt64) :
    (ofDraft id creator draft now height).Timely now where
  created := UInt64.le_refl _
  weight := fun _ hv => nomatch hv
  late := fun _ hv => nomatch hv
  early := fun _ hv => nomatch hv

theorem Becomes.timely (h : Becomes now e rules p q) (hp : p.Timely now) :
    q.Timely now := by
  cases h with
  | same => exact hp
  | settled | paid => exact ⟨hp.created, hp.weight, hp.late, hp.early⟩
  | @voted w running early unused weight time =>
    -- each vote is the new one or an old one
    have hcases :
        ∀ v ∈ (p.withVote w (e now)).votes.values, v = w ∨ v ∈ p.votes.values :=
      fun v hv => SortedMap.mem_values_insert hv
    refine ⟨hp.created, fun v hv => ?_, fun v hv => ?_, fun v hv => ?_⟩ <;>
      rcases hcases v hv with rfl | hv
    · exact weight
    · exact hp.weight v hv
    · exact time ▸ hp.created
    · exact hp.late v hv
    · exact time ▸ early
    · exact hp.early v hv

end Proposal

namespace Council

/-- What the recorded votes on all proposals keep of their transactions. -/
def castVotes (c : Council) : List CastVote :=
  c.proposals.flatMap Proposal.castVotes

/-- Every proposal is still in its place. -/
def Continues (c c' : Council) : Prop :=
  ∀ (i : Nat) (p : Proposal), c.proposals[i]? = some p →
    ∃ q, c'.proposals[i]? = some q ∧ p.Continues q

variable {c c' c'' : Council} {now : UInt64} {e : UInt64 → Electorate}
    {rules : Rules}

theorem Continues.refl (c : Council) : c.Continues c :=
  fun _ p hp => ⟨p, hp, .refl p⟩

theorem Continues.trans (h : c.Continues c') (h' : c'.Continues c'') :
    c.Continues c'' := by
  intro i p hp
  obtain ⟨q, hq, hpq⟩ := h i p hp
  obtain ⟨r, hr, hqr⟩ := h' i q hq
  exact ⟨r, hr, hpq.trans hqr⟩

theorem Moves.continues (h : Moves now e rules c.proposals c'.proposals) :
    c.Continues c' := by
  obtain ⟨moved, opened, hnew, hmoved, -⟩ := h.exists_split
  intro i p hp
  obtain ⟨hi, rfl⟩ := List.getElem?_eq_some_iff.mp hp
  have hi' : i < moved.length := hmoved.length_eq ▸ hi
  refine ⟨moved[i], ?_, (hmoved.get hi hi').continues⟩
  rw [hnew, List.getElem?_append_left hi', List.getElem?_eq_getElem hi']

theorem Moves.timely (h : Moves now e rules c.proposals c'.proposals)
    (hc : ∀ p ∈ c.proposals, p.Timely now) :
    ∀ q ∈ c'.proposals, q.Timely now := by
  intro q hq
  rcases h.exists_before hq with
    ⟨p, hp, hbecomes⟩ | ⟨id, creator, draft, height, rfl⟩
  · exact hbecomes.timely (hc p hp)
  · exact Proposal.timely_ofDraft id creator draft now height

/-- What another state of one proposal does not change is the same for the whole
list. -/
theorem map_setProposal {α : Type} {f : Proposal → α} {id : String}
    {p p' : Proposal} (hp : c.proposal? id = some p) (hid : p'.id = p.id)
    (hsame : f p' = f p) :
    (c.setProposal p').proposals.map f = c.proposals.map f := by
  obtain ⟨before, after, hold, hnew⟩ := setProposal_of_proposal? hp hid
  rw [hold, hnew, List.map_append, List.map_append, List.map_cons,
    List.map_cons, hsame]

theorem castVotes_setProposal {id : String} {p p' : Proposal}
    (hp : c.proposal? id = some p) (hid : p'.id = p.id)
    (hsame : p'.castVotes = p.castVotes) :
    (c.setProposal p').castVotes = c.castVotes := by
  rw [castVotes, castVotes, List.flatMap_def, List.flatMap_def,
    map_setProposal hp hid hsame]

/-- A vote that is taken comes to those on all proposals. -/
theorem castVotes_withVote {id : String} {p : Proposal} {v : Vote}
    (hp : c.proposal? id = some p) (hunused : p.powerUsedBy v.voter = false)
    (e : Electorate) :
    (c.setProposal (p.withVote v e)).castVotes.Perm (c.castVotes ++
      [⟨.ok p.id, v.voter, v.choice, v.timestamp, v.transaction⟩]) := by
  have hid : (p.withVote v e).id = p.id := rfl
  obtain ⟨before, after, hold, hnew⟩ := setProposal_of_proposal? hp hid
  have hvoted :
      (p.withVote v e).castVotes.Perm (⟨.ok p.id, v.voter, v.choice,
                                        v.timestamp, v.transaction⟩ ::
        p.castVotes) :=
    (SortedMap.values_insert_perm v
      (Proposal.get?_votes_of_unused hunused)).map _
  rw [castVotes, castVotes, hold, hnew, List.flatMap_append, List.flatMap_append,
    List.flatMap_cons, List.flatMap_cons]
  refine ((hvoted.append_right _).append_left _).trans ?_
  exact List.perm_middle.trans (List.perm_append_singleton _ _).symm

end Council

/-! ## Transactions and blocks -/

namespace Ledger

variable {l l' : Ledger} {t : Transaction} {height now : UInt64} {b : Block}

/-- **A proposal is opened by its transaction** and by nothing else. -/
theorem Acted.opened (hact : Acted height now l t l') :
    l'.council.proposals.map Proposal.asOpened =
      l.council.proposals.map Proposal.asOpened ++
        (t.opened? height now).toList := by
  cases hact with
  | mint action | transfer action => simp [Transaction.opened?, action]
  | propose action _ _ ok =>
    obtain ⟨-, -, -, rfl⟩ := Council.propose_ok ok
    simp [Transaction.opened?, action, Proposal.asOpened, Proposal.ofDraft]
  | vote action _ _ _ ok =>
    obtain ⟨p, hp, -, -, -, -, rfl⟩ := Council.vote_ok ok
    refine (Council.map_setProposal hp ?_ ?_).trans ?_
    · rfl
    · rfl
    · simp [Transaction.opened?, action]
  | payOut action _ _ _ authorized =>
    obtain ⟨p, hp, -, -, -, -, rfl⟩ := Council.authorizePayout_ok authorized
    refine (Council.map_setProposal hp ?_ ?_).trans ?_
    · rfl
    · rfl
    · simp [Transaction.opened?, action]
  | delegate action _ _ ok =>
    obtain ⟨-, -, -, -, -, -, -, -, -, rfl⟩ := Council.delegate_ok ok
    simp [Transaction.opened?, action]
  | revoke action _ ok =>
    obtain ⟨d, -, -, rfl⟩ := Council.revoke_ok ok
    simp [Transaction.opened?, action]

/-- **A vote is recorded by its transaction** and by nothing else. -/
theorem Acted.castVotes (hact : Acted height now l t l') :
    l'.council.castVotes.Perm
      (l.council.castVotes ++ (t.castVote? now).toList) := by
  cases hact with
  | mint action | transfer action => simp [Transaction.castVote?, action]
  | propose action _ _ ok =>
    obtain ⟨-, -, -, rfl⟩ := Council.propose_ok ok
    simp [Transaction.castVote?, action, Council.castVotes, Proposal.castVotes,
      Proposal.ofDraft, SortedMap.values, SortedMap.empty]
  | vote action _ names _ ok =>
    obtain ⟨p, hp, -, hunused, -, -, rfl⟩ := Council.vote_ok ok
    refine (Council.castVotes_withVote hp hunused _).trans ?_
    simp [Transaction.castVote?, action, names, Council.id_of_proposal? hp]
  | payOut action _ _ _ authorized =>
    obtain ⟨p, hp, -, -, -, -, rfl⟩ := Council.authorizePayout_ok authorized
    refine (List.Perm.of_eq (Council.castVotes_setProposal hp ?_ ?_)).trans ?_
    · rfl
    · rfl
    · simp [Transaction.castVote?, action]
  | delegate action _ _ ok =>
    obtain ⟨-, -, -, -, -, -, -, -, -, rfl⟩ := Council.delegate_ok ok
    simp [Transaction.castVote?, action, Council.castVotes]
  | revoke action _ ok =>
    obtain ⟨d, -, -, rfl⟩ := Council.revoke_ok ok
    simp [Transaction.castVote?, action, Council.castVotes]

theorem opened_settle (l : Ledger) (now : UInt64) :
    (l.settle now).council.proposals.map Proposal.asOpened =
      l.council.proposals.map Proposal.asOpened := by
  rw [settle, Council.settle, List.map_map]
  rfl

theorem castVotes_settle (l : Ledger) (now : UInt64) :
    (l.settle now).council.castVotes = l.council.castVotes := by
  rw [settle, Council.castVotes, Council.settle, List.flatMap_map]
  rfl

theorem applyBlock_opened (hblock : l.applyBlock b = .ok l') :
    l'.council.proposals.map Proposal.asOpened =
      l.council.proposals.map Proposal.asOpened ++ b.opened := by
  have hstart : l.council.proposals.map Proposal.asOpened =
      l.council.proposals.map Proposal.asOpened ++
        [].filterMap (Transaction.opened? b.height b.timestamp) := by
    simp
  refine applyBlock_append_induction (P := fun ts m =>
    m.council.proposals.map Proposal.asOpened =
      l.council.proposals.map Proposal.asOpened ++
        ts.filterMap (Transaction.opened? b.height b.timestamp))
    hblock hstart ?_ ?_
  · exact fun ts m hm => (opened_settle m b.timestamp).trans hm
  · intro ts t _ m m' hm hstep
    rw [(apply_ok hstep).2.opened, filterMap_snoc, ← List.append_assoc, ← hm]
    rfl

theorem applyBlock_castVotes (hblock : l.applyBlock b = .ok l') :
    l'.council.castVotes.Perm (l.council.castVotes ++ b.castVotes) := by
  have hstart :
      l.council.castVotes.Perm (l.council.castVotes ++
        [].filterMap (Transaction.castVote? b.timestamp)) := by
    simp
  refine applyBlock_append_induction (P := fun ts m =>
    m.council.castVotes.Perm (l.council.castVotes ++
      ts.filterMap (Transaction.castVote? b.timestamp)))
    hblock hstart ?_ ?_
  · intro ts m hm
    rwa [castVotes_settle]
  · intro ts t _ m m' hm hstep
    rw [filterMap_snoc, ← List.append_assoc]
    exact (apply_ok hstep).2.castVotes.trans (hm.append_right _)

theorem applyBlock_timely (hblock : l.applyBlock b = .ok l')
    (h : ∀ p ∈ l.council.proposals, p.Timely b.timestamp) :
    ∀ p ∈ l'.council.proposals, p.Timely b.timestamp :=
  applyBlock_stage_induction
    (P := fun m => ∀ p ∈ m.council.proposals, p.Timely b.timestamp)
    hblock h fun _ _ hstage hm => hstage.moves.timely hm

theorem Stage.continues {m m' : Ledger} (h : Stage b l m m') :
    m.council.Continues m'.council :=
  h.moves.continues

theorem applyBlock_continues (hblock : l.applyBlock b = .ok l') :
    l.council.Continues l'.council :=
  applyBlock_stage_induction (P := fun m => l.council.Continues m.council)
    hblock (.refl _) fun _ _ hstage hm => hm.trans hstage.continues

end Ledger

/-! ## Chains and nodes -/

namespace Chain

variable {rules : Rules} {blocks more : List Block} {c c' : Chain}

theorem opened_of_ofBlocks (h : ofBlocks rules blocks = .ok c) :
    c.council.proposals.map Proposal.asOpened = blocks.flatMap Block.opened := by
  refine ofBlocks_induction (P := fun bs l =>
    l.council.proposals.map Proposal.asOpened = bs.flatMap Block.opened) h rfl ?_
  intro before b l l' hl hblock
  rw [Ledger.applyBlock_opened hblock, hl, List.flatMap_append,
    List.flatMap_singleton]

theorem castVotes_of_ofBlocks (h : ofBlocks rules blocks = .ok c) :
    c.council.castVotes.Perm (blocks.flatMap Block.castVotes) := by
  refine ofBlocks_induction (P := fun bs l =>
    l.council.castVotes.Perm (bs.flatMap Block.castVotes)) h .nil ?_
  intro before b l l' hl hblock
  rw [List.flatMap_append, List.flatMap_singleton]
  exact (Ledger.applyBlock_castVotes hblock).trans (hl.append_right _)

theorem timely_of_ofBlocks (h : ofBlocks rules blocks = .ok c) :
    ∀ p ∈ c.council.proposals, p.Timely c.time := by
  refine ofBlocks_validate_induction (P := fun _ c => ∀ p ∈ c.council.proposals,
    p.Timely c.time) h (fun _ hp => nomatch hp) ?_
  intro before m b after _ htimely hvalid
  obtain ⟨-, hlink, -, hblock⟩ := validate_ok hvalid
  exact Ledger.applyBlock_timely hblock fun p hp => (htimely p hp).mono
    (time_le_timestamp hlink)

/-- **Further blocks continue the council.** -/
theorem continues_of_ofBlocks (h : ofBlocks rules blocks = .ok c)
    (hmore : ofBlocks rules (blocks ++ more) = .ok c') :
    c.council.Continues c'.council :=
  ofBlocks_append_induction
    (P := fun l => c.council.Continues l.council) h hmore (.refl _)
    fun _ _ _ hl hblock => hl.trans (Ledger.applyBlock_continues hblock)

end Chain

namespace Node

variable {config : Config} {n : Node}

/-- **The proposals mirror the blocks, and decisions are final.** The proposals
are those that the transactions of the blocks open, in their order, and their
votes are those that the transactions cast, each with some weight and between
the opening and the deadline. Every step of a next block and every run leave
each proposal in its place, its recorded votes as they are, and once it is
closed its status and all its votes. -/
theorem proposals_mirror_blocks (h : n.Reachable config) :
    n.chain.council.proposals.map Proposal.asOpened =
        n.chain.blocks.flatMap Block.opened ∧
      (n.chain.council.proposals.map (·.id)).Nodup ∧
      n.chain.council.castVotes.Perm (n.chain.blocks.flatMap Block.castVotes) ∧
      (∀ p ∈ n.chain.council.proposals, ∀ a v, p.votes.get? a = some v →
        v.voter = a ∧ 1 ≤ v.weight ∧ p.createdAt ≤ v.timestamp ∧
          v.timestamp < p.endsAt) ∧
      (∀ b m m', Ledger.Stage b n.chain.ledger m m' →
        m.council.Continues m'.council) ∧
      ∀ next, Run config n next →
        n.chain.council.Continues next.chain.council := by
  obtain ⟨rest, htracks⟩ := h.tracks
  have hapart := Chain.powerApart_of_ofBlocks htracks.history
  rw [htracks.blocks_eq]
  refine ⟨Chain.opened_of_ofBlocks htracks.history, hapart.ids,
    Chain.castVotes_of_ofBlocks htracks.history, ?_, fun _ _ _ =>
    Ledger.Stage.continues, ?_⟩
  · intro p hp a v hv
    have htimely := Chain.timely_of_ofBlocks htracks.history p hp
    have hmem := SortedMap.mem_values_of_get? hv
    refine ⟨(hapart.proposals p hp).keyed a v hv, ?_, htimely.late v hmem,
      htimely.early v hmem⟩
    have hweight : v.weight.toNat ≠ 0 := fun hzero =>
      htimely.weight v hmem (UInt64.toNat_inj.mp hzero)
    exact UInt64.le_iff_toNat_le.mpr (Nat.one_le_iff_ne_zero.mpr hweight)
  · intro next hrun
    obtain ⟨more, hnext⟩ := htracks.run (List.cons_ne_nil _ _) hrun
    exact Chain.continues_of_ofBlocks htracks.history hnext.history

/-- A proposal of a block with a vote of the same block. -/
theorem proposals_mirror_blocks_voted :
    ∃ n, Reachable .twoHolders n ∧
      ∃ p ∈ n.chain.council.proposals, ∃ v ∈ p.votes.values,
        v.delegators = ["ben"] ∧
        p.asOpened ∈ n.chain.blocks.flatMap Block.opened ∧
        ⟨.ok p.id, v.voter, v.choice, v.timestamp, v.transaction⟩ ∈
          n.chain.blocks.flatMap Block.castVotes ∧
        v.timestamp < p.endsAt := by
  obtain ⟨n, -, hn, -, p, hp, v, hv, hdelegators⟩ := exists_voted
  obtain ⟨hopened, -, hcast, hvotes, -, -⟩ := proposals_mirror_blocks hn
  obtain ⟨a, ha⟩ := SortedMap.mem_values_iff.mp hv
  obtain ⟨-, -, -, hearly⟩ := hvotes p hp a v ha
  refine ⟨n, hn, p, hp, v, hv, hdelegators, ?_, ?_, hearly⟩
  · exact hopened ▸ List.mem_map_of_mem hp
  · exact hcast.mem_iff.mp (List.mem_flatMap.mpr ⟨p, hp, List.mem_map_of_mem hv⟩)

end Node
end CouncilLedger
