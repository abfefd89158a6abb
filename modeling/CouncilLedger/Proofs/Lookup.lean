import CouncilLedger.Proofs.Catalogue
import CouncilLedger.Proofs.Identifiers
import CouncilLedger.Proofs.Voting

/-!
# Looking things up

A look-up reads its text first. A text that stands for no key is malformed, a
key that names nothing is missing, and any other text gets what its key names,
so each of the three answers says which case it is. The main statement is
`Node.lookups_follow_the_grammar`.
-/

namespace CouncilLedger

open Outcome

/-- How a look-up answers a text that stands for the keys `reads`, where a key
names things as in `names`. -/
structure LooksUp {κ α : Type} (reads : κ → Prop) (names : κ → α → Prop)
    (answer : Except Rejection α) : Prop where
  malformed : (∃ fault, answer = .error (.invalidFormat fault)) ↔ ∀ k, ¬ reads k
  missing : (∃ what, answer = .error (.notFound what)) ↔
    ∃ k, reads k ∧ ∀ a, ¬ names k a
  found : ∀ a, answer = .ok a ↔ ∃ k, reads k ∧ names k a

/-- A parser of keys and a look-up of keys make a look-up of texts. -/
theorem LooksUp.of_reading {κ α : Type} {reads : κ → Prop}
    {names : κ → α → Prop} {parsed : Except FormatFault κ}
    {get : κ → Except Rejection α} (hreads : ∀ k, parsed = .ok k ↔ reads k)
    (hfound : ∀ k a, get k = .ok a ↔ names k a)
    (hmissing : ∀ k r, get k = .error r → ∃ what, r = .notFound what) :
    LooksUp reads names (Ledger.wellFormed parsed >>= get) := by
  cases parsed with
  | error fault =>
    have hnone : ∀ k, ¬ reads k := fun k hk => nomatch (hreads k).mpr hk
    refine ⟨iff_of_true ⟨fault, rfl⟩ hnone, ?_, ?_⟩
    · exact iff_of_false nofun fun ⟨k, hk, _⟩ => hnone k hk
    · exact fun a => iff_of_false nofun fun ⟨k, hk, _⟩ => hnone k hk
  | ok key =>
    have hkey : reads key := (hreads key).mp rfl
    -- a text stands for one key only, so what this key names decides
    have hunique : ∀ k, reads k → k = key :=
      fun k hk => (Except.ok.inj ((hreads k).mpr hk)).symm
    have hanswer : (Ledger.wellFormed (.ok key) >>= get) = get key := rfl
    rw [hanswer]
    refine ⟨iff_of_false ?_ fun hnone => hnone key hkey, ?_, ?_⟩
    · rintro ⟨fault, hfault⟩
      obtain ⟨what, hwhat⟩ := hmissing key _ hfault
      cases hwhat
    · constructor
      · rintro ⟨what, hwhat⟩
        refine ⟨key, hkey, fun a ha => ?_⟩
        cases ((hfound key a).mpr ha).symm.trans hwhat
      · rintro ⟨k, hk, hnone⟩
        obtain rfl := hunique k hk
        cases hget : get k with
        | ok a => exact absurd ((hfound k a).mp hget) (hnone a)
        | error r =>
          obtain ⟨what, rfl⟩ := hmissing k r hget
          exact ⟨what, rfl⟩
    · intro a
      rw [hfound]
      constructor
      · exact fun ha => ⟨key, hkey, ha⟩
      · rintro ⟨k, hk, ha⟩
        exact hunique k hk ▸ ha

/-! ## What keys name -/

/-- A text stands for a digest. -/
def Digest.Reads (s : String) (d : Digest) : Prop :=
  ∃ ds, IsText s ds ∧ d.hex = String.ofList (ds.map Char.toLower)

namespace Chain

/-- A block of the chain with the hash or the height of a key. -/
def NamesBlock (c : Chain) : BlockKey → Block → Prop
  | .byHash hash, b => b ∈ c.blocks ∧ b.hash = hash
  | .byHeight height, b => b ∈ c.blocks ∧ b.height = height

/-- A transaction of the chain with a hash. -/
def NamesTransaction (c : Chain) (hash : Digest) (t : Transaction) : Prop :=
  t ∈ c.blocks.flatMap (·.transactions) ∧ t.hash = hash

/-- A proposal under the digits of a digest: one that is kept in the chain, but
for its status, which is that of the clock. -/
structure NamesProposal (c : Chain) (clock : UInt64) (id : Digest)
    (p : Proposal) : Prop where
  id : p.id = id.hex
  kept : ∃ q ∈ c.council.proposals, p = { q with
    status := q.statusAt clock c.standing.electorateAt c.council.rules }

variable {c : Chain} {s : String}

theorem looksUp_block (hlisted : c.Listed c.blocks)
    (hlinked : Block.Linked c.blocks) (s : String) :
    LooksUp (BlockKey.Reads s) c.NamesBlock (c.findBlock s) := by
  refine .of_reading (fun k => BlockKey.parse_eq_ok_iff) ?_ ?_
  · intro k b
    cases k with
    | byHash hash => exact hlisted.byHash hash b
    | byHeight height =>
      rw [hlisted.byHeight]
      constructor
      · intro hget
        exact ⟨List.mem_of_getElem? hget,
          UInt64.toNat_inj.mp (hlinked.height _ b hget)⟩
      · rintro ⟨hb, rfl⟩
        obtain ⟨i, hi⟩ := List.getElem?_of_mem hb
        rw [hlinked.height i b hi, hi]
  · intro k r hr
    rw [Archive.block] at hr
    split at hr
    · cases hr
    · exact ⟨_, (Except.error.inj hr).symm⟩

theorem looksUp_transaction (hlisted : c.Listed c.blocks) (s : String) :
    LooksUp (Digest.Reads s) c.NamesTransaction (c.findTransaction s) := by
  refine .of_reading (fun k => Digest.ofHex_eq_ok_iff) hlisted.transaction ?_
  intro k r hr
  rw [Archive.transaction] at hr
  split at hr
  · cases hr
  · exact ⟨_, (Except.error.inj hr).symm⟩

/-- The id of a proposal is looked up by its digest. -/
theorem findProposal_eq (c : Chain) (clock : UInt64) (s : String) :
    c.findProposal clock s = (Ledger.wellFormed (Digest.ofHex s) >>= fun d =>
      c.council.proposalAt d.hex clock c.standing.electorateAt) := by
  rw [findProposal, Council.normalizeId]
  cases Digest.ofHex s <;> rfl

theorem looksUp_proposal (hapart : c.council.PowerApart) (clock : UInt64)
    (s : String) :
    LooksUp (Digest.Reads s) (c.NamesProposal clock)
      (c.findProposal clock s) := by
  rw [findProposal_eq]
  refine .of_reading (fun k => Digest.ofHex_eq_ok_iff) ?_ ?_
  · intro d p
    simp only [Council.proposalAt, map_eq_ok, Council.proposal_eq_ok]
    constructor
    · rintro ⟨q, hq, rfl⟩
      have hid : q.id = d.hex := Council.id_of_proposal? hq
      exact ⟨hid, q, Council.mem_of_proposal? hq, rfl⟩
    · rintro ⟨hid, q, hq, rfl⟩
      have hfound : c.council.proposal? q.id = some q :=
        hapart.proposal?_of_mem hq
      exact ⟨q, (hid : q.id = d.hex) ▸ hfound, rfl⟩
  · intro d r hr
    rw [Council.proposalAt, map_eq_error, Council.proposal] at hr
    split at hr
    · cases hr
    · exact ⟨_, (Except.error.inj hr).symm⟩

end Chain

namespace Node

variable {config : Config} {n : Node}

/-- **Look-ups accept exactly their grammar.** Digests are 64 digits in either
case behind at most one mark, and their normal form is in lower case; block keys
are digests where the text has the mark or the length of one, and else heights,
with any number of leading zeros. In every chain a block, a transaction or a
proposal is asked for by such a text, and the answer tells a text outside of the
grammar from a key that names nothing. -/
theorem lookups_follow_the_grammar (h : n.Reachable config) (clock : UInt64)
    (s : String) :
    ((∃ d, Digest.ofHex s = .ok d) ↔ ∃ ds, Digest.IsText s ds) ∧
      (∀ d ds, Digest.ofHex s = .ok d → Digest.IsText s ds →
        d.hex = String.ofList (ds.map Char.toLower)) ∧
      (∀ d : Digest, Digest.ofHex d.hex = .ok d) ∧
      (∀ id, Council.normalizeId s = .ok id → Council.normalizeId id = .ok id) ∧
      (∀ d, BlockKey.parse s = .ok (.byHash d) ↔
        ((∃ rest, s.toList = '0' :: 'x' :: rest) ∨ s.utf8ByteSize = 64) ∧
          Digest.ofHex s = .ok d) ∧
      (∀ height, BlockKey.parse s = .ok (.byHeight height) ↔
        BlockKey.IsHeight s height) ∧
      LooksUp (BlockKey.Reads s) n.chain.NamesBlock (n.chain.findBlock s) ∧
      LooksUp (Digest.Reads s) n.chain.NamesTransaction
        (n.chain.findTransaction s) ∧
      LooksUp (Digest.Reads s) (n.chain.NamesProposal clock)
        (n.chain.findProposal clock s) := by
  obtain ⟨rest, htracks⟩ := h.tracks
  have hlinked := Chain.linked_of_ofBlocks htracks.history
  have hlisted := Chain.listed_of_ofBlocks htracks.history
  rw [← htracks.blocks_eq] at hlinked hlisted
  refine ⟨Digest.exists_ofHex_iff, ?_, Digest.ofHex_hex,
    fun _ => Council.normalizeId_normalizeId,
    fun _ => BlockKey.parse_eq_byHash_iff,
    fun _ => BlockKey.parse_eq_byHeight_iff,
    Chain.looksUp_block hlisted hlinked s, Chain.looksUp_transaction hlisted s,
    Chain.looksUp_proposal (Chain.powerApart_of_ofBlocks htracks.history)
      clock s⟩
  intro d ds hd htext
  obtain ⟨e, he, hhex⟩ := htext.exists_ofHex
  cases hd.symm.trans he
  exact hhex

/-- In a chain of two blocks the upper one has height one, also behind a zero;
two is missing, and 2^64 is no height. Its first transaction and its proposal
are found by their names, the proposal with the vote on it. -/
theorem lookups_follow_the_grammar_voted : ∃ n, Reachable .twoHolders n ∧
    (∃ b, n.chain.findBlock "01" = .ok b ∧ b.height = 1) ∧
    (∃ what, n.chain.findBlock "2" = .error (.notFound what)) ∧
    (∃ fault, n.chain.findBlock "18446744073709551616" =
      .error (.invalidFormat fault)) ∧
    (∃ t, n.chain.findTransaction t.hash.hex = .ok t ∧ t.sender = "ben") ∧
    ∃ p, n.chain.findProposal 0 p.id = .ok p ∧
      ∃ v ∈ p.votes.values, v.delegators = ["ben"] := by
  obtain ⟨n, -, hn, -, -, htracks, p, hp, v, hv, hdelegators⟩ :=
    exists_firstVote
  let upper := Block.firstVote (some Config.twoHolders.genesisBlock.hash)
  have hupper : upper ∈ n.chain.blocks := by
    rw [htracks.blocks_eq]
    exact List.mem_cons_of_mem _ List.mem_cons_self
  refine ⟨n, hn, ?padded, ?above, ?large, ?transaction, ?proposal⟩
  case padded =>
    obtain ⟨-, -, -, -, -, -, hblock, -⟩ := lookups_follow_the_grammar hn 0 "01"
    refine ⟨upper, (hblock.found _).mpr ⟨.byHeight 1, ?_, hupper, rfl⟩, rfl⟩
    exact BlockKey.parse_eq_byHeight_iff.mp rfl
  case above =>
    obtain ⟨-, -, -, -, -, -, hblock, -⟩ := lookups_follow_the_grammar hn 0 "2"
    refine hblock.missing.mpr ⟨.byHeight 2, ?_, ?_⟩
    · exact BlockKey.parse_eq_byHeight_iff.mp rfl
    · rintro b ⟨hb, hheight⟩
      rw [htracks.blocks_eq, List.mem_pair] at hb
      rcases hb with rfl | rfl
      · exact absurd hheight (by decide)
      · exact absurd hheight (by decide)
  case large =>
    obtain ⟨-, -, -, -, -, -, hblock, -⟩ :=
      lookups_follow_the_grammar hn 0 "18446744073709551616"
    refine hblock.malformed.mpr fun k hk => ?_
    have hparse := BlockKey.parse_eq_ok_iff.mpr hk
    rw [show BlockKey.parse "18446744073709551616" = .error _ from rfl] at hparse
    cases hparse
  case transaction =>
    let t : Transaction :=
      { Transaction.ofAction "ben" 0 0 (.delegate "ada" 60) with
        blockHash := upper.hash }
    have ht : t ∈ n.chain.blocks.flatMap (·.transactions) :=
      List.mem_flatMap.mpr ⟨upper, hupper, List.mem_cons_self⟩
    obtain ⟨-, -, hhex, -, -, -, -, hfind, -⟩ :=
      lookups_follow_the_grammar hn 0 t.hash.hex
    have hreads : Digest.Reads t.hash.hex t.hash :=
      Digest.ofHex_eq_ok_iff.mp (hhex t.hash)
    exact ⟨t, (hfind.found t).mpr ⟨t.hash, hreads, ht, rfl⟩, rfl⟩
  case proposal =>
    obtain ⟨-, -, -, -, -, -, -, -, hfind⟩ :=
      lookups_follow_the_grammar hn 0 p.id
    have hapart := Chain.powerApart_of_ofBlocks htracks.history
    obtain ⟨d, hread, hid⟩ := map_eq_ok.mp (hapart.normal p hp)
    let found : Proposal := { p with
      status :=
        p.statusAt 0 n.chain.standing.electorateAt n.chain.council.rules }
    have hnames : n.chain.NamesProposal 0 d found := ⟨hid.symm, p, hp, rfl⟩
    have hreads : Digest.Reads p.id d := Digest.ofHex_eq_ok_iff.mp hread
    exact ⟨found, (hfind.found found).mpr ⟨d, hreads, hnames⟩, v, hv,
      hdelegators⟩

end Node
end CouncilLedger
