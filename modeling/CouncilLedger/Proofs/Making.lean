import CouncilLedger.Config
import CouncilLedger.Proofs.History

/-!
# Blocks that are made

A block that is made of transactions under their own names has the right name,
and so do they. What is left to check of it is its place in a chain, that its
names are new, and its effect: `Chain.validate_eq_accept`. Runs of such blocks
are evaluated without hashing anything again: `Chain.grow`.
-/

namespace CouncilLedger

open Outcome

namespace Block

/-- A block that is made of transactions under their own names. -/
def IsMade (b : Block) : Prop :=
  ∃ height parent timestamp ts, b = build height parent timestamp ts ∧
    ∀ t ∈ ts, t.hash = t.computedHash

variable {height : UInt64} {parent : Option Digest} {timestamp : UInt64}
    {ts : List Transaction}

theorem isMade_build (hts : ∀ t ∈ ts, t.hash = t.computedHash) :
    (build height parent timestamp ts).IsMade :=
  ⟨height, parent, timestamp, ts, rfl, hts⟩

theorem hash_build : (build height parent timestamp ts).hash =
    (build height parent timestamp ts).computedHash := by
  have hroot :
      (build height parent timestamp ts).root = .ofBytes (rootBytes ts) := by
    simp [root, build, rootBytes, List.flatMap_map]
  rw [computedHash, hroot]
  rfl

/-- The transactions of a block that is made carry its hash, and are the given
ones for the rest. -/
theorem checkTransactions_build (hts : ∀ t ∈ ts, t.hash = t.computedHash) :
    (build height parent timestamp ts).transactions.forM
      (checkTransaction (build height parent timestamp ts).hash) = .ok () := by
  rw [forM_eq_ok]
  intro t ht
  obtain ⟨u, hu, rfl⟩ := List.mem_map.mp ht
  unfold checkTransaction
  exact guard_eq_ok.mpr ⟨not_not.mpr (hts u hu),
    guard_eq_ok.mpr ⟨not_not.mpr rfl, rfl⟩⟩

/-- Of a block that is made only the parent is left to check. -/
theorem IsMade.check_eq {b : Block} (h : b.IsMade) :
    b.check = checkParent b.height b.parent := by
  obtain ⟨height, parent, timestamp, ts, rfl, hts⟩ := h
  have hhash : ¬ (build height parent timestamp ts).hash ≠
      (build height parent timestamp ts).computedHash := not_not.mpr hash_build
  unfold check
  rw [checkTransactions_build hts]
  simp only [if_neg hhash]
  cases checkParent _ _ <;> rfl

end Block

@[simp] theorem Transaction.hash_ofAction (sender : String)
    (nonce timestamp : UInt64) (action : Action) :
    (ofAction sender nonce timestamp action).hash =
      (ofAction sender nonce timestamp action).computedHash := rfl

theorem Config.isMade_genesisBlock (config : Config) :
    config.genesisBlock.IsMade := by
  refine Block.isMade_build fun t ht => ?_
  obtain ⟨m, -, rfl⟩ := List.mem_map.mp ht
  exact Transaction.hash_ofAction _ _ _ _

namespace Chain

/-- A block for an action of a sender is made for the tip, of the one
transaction for the action. Its time is that of the clock, or of the tip if the
clock is behind. -/
theorem blockFor_eq_ok {c : Chain} {clock : UInt64} {sender : String}
    {action : Action} {t : Transaction} {b : Block}
    (h : c.blockFor clock sender action = .ok (t, b)) :
    Address.check sender = .ok () ∧ ∃ tip, c.tip = some tip ∧
      t =
        .ofAction sender (c.accounts.nonce sender) (max clock tip.timestamp)
          action ∧
      b =
        .build (tip.height + 1) (some tip.hash) (max clock tip.timestamp)
          [t] := by
  simp only [blockFor, bind_eq_ok, Ledger.wellFormed_eq_ok] at h
  obtain ⟨⟨⟩, hsender, h⟩ := h
  refine ⟨hsender, ?_⟩
  split at h
  · cases h
  · next tip htip =>
    cases h
    exact ⟨tip, htip, rfl, rfl⟩

/-- What is left to check of a block that is made. -/
def accept (c : Chain) (b : Block) : Except Rejection Ledger := do
  Block.checkParent b.height b.parent
  c.checkLink b
  c.archive.check b
  c.ledger.applyBlock b

/-- **A block that is made** passes all checks when it passes those that are
left. -/
theorem validate_eq_accept (c : Chain) {b : Block} (hb : b.IsMade) :
    c.validate b = c.accept b := by
  rw [validate, hb.check_eq]
  rfl

/-- The chain with a block that is made on top. -/
def grow (c : Chain) (b : Block) : Except Rejection Chain :=
  (c.accept b).map (c.extended b)

theorem grow_eq_ok {c d : Chain} {b : Block} (hb : b.IsMade) :
    c.grow b = .ok d ↔ ∃ after, c.validate b = .ok after ∧
      d = c.extended b after := by
  rw [grow, validate_eq_accept c hb]
  cases c.accept b <;> simp [Except.map, eq_comm]

end Chain
end CouncilLedger
