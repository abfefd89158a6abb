import CouncilLedger.Proofs.Catalogue
import CouncilLedger.Proofs.Refusals

/-!
# Writing to the archive in place

Where an archive is written in place, an entry that is refused does not take
back what was written before it. So a block is put in whole or not at all only
because the check in front foresees every refusal behind it. Here entries are
written one after the other, and whatever is left of the archive stays. Blocks
and transactions are of any content: their names may be forged, be those of
others, or repeat within a block. The invariant is `Archive.Lockstep`; the main
statement is `Archive.lockstep_after_any_calls`.
-/

namespace CouncilLedger

/-- The reason that the blocks and the heights of an archive differ in
number. -/
def Rejection.IsOutOfStep (r : Rejection) : Prop :=
  ∃ m n, r = .invalidBlock (.outOfStep m n)

/-- What an archive can hold. -/
inductive Archive.Entry where
  | block (b : Block)
  | transaction (t : Transaction)

/-- The hash that an entry is put under. -/
def Archive.Entry.hash : Archive.Entry → Digest
  | block b => b.hash
  | transaction t => t.hash

/-- A block behind its transactions. -/
def Block.entries (b : Block) : List Archive.Entry :=
  b.transactions.map .transaction ++ [.block b]

namespace Archive

open Outcome

/-! ## In place -/

/-- Whether a write succeeded, and what it leaves. -/
abbrev Effect := Except Rejection Unit × Archive

/-- The archive with an entry written to it. -/
def stored (a : Archive) : Entry → Archive
  | .block b =>
    { a with
      heights := a.heights.insert b.height b.hash
      blocks := a.blocks.insert b.hash b }
  | .transaction t => { a with transactions := a.transactions.insert t.hash t }

/-- Write one entry. The sizes are compared when a block has been written
already. -/
def put (a : Archive) (e : Entry) : Effect :=
  if a.contains e.hash then (.error (.duplicateKey e.hash), a)
  else match e with
    | .transaction t => (.ok (), a.stored (.transaction t))
    | .block b => match a.heights.get? b.height with
      | some holder => (.error (.invalidBlock (.heightTaken b.height holder)), a)
      | none =>
        let written := a.stored (.block b)
        if written.heights.size ≠ written.blocks.size then
          (.error (.invalidBlock
            (.outOfStep written.heights.size written.blocks.size)), written)
        else (.ok (), written)

/-- Write entries one after the other, up to the first that is refused. -/
def putAll (a : Archive) : List Entry → Effect
  | [] => (.ok (), a)
  | e :: rest =>
    match a.put e with
    | (.ok (), written) => written.putAll rest
    | refused => refused

/-- Write a block and its transactions, once it has passed the check. -/
def putBlock (a : Archive) (b : Block) : Effect :=
  match a.check b with
  | .error r => (.error r, a)
  | .ok () => a.putAll b.entries

/-- A write that is asked of an archive. -/
inductive Call where
  | put (e : Entry)
  | putBlock (b : Block)

/-- Do what is asked. -/
def perform (a : Archive) : Call → Effect
  | .put e => a.put e
  | .putBlock b => a.putBlock b

/-- The archive after some calls, whether they succeed or not. -/
def afterCalls (calls : List Call) : Archive :=
  calls.foldl (fun a c => (a.perform c).2) empty

/-! ## On a copy -/

/-- Add one entry. -/
def addEntry (a : Archive) : Entry → Except Rejection Archive
  | .block b => a.addBlock b
  | .transaction t => a.addTransaction t

/-- What a call makes of a copy. -/
def outcome (a : Archive) : Call → Except Rejection Archive
  | .put e => a.addEntry e
  | .putBlock b => a.add b

/-- The copy takes the place of the archive, or is thrown away. -/
def replacedBy (a : Archive) : Except Rejection Archive → Effect
  | .ok copy => (.ok (), copy)
  | .error r => (.error r, a)

variable {a a' : Archive} {b : Block} {d : Digest}

theorem add_eq (a : Archive) (b : Block) :
    a.add b = (a.check b >>= fun _ => b.entries.foldlM addEntry a) := by
  rw [add, Block.entries, List.foldlM_append, List.foldlM_map]
  simp only [List.foldlM_cons, List.foldlM_nil, bind_pure]
  rfl

/-! ## One entry -/

theorem blocks_stored_block (a : Archive) (b : Block) (d : Digest) :
    (a.stored (.block b)).blocks.get? d =
      if d = b.hash then some b else a.blocks.get? d :=
  SortedMap.get?_insert _ _ _ _

theorem heights_stored_block (a : Archive) (b : Block) (n : UInt64) :
    (a.stored (.block b)).heights.get? n =
      if n = b.height then some b.hash else a.heights.get? n :=
  SortedMap.get?_insert _ _ _ _

theorem transactions_stored_transaction (a : Archive) (t : Transaction)
    (d : Digest) :
    (a.stored (.transaction t)).transactions.get? d =
      if d = t.hash then some t else a.transactions.get? d :=
  SortedMap.get?_insert _ _ _ _

/-- An entry of a new hash, and if it is a block, of a new height. -/
structure Fresh (a : Archive) (e : Entry) : Prop where
  hash : a.contains e.hash = false
  height : ∀ b, e = .block b → a.heights.get? b.height = none

theorem InStep.stored {e : Entry} (hstep : a.InStep) (hfresh : a.Fresh e) :
    (a.stored e).InStep := by
  cases e with
  | transaction t => exact hstep
  | block b =>
    have hname : a.blocks.get? b.hash = none :=
      (contains_eq_false_iff.mp hfresh.hash).1
    show (a.heights.insert b.height b.hash).size =
      (a.blocks.insert b.hash b).size
    rw [SortedMap.size_insert_of_get?_eq_none _ (hfresh.height b rfl),
      SortedMap.size_insert_of_get?_eq_none _ hname, hstep]

/-- **What a put does** to an archive that is in step: it writes a fresh entry,
and refuses any other before it writes. -/
theorem put_cases (hstep : a.InStep) (e : Entry) :
    (∃ r, a.put e = (.error r, a) ∧ a.addEntry e = .error r ∧ ¬ r.IsOutOfStep) ∨
      a.Fresh e ∧ a.put e = (.ok (), a.stored e) ∧
        a.addEntry e = .ok (a.stored e) := by
  cases hhash : a.contains e.hash with
  | true =>
    refine .inl ⟨.duplicateKey e.hash, if_pos hhash, ?_, nofun⟩
    cases e with
    | block b => exact if_pos hhash
    | transaction t => exact if_pos hhash
  | false =>
    have hnew : ¬ a.contains e.hash = true := by rw [hhash]; nofun
    cases e with
    | transaction t => exact .inr ⟨⟨hhash, nofun⟩, if_neg hnew, if_neg hnew⟩
    | block b =>
      change ¬ a.contains b.hash = true at hnew
      cases hheight : a.heights.get? b.height with
      | some holder =>
        refine .inl ⟨.invalidBlock (.heightTaken b.height holder), ?_, ?_, nofun⟩
        · simp [put, Entry.hash, hnew, hheight]
        · simp [addEntry, addBlock, hnew, hheight]
      | none =>
        have hfresh : a.Fresh (.block b) :=
          ⟨hhash, by rintro _ ⟨⟩; exact hheight⟩
        have hsizes :
            (a.heights.insert b.height b.hash).size =
              (a.blocks.insert b.hash b).size :=
          hstep.stored hfresh
        refine .inr ⟨hfresh, ?_, ?_⟩
        · simp [put, Entry.hash, hnew, hheight, stored, hsizes]
        · simp [addEntry, addBlock, hnew, hheight, stored, hsizes]

theorem put_eq (hstep : a.InStep) (e : Entry) :
    a.put e = a.replacedBy (a.addEntry e) := by
  rcases put_cases hstep e with ⟨r, hput, hadd, -⟩ | ⟨-, hput, hadd⟩
  · rw [hput, hadd]
    rfl
  · rw [hput, hadd]
    rfl

/-! ## The invariant -/

/-- Every height leads to the block that has it and every hash to what bears it,
and no two share one. -/
structure Lockstep (a : Archive) : Prop where
  height : ∀ h d, a.heights.get? h = some d ↔
    ∃ b, a.blocks.get? d = some b ∧ b.hash = d ∧ b.height = h
  block : ∀ d b, a.blocks.get? d = some b → b.hash = d
  transaction : ∀ d t, a.transactions.get? d = some t → t.hash = d
  apart : ∀ d, a.blocks.contains d = false ∨ a.transactions.contains d = false
  sizes : a.InStep

namespace Lockstep

theorem empty : Archive.empty.Lockstep where
  height h d := by simp [Archive.empty]
  block d b h := nomatch h
  transaction d t h := nomatch h
  apart _ := .inl rfl
  sizes := inStep_empty

/-- The height of a new block leads to it, and all others lead where they
led. -/
theorem height_stored_block (h : a.Lockstep) (hfresh : a.Fresh (.block b))
    (n : UInt64) (d : Digest) :
    (a.stored (.block b)).heights.get? n = some d ↔
      ∃ q, (a.stored (.block b)).blocks.get? d = some q ∧ q.hash = d ∧
        q.height = n := by
  have hname : a.blocks.get? b.hash = none :=
    (contains_eq_false_iff.mp hfresh.hash).1
  rw [heights_stored_block, blocks_stored_block]
  constructor
  · split
    · next hn =>
      rintro ⟨⟩
      exact ⟨b, if_pos rfl, rfl, hn.symm⟩
    · intro hd
      obtain ⟨q, hq, hbears, hqn⟩ := (h.height n d).mp hd
      -- what is there already is not under the name of the new block
      have hne : d ≠ b.hash := by
        rintro rfl
        rw [hname] at hq
        cases hq
      exact ⟨q, by rw [if_neg hne, hq], hbears, hqn⟩
  · rintro ⟨q, hq, hbears, rfl⟩
    split at hq
    · next hd =>
      cases hq
      rw [if_pos rfl, hd]
    · have hold : a.heights.get? q.height = some d :=
        (h.height q.height d).mpr ⟨q, hq, hbears, rfl⟩
      have hne : q.height ≠ b.height := by
        intro heq
        rw [heq, hfresh.height b rfl] at hold
        cases hold
      rw [if_neg hne, hold]

theorem stored_block (h : a.Lockstep) (hfresh : a.Fresh (.block b)) :
    (a.stored (.block b)).Lockstep := by
  have hunused : a.transactions.get? b.hash = none :=
    (contains_eq_false_iff.mp hfresh.hash).2
  refine ⟨h.height_stored_block hfresh, ?_, h.transaction, ?_,
    h.sizes.stored hfresh⟩
  · intro d q hq
    rw [blocks_stored_block] at hq
    split at hq
    · next hd =>
      cases hq
      exact hd.symm
    · exact h.block d q hq
  · intro d
    by_cases hd : d = b.hash
    · exact .inr (SortedMap.contains_eq_false_iff.mpr (hd ▸ hunused))
    · refine (h.apart d).imp_left fun hold =>
        SortedMap.contains_eq_false_iff.mpr ?_
      rw [blocks_stored_block, if_neg hd,
        SortedMap.contains_eq_false_iff.mp hold]

theorem stored_transaction (h : a.Lockstep) {t : Transaction}
    (hfresh : a.Fresh (.transaction t)) :
    (a.stored (.transaction t)).Lockstep := by
  have hunused : a.blocks.get? t.hash = none :=
    (contains_eq_false_iff.mp hfresh.hash).1
  refine ⟨h.height, h.block, ?_, ?_, h.sizes⟩
  · intro d u hu
    rw [transactions_stored_transaction] at hu
    split at hu
    · next hd =>
      cases hu
      exact hd.symm
    · exact h.transaction d u hu
  · intro d
    by_cases hd : d = t.hash
    · exact .inl (SortedMap.contains_eq_false_iff.mpr (hd ▸ hunused))
    · refine (h.apart d).imp_right fun hold =>
        SortedMap.contains_eq_false_iff.mpr ?_
      rw [transactions_stored_transaction, if_neg hd,
        SortedMap.contains_eq_false_iff.mp hold]

theorem put (h : a.Lockstep) (e : Entry) : (a.put e).2.Lockstep := by
  rcases put_cases h.sizes e with ⟨r, hput, -⟩ | ⟨hfresh, hput, -⟩
  · rw [hput]
    exact h
  · rw [hput]
    cases e with
    | block b => exact h.stored_block hfresh
    | transaction t => exact h.stored_transaction hfresh

/-- Entries one after the other keep the lockstep, wherever they stop. -/
theorem putAll (h : a.Lockstep) (es : List Entry) :
    (a.putAll es).2.Lockstep := by
  induction es generalizing a with
  | nil => exact h
  | cons e rest ih =>
    have hput := h.put e
    unfold Archive.putAll
    split
    · next written hwritten =>
      rw [hwritten] at hput
      exact ih hput
    · exact hput

theorem perform (h : a.Lockstep) (c : Call) : (a.perform c).2.Lockstep := by
  cases c with
  | put e => exact h.put e
  | putBlock b =>
    show (a.putBlock b).2.Lockstep
    unfold putBlock
    split
    · exact h
    · exact h.putAll _

theorem afterCalls (calls : List Call) : (afterCalls calls).Lockstep := by
  induction calls using List.reverseRecOn with
  | nil => exact .empty
  | append_singleton before c ih =>
    rw [Archive.afterCalls, List.foldl_append]
    exact ih.perform c

end Lockstep

/-! ## All or nothing -/

/-- Entries that could all be added to a copy are all put. -/
theorem putAll_of_foldlM (hstep : a.InStep) {es : List Entry}
    (h : es.foldlM addEntry a = .ok a') : a.putAll es = (.ok (), a') := by
  induction es generalizing a with
  | nil =>
    cases pure_eq_ok.mp h
    rfl
  | cons e rest ih =>
    obtain ⟨m, hm, hrest⟩ := foldlM_cons_eq_ok.mp h
    rcases put_cases hstep e with ⟨r, -, hrefused, -⟩ | ⟨hfresh, hput, hadd⟩
    · rw [hm] at hrefused
      cases hrefused
    · cases hm.symm.trans hadd
      unfold putAll
      rw [hput]
      exact ih (hstep.stored hfresh) hrest

/-- **The check foresees every refusal**: a block that passes it is put with its
transactions. -/
theorem putBlock_of_check (hstep : a.InStep) (h : a.check b = .ok ()) :
    a.putBlock b = (.ok (), a.added b) := by
  have hadd := add_of_check hstep h
  rw [add_eq, h] at hadd
  unfold putBlock
  rw [h]
  exact putAll_of_foldlM hstep hadd

theorem putBlock_eq (hstep : a.InStep) (b : Block) :
    a.putBlock b = a.replacedBy (a.add b) := by
  cases hcheck : a.check b with
  | ok u =>
    rw [putBlock_of_check hstep hcheck, add_of_check hstep hcheck]
    rfl
  | error r =>
    unfold putBlock
    rw [add, hcheck]
    rfl

/-- **In place is as good as on a copy.** -/
theorem perform_eq (hstep : a.InStep) (c : Call) :
    a.perform c = a.replacedBy (a.outcome c) := by
  cases c with
  | put e => exact put_eq hstep e
  | putBlock b => exact putBlock_eq hstep b

theorem check_refuses_inStep (a : Archive) (b : Block) :
    RefusesOnly (¬ ·.IsOutOfStep) (a.check b) := by
  have htransactions : ∀ (seen : List Digest) (ts : List Transaction),
      RefusesOnly (¬ ·.IsOutOfStep) (a.checkTransactions b.hash seen ts) := by
    intro seen ts
    induction ts generalizing seen with
    | nil => exact .ok _
    | cons t rest ih => exact .guard (fun _ => nofun) (ih _)
  unfold check
  refine .guard (fun _ => nofun) ?_
  split
  · exact .error nofun
  · exact htransactions [] b.transactions

/-- **No call finds the archive out of step.** -/
theorem perform_refuses_inStep (hstep : a.InStep) (c : Call) :
    RefusesOnly (¬ ·.IsOutOfStep) (a.perform c).1 := by
  cases c with
  | put e =>
    show RefusesOnly _ (a.put e).1
    rcases put_cases hstep e with ⟨r, hput, -, hr⟩ | ⟨-, hput, -⟩
    · rw [hput]
      exact .error hr
    · rw [hput]
      exact .ok _
  | putBlock b =>
    show RefusesOnly _ (a.putBlock b).1
    cases hcheck : a.check b with
    | ok u =>
      rw [putBlock_of_check hstep hcheck]
      exact .ok _
    | error r =>
      unfold putBlock
      rw [hcheck]
      exact .error (a.check_refuses_inStep b r hcheck)

/-- A call that is refused leaves the archive as it was. -/
theorem perform_of_error (hstep : a.InStep) {c : Call} {r : Rejection}
    (h : (a.perform c).1 = .error r) : (a.perform c).2 = a := by
  rw [perform_eq hstep] at h ⊢
  cases houtcome : a.outcome c with
  | error r => rfl
  | ok copy =>
    rw [houtcome] at h
    cases h

theorem putBlock_eq_ok (hstep : a.InStep) :
    (a.putBlock b).1 = .ok () ↔ a.check b = .ok () := by
  constructor
  · intro h
    unfold putBlock at h
    split at h
    · cases h
    · next hcheck => exact hcheck
  · intro hcheck
    rw [putBlock_of_check hstep hcheck]

/-- A block that passed the check is found under its hash and its height
afterwards, and its transactions under theirs. -/
theorem found_of_check (h : a.check b = .ok ()) :
    (a.added b).block (.byHash b.hash) = .ok b ∧
      (a.added b).block (.byHeight b.height) = .ok b ∧
      ∀ t ∈ b.transactions, (a.added b).transaction t.hash = .ok t := by
  obtain ⟨hdistinct, -⟩ := nodup_of_checkTransactions (check_eq_ok.mp h).2.2
  have hblock : (a.added b).blocks.get? b.hash = some b :=
    SortedMap.get?_insert_self _ _ _
  have hheight : (a.added b).heights.get? b.height = some b.hash :=
    SortedMap.get?_insert_self _ _ _
  refine ⟨block_byHash_eq_ok.mpr hblock,
    block_byHeight_eq_ok.mpr ⟨b.hash, hheight, hblock⟩, ?_⟩
  intro t ht
  exact transaction_eq_ok.mpr (get?_withTransactions hdistinct ht)

/-! ## The main statement -/

/-- **The archive stays in lockstep**, whatever calls are made on it from the
start. A height leads to a hash exactly if the block under the hash has both,
and nothing is found both as a block and as a transaction. A call comes to the
same in place as on a copy: if it is refused, all is as before, and never is it
refused because the maps differ in size. A block is put exactly if it passes the
check, and then it is found by its hash and by its height, and each of its
transactions by its hash. -/
theorem lockstep_after_any_calls (calls : List Call) :
    let a := afterCalls calls
    (∀ h d, a.heights.get? h = some d ↔
      ∃ b, a.blocks.get? d = some b ∧ b.hash = d ∧ b.height = h) ∧
    (∀ d, ¬ (a.blocks.contains d = true ∧ a.transactions.contains d = true)) ∧
    (∀ c, a.perform c = a.replacedBy (a.outcome c)) ∧
    (∀ c r, (a.perform c).1 = .error r → (a.perform c).2 = a ∧ ¬ r.IsOutOfStep) ∧
    (∀ b, (a.perform (.putBlock b)).1 = .ok () ↔ a.check b = .ok ()) ∧
    ∀ b a', a.perform (.putBlock b) = (.ok (), a') → a'.block (.byHash b.hash) =
      .ok b ∧ a'.block (.byHeight b.height) = .ok b ∧
      ∀ t ∈ b.transactions, a'.transaction t.hash = .ok t := by
  intro a
  have hlockstep : a.Lockstep := .afterCalls calls
  have hstep := hlockstep.sizes
  refine ⟨hlockstep.height, ?_, perform_eq hstep, ?_, fun b =>
    putBlock_eq_ok hstep, ?_⟩
  · rintro d ⟨hblock, htransaction⟩
    rcases hlockstep.apart d with hnone | hnone
    · rw [hnone] at hblock
      cases hblock
    · rw [hnone] at htransaction
      cases htransaction
  · exact fun c r hr =>
      ⟨perform_of_error hstep hr, perform_refuses_inStep hstep c r hr⟩
  · intro b a' hput
    have hcheck : a.check b = .ok () :=
      (putBlock_eq_ok hstep).mp (congrArg Prod.fst hput)
    have hadded : a.perform (.putBlock b) = (.ok (), a.added b) :=
      putBlock_of_check hstep hcheck
    cases hput.symm.trans hadded
    exact found_of_check hcheck

/-- A block under a given name, with transactions under given names. -/
def forged (hash : Digest) (names : List Digest) : Block where
  height := 0
  hash := hash
  parent := none
  timestamp := 0
  transactions :=
    names.map fun d => { Transaction.ofAction "ada" 0 0 .revoke with hash := d }

/-- A block with a transaction of its own name is refused as a whole, though
another transaction in front of it could be put, and so is one in which a name
repeats. Without them the block is put. -/
theorem lockstep_after_any_calls_forged :
    let name : Digest := ⟨List.replicate 32 1, rfl⟩
    let own := forged .zero [name, .zero]
    let repeated := forged .zero [name, name]
    let sound := forged .zero [name]
    let a := afterCalls [.putBlock own, .putBlock repeated]
    (a.perform (.putBlock own)).2 = a ∧ (a.perform (.putBlock repeated)).2 = a ∧
    (a.perform (.putBlock sound)).1 = .ok () ∧
    (afterCalls
      [.putBlock own, .putBlock repeated, .putBlock sound]).transaction name =
      .ok { Transaction.ofAction "ada" 0 0 .revoke with hash := name } := by
  intro name own repeated sound a
  obtain ⟨-, -, -, hrefused, hput, hfound⟩ :=
    lockstep_after_any_calls [.putBlock own, .putBlock repeated]
  have hsound : (a.perform (.putBlock sound)).1 = .ok () :=
    (hput sound).mpr (by decide +kernel)
  refine ⟨(hrefused _ (.duplicateTransaction .zero) ?_).1,
    (hrefused _ (.duplicateTransaction name) ?_).1, hsound, ?_⟩
  · decide +kernel
  · decide +kernel
  · exact (hfound sound _ (Prod.ext hsound rfl)).2.2 _ List.mem_cons_self

end Archive
end CouncilLedger
