import CouncilLedger.Archive
import CouncilLedger.Proofs.Outcome
import CouncilLedger.Proofs.SortedMap

/-!
# Adding to the archive

A block that passes the check of the archive can be added with all of its
transactions: no later step of the addition refuses it. What the archive then
holds is `added`. The main statement is `add_of_check`.
-/

namespace CouncilLedger.Archive

open Outcome

/-- As many heights as blocks. -/
def InStep (a : Archive) : Prop := a.heights.size = a.blocks.size

theorem inStep_empty : empty.InStep := rfl

/-- The archive with some transactions more. -/
def withTransactions (a : Archive) (ts : List Transaction) : Archive :=
  { a with
    transactions := ts.foldl (fun m t => m.insert t.hash t) a.transactions }

/-- The archive with a block and its transactions. -/
def added (a : Archive) (b : Block) : Archive where
  blocks := a.blocks.insert b.hash b
  heights := a.heights.insert b.height b.hash
  transactions := (a.withTransactions b.transactions).transactions

variable {a a' : Archive} {b : Block}

/-! ## Transactions -/

theorem contains_eq_false_iff {d : Digest} :
    a.contains d = false ↔
      a.blocks.get? d = none ∧ a.transactions.get? d = none := by
  simp [contains, SortedMap.contains_eq_false_iff]

/-- A hash that is new to an archive and to some transactions is new to the
archive with them. -/
theorem contains_withTransactions {d : Digest} {ts : List Transaction}
    (ha : a.contains d = false) (hts : ∀ t ∈ ts, t.hash ≠ d) :
    (a.withTransactions ts).contains d = false := by
  induction ts generalizing a with
  | nil => exact ha
  | cons t rest ih =>
    rw [List.forall_mem_cons] at hts
    have hstep : (a.withTransactions [t]).contains d = false := by
      rw [contains_eq_false_iff] at ha ⊢
      refine ⟨ha.1, ?_⟩
      show (a.transactions.insert t.hash t).get? d = none
      rw [SortedMap.get?_insert_of_ne _ hts.1.symm, ha.2]
    exact ih hstep hts.2

theorem checkTransactions_cons {block : Digest} {seen : List Digest}
    {t : Transaction} {rest : List Transaction}
    (h : a.checkTransactions block seen (t :: rest) = .ok ()) :
    t.hash ≠ block ∧ a.contains t.hash = false ∧ t.hash ∉ seen ∧
      a.checkTransactions block (t.hash :: seen) rest = .ok () := by
  rw [checkTransactions, guard_eq_ok] at h
  simpa [and_assoc] using h

/-- Transactions that pass the check can be added one after the other to the
archive with those seen before. -/
theorem foldlM_addTransaction {block : Digest} (before : List Transaction)
    {ts : List Transaction}
    (h : a.checkTransactions block ((before.map (·.hash)).reverse) ts =
      .ok ()) :
    ts.foldlM addTransaction (a.withTransactions before) =
      .ok (a.withTransactions (before ++ ts)) := by
  induction ts generalizing before with
  | nil => simp [pure, Except.pure]
  | cons t rest ih =>
    obtain ⟨-, hnew, hseen, hrest⟩ := checkTransactions_cons h
    -- new to the archive, and not among those that were seen before
    have hfree : (a.withTransactions before).contains t.hash = false :=
      contains_withTransactions hnew fun u hu heq =>
        hseen (List.mem_reverse.mpr (List.mem_map.mpr ⟨u, hu, heq⟩))
    have hstep : (a.withTransactions before).addTransaction t =
        .ok (a.withTransactions (before ++ [t])) := by
      rw [addTransaction, hfree]
      simp [withTransactions]
    rw [List.foldlM_cons, hstep]
    have hih := ih (before ++ [t]) (by simpa using hrest)
    rwa [List.append_assoc] at hih

/-- The hashes of transactions that pass the check are new to the archive and to
the block. -/
theorem new_of_checkTransactions {block : Digest} {seen : List Digest}
    {ts : List Transaction} (h : a.checkTransactions block seen ts = .ok ()) :
    ∀ t ∈ ts, t.hash ≠ block ∧ a.contains t.hash = false := by
  induction ts generalizing seen with
  | nil => simp
  | cons t rest ih =>
    obtain ⟨hne, hnew, -, hrest⟩ := checkTransactions_cons h
    exact List.forall_mem_cons.mpr ⟨⟨hne, hnew⟩, ih hrest⟩

/-- The hashes of transactions that pass the check are distinct, and new to the
archive. -/
theorem nodup_of_checkTransactions {block : Digest} {seen : List Digest}
    {ts : List Transaction} (h : a.checkTransactions block seen ts = .ok ()) :
    (ts.map (·.hash)).Nodup ∧ ∀ t ∈ ts, t.hash ∉ seen ∧
      a.transactions.get? t.hash = none := by
  induction ts generalizing seen with
  | nil => simp
  | cons t rest ih =>
    obtain ⟨-, hnew, hseen, hrest⟩ := checkTransactions_cons h
    obtain ⟨hnodup, hothers⟩ := ih hrest
    refine ⟨List.nodup_cons.mpr ⟨?_, hnodup⟩, List.forall_mem_cons.mpr ⟨?_, ?_⟩⟩
    · intro ht
      obtain ⟨u, hu, heq⟩ := List.mem_map.mp ht
      exact (hothers u hu).1 (heq ▸ List.mem_cons_self)
    · exact ⟨hseen, (contains_eq_false_iff.mp hnew).2⟩
    · exact fun u hu => ⟨fun hmem => (hothers u hu).1
        (List.mem_cons_of_mem _ hmem), (hothers u hu).2⟩

theorem get?_withTransactions_of_ne {d : Digest} {ts : List Transaction}
    (hts : ∀ t ∈ ts, t.hash ≠ d) :
    (a.withTransactions ts).transactions.get? d = a.transactions.get? d := by
  induction ts generalizing a with
  | nil => rfl
  | cons t rest ih =>
    rw [List.forall_mem_cons] at hts
    exact (ih (a := a.withTransactions [t]) hts.2).trans
      (SortedMap.get?_insert_of_ne _ hts.1.symm _)

/-- A transaction is found among others of other hashes. -/
theorem get?_withTransactions {t : Transaction} {ts : List Transaction}
    (hnodup : (ts.map (·.hash)).Nodup) (ht : t ∈ ts) :
    (a.withTransactions ts).transactions.get? t.hash = some t := by
  induction ts generalizing a with
  | nil => cases ht
  | cons u rest ih =>
    obtain ⟨hnew, hrest⟩ := List.nodup_cons.mp hnodup
    rcases List.mem_cons.mp ht with rfl | ht
    · have hothers : ∀ u ∈ rest, u.hash ≠ t.hash := fun u hu heq =>
        hnew (List.mem_map.mpr ⟨u, hu, heq⟩)
      exact (get?_withTransactions_of_ne (a := a.withTransactions [t])
        hothers).trans (SortedMap.get?_insert_self _ _ _)
    · exact ih (a := a.withTransactions [u]) hrest ht

/-! ## Blocks -/

theorem check_eq_ok : a.check b = .ok () ↔
    a.contains b.hash = false ∧ a.heights.get? b.height = none ∧
      a.checkTransactions b.hash [] b.transactions = .ok () := by
  rw [check, guard_eq_ok]
  cases a.heights.get? b.height <;> simp

theorem inStep_added (hstep : a.InStep) (h : a.check b = .ok ()) :
    (a.added b).InStep := by
  obtain ⟨hhash, hheight, -⟩ := check_eq_ok.mp h
  show (a.heights.insert b.height b.hash).size = (a.blocks.insert b.hash b).size
  rw [SortedMap.size_insert_of_get?_eq_none _ hheight,
    SortedMap.size_insert_of_get?_eq_none _
    (contains_eq_false_iff.mp hhash).1, hstep]

/-- **No refusal after the check**: what passes the check is added. -/
theorem add_of_check (hstep : a.InStep) (h : a.check b = .ok ()) :
    a.add b = .ok (a.added b) := by
  obtain ⟨hhash, hheight, hts⟩ := check_eq_ok.mp h
  have hfold :
      b.transactions.foldlM addTransaction a =
        .ok (a.withTransactions b.transactions) :=
    foldlM_addTransaction [] hts
  have hfree : (a.withTransactions b.transactions).contains b.hash = false :=
    contains_withTransactions hhash fun t ht =>
      (new_of_checkTransactions hts t ht).1
  have hsizes :
      (a.heights.insert b.height b.hash).size =
        (a.blocks.insert b.hash b).size :=
    inStep_added hstep h
  have hblock :
      (a.withTransactions b.transactions).addBlock b = .ok (a.added b) := by
    rw [addBlock, hfree]
    simp [withTransactions, hheight, hsizes, added]
  rw [add, h, hfold]
  exact hblock

/-- What is added is one block more. -/
theorem add_ok (hstep : a.InStep) (h : a.add b = .ok a') :
    a'.InStep ∧ a'.blocks.size = a.blocks.size + 1 := by
  obtain ⟨⟨⟩, hcheck, -⟩ := bind_eq_ok.mp h
  rw [add_of_check hstep hcheck] at h
  cases h
  have hnew := (contains_eq_false_iff.mp (check_eq_ok.mp hcheck).1).1
  exact ⟨inStep_added hstep hcheck, SortedMap.size_insert_of_get?_eq_none _ hnew⟩

/-! ## Order -/

/-- The blocks in the order of their heights. -/
def inOrder (a : Archive) : List Block :=
  a.heights.values.filterMap a.blocks.get?

/-- A block that is higher than all others comes last. -/
theorem entries_heights_added (h : ∀ e ∈ a.heights.entries, e.1 < b.height) :
    (a.added b).heights.entries = a.heights.entries ++ [(b.height, b.hash)] :=
  SortedMap.entries_insert_of_forall_lt b.hash fun e he =>
    Std.compare_eq_lt.mpr (h e he)

end CouncilLedger.Archive
