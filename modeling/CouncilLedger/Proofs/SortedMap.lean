import CouncilLedger.SortedMap
import Mathlib.Algebra.BigOperators.Group.Finset.Basic
import Mathlib.Algebra.GroupWithZero.Nat
import Mathlib.Algebra.Order.BigOperators.Group.Finset
import Mathlib.Algebra.Order.BigOperators.Group.List
import Mathlib.Algebra.Order.Group.Nat

/-!
# Sorted maps through their entries

What insertion does to the list of entries, to the number of them, and to sums
over the values. A map is rebuilt from its own entries.
-/

namespace CouncilLedger.SortedMap

variable {κ α : Type} [Ord κ]

/-- The keys of some entries increase strictly. -/
abbrev Ordered (l : List (κ × α)) : Prop :=
  l.Pairwise (fun a b => compare a.1 b.1 = .lt)

/-- The sum of `f` over the values of a map. -/
def sumBy (f : α → Nat) (m : SortedMap κ α) : Nat := (m.values.map f).sum

theorem ext_entries {m n : SortedMap κ α} (h : m.entries = n.entries) :
    m = n := by
  cases m; cases n; cases h; rfl

variable [Std.LawfulEqOrd κ]

theorem ne_of_compare_lt {k q : κ} (h : compare k q = .lt) : k ≠ q := by
  rintro rfl
  have heq : compare k k = .eq := Std.ReflCmp.compare_self
  rw [heq] at h
  cases h

/-! ## Look-up and membership -/

theorem mem_of_lookup {k : κ} {v : α} :
    ∀ {l : List (κ × α)}, lookup k l = some v → (k, v) ∈ l
  | [], h => by cases h
  | (k', v') :: rest, h => by
    unfold lookup at h
    split at h
    · next heq =>
      cases Std.LawfulEqCmp.eq_of_compare heq
      cases h
      exact List.mem_cons_self
    · exact List.mem_cons_of_mem _ (mem_of_lookup h)

theorem lookup_of_mem {k : κ} {v : α} :
    ∀ {l : List (κ × α)}, Ordered l → (k, v) ∈ l → lookup k l = some v
  | (k', v') :: rest, hl, h => by
    obtain ⟨hfirst, hrest⟩ := List.pairwise_cons.mp hl
    rcases List.mem_cons.mp h with h | h
    · cases h
      simp [lookup]
    · have hne : ¬ compare k k' = .eq := fun heq =>
        ne_of_compare_lt (hfirst (k, v) h)
          (Std.LawfulEqCmp.eq_of_compare heq).symm
      rw [lookup, if_neg hne]
      exact lookup_of_mem hrest h

theorem get?_eq_some_iff {m : SortedMap κ α} {k : κ} {v : α} :
    m.get? k = some v ↔ (k, v) ∈ m.entries :=
  ⟨mem_of_lookup, lookup_of_mem m.sorted⟩

theorem mem_values_iff {m : SortedMap κ α} {v : α} :
    v ∈ m.values ↔ ∃ k, m.get? k = some v := by
  simp [values, get?_eq_some_iff]

theorem mem_values_of_get? {m : SortedMap κ α} {k : κ} {v : α}
    (h : m.get? k = some v) : v ∈ m.values :=
  mem_values_iff.mpr ⟨k, h⟩

theorem mem_keys_of_get? {m : SortedMap κ α} {k : κ} {v : α}
    (h : m.get? k = some v) : k ∈ m.keys :=
  List.mem_map_of_mem (get?_eq_some_iff.mp h)

omit [Std.LawfulEqOrd κ] in
theorem contains_iff {m : SortedMap κ α} {k : κ} :
    m.contains k = true ↔ ∃ v, m.get? k = some v :=
  Option.isSome_iff_exists

omit [Std.LawfulEqOrd κ] in
theorem contains_eq_false_iff {m : SortedMap κ α} {k : κ} :
    m.contains k = false ↔ m.get? k = none :=
  Option.isSome_eq_false_iff.trans Option.isNone_iff_eq_none

theorem get?_erase [DecidableEq κ] (m : SortedMap κ α) (k q : κ) :
    (m.erase k).get? q = if q = k then none else m.get? q := by
  have hmem : ∀ v, (m.erase k).get? q = some v ↔ q ≠ k ∧
      m.get? q = some v := fun v => by
    simp [get?_eq_some_iff, erase, filter, and_comm]
  split
  · next h =>
    rw [Option.eq_none_iff_forall_ne_some]
    exact fun v hv => ((hmem v).mp hv).1 h
  · next h =>
    apply Option.ext
    exact fun v => (hmem v).trans (and_iff_right h)

theorem get?_filter (m : SortedMap κ α) (p : κ → α → Bool) (k : κ) :
    (m.filter p).get? k = (m.get? k).filter (p k) := by
  apply Option.ext
  intro v
  simp [get?_eq_some_iff, filter, Option.filter_eq_some_iff]

variable [Std.TransOrd κ]

theorem get?_insert (m : SortedMap κ α) (k q : κ) (v : α) [Decidable (q = k)] :
    (m.insert k v).get? q = if q = k then some v else m.get? q := by
  split
  · next h => rw [h, get?_insert_self]
  · next h => exact get?_insert_of_ne m h v

theorem getD_insert (m : SortedMap κ α) (k q : κ) (v d : α) [Decidable (q = k)] :
    (m.insert k v).getD q d = if q = k then v else m.getD q d := by
  rw [getD, get?_insert]
  split <;> rfl

theorem place_of_lookup {k : κ} {v : α} :
    ∀ {l : List (κ × α)}, Ordered l → lookup k l = some v → place k v l = l
  | [], _, h => by cases h
  | (k', v') :: rest, hl, h => by
    obtain ⟨hfirst, hrest⟩ := List.pairwise_cons.mp hl
    unfold lookup at h
    unfold place
    split at h
    · next heq =>
      cases Std.LawfulEqCmp.eq_of_compare heq
      cases h
      simp
    · -- the key comes behind that of the first entry
      have hgt : compare k k' = .gt :=
        Std.OrientedCmp.gt_of_lt (hfirst _ (mem_of_lookup h))
      simp only [hgt]
      rw [place_of_lookup hrest h]

/-- Storing what is there changes nothing. -/
theorem insert_of_get? {m : SortedMap κ α} {k : κ} {v : α}
    (h : m.get? k = some v) : m.insert k v = m :=
  ext_entries (place_of_lookup m.sorted h)

theorem mem_values_insert {m : SortedMap κ α} {k : κ} {v w : α}
    (h : w ∈ (m.insert k v).values) : w = v ∨ w ∈ m.values := by
  obtain ⟨e, he, rfl⟩ := List.mem_map.mp h
  rcases mem_place he with rfl | he
  · exact .inl rfl
  · exact .inr (List.mem_map.mpr ⟨e, he, rfl⟩)

theorem mem_keys_insert {m : SortedMap κ α} {k q : κ} {v : α}
    (h : q ∈ (m.insert k v).keys) : q = k ∨ q ∈ m.keys := by
  obtain ⟨e, he, rfl⟩ := List.mem_map.mp h
  rcases mem_place he with rfl | he
  · exact .inl rfl
  · exact .inr (List.mem_map_of_mem he)

omit [Std.LawfulEqOrd κ] [Std.TransOrd κ] in
theorem place_perm (k : κ) (v : α) :
    ∀ {l : List (κ × α)}, lookup k l = none → (place k v l).Perm ((k, v) :: l)
  | [], _ => .refl _
  | (k', v') :: rest, h => by
    unfold lookup at h
    split at h
    · cases h
    · next hne =>
      unfold place
      split
      · exact .refl _
      · next heq => exact absurd heq hne
      · exact ((place_perm k v h).cons _).trans (.swap _ _ _)

/-- A value at a new key comes to the others. -/
theorem values_insert_perm {m : SortedMap κ α} {k : κ} (v : α)
    (h : m.get? k = none) : (m.insert k v).values.Perm (v :: m.values) :=
  (place_perm k v h).map Prod.snd

omit [Std.TransOrd κ] in
theorem nodup_keys (m : SortedMap κ α) : m.keys.Nodup := by
  refine List.pairwise_map.mpr (m.sorted.imp ?_)
  exact fun h => ne_of_compare_lt h

omit [Std.TransOrd κ] in
/-- Where each value tells its key, the values tell all keys. -/
theorem map_values_eq_keys {f : α → κ} {m : SortedMap κ α}
    (h : ∀ k v, m.get? k = some v → f v = k) : m.values.map f = m.keys := by
  rw [values, keys, List.map_map]
  apply List.map_congr_left
  intro e he
  exact h e.1 e.2 (get?_eq_some_iff.mpr he)

/-! ## Insertion at the end -/

omit [Std.LawfulEqOrd κ] in
theorem place_of_forall_lt {k : κ} {v : α} :
    ∀ {l : List (κ × α)}, (∀ e ∈ l, compare e.1 k = .lt) →
    place k v l = l ++ [(k, v)]
  | [], _ => rfl
  | (k', v') :: rest, h => by
    have hgt : compare k k' = .gt :=
      Std.OrientedCmp.gt_iff_lt.mpr (h _ List.mem_cons_self)
    rw [place, hgt]
    exact congrArg _ (place_of_forall_lt fun e he =>
      h e (List.mem_cons_of_mem _ he))

theorem entries_insert_of_forall_lt {m : SortedMap κ α} {k : κ} (v : α)
    (h : ∀ e ∈ m.entries, compare e.1 k = .lt) :
    (m.insert k v).entries = m.entries ++ [(k, v)] :=
  place_of_forall_lt h

/-- Entries in order are appended one by one. -/
theorem entries_foldl_insert :
    ∀ {l : List (κ × α)} {m : SortedMap κ α}, Ordered (m.entries ++ l) →
      (l.foldl (fun m e => m.insert e.1 e.2) m).entries = m.entries ++ l
  | [], m, _ => by simp
  | (k, v) :: rest, m, h => by
    have hlt : ∀ e ∈ m.entries, compare e.1 k = .lt := fun e he =>
      (List.pairwise_append.mp h).2.2 e he (k, v) List.mem_cons_self
    have hstep := entries_insert_of_forall_lt v hlt
    rw [List.foldl_cons,
      entries_foldl_insert (by rw [hstep]; simpa using h), hstep]
    simp

theorem ofList_entries (m : SortedMap κ α) : ofList m.entries = m := by
  apply ext_entries
  have h : Ordered ((empty : SortedMap κ α).entries ++ m.entries) := m.sorted
  exact entries_foldl_insert h

/-! ## Size and sums -/

/-- Insertion trades the value that was at the key, if any, for the new one. -/
theorem sum_place (f : α → Nat) (k : κ) (v : α) :
    ∀ {l : List (κ × α)}, Ordered l →
      ((place k v l).map fun e => f e.2).sum + ((lookup k l).map f).getD 0 =
        (l.map fun e => f e.2).sum + f v
  | [], _ => by simp [place, lookup]
  | (k', v') :: rest, h => by
    obtain ⟨hfirst, hrest⟩ := List.pairwise_cons.mp h
    have ih := sum_place f k v hrest
    unfold place lookup
    split
    · next hlt =>
      -- the key comes first of all, so it is not there yet
      have hnone : lookup k rest = none := by
        cases hk : lookup k rest with
        | none => rfl
        | some w =>
          have hlt' := hfirst _ (mem_of_lookup hk)
          exact absurd rfl (ne_of_compare_lt (Std.TransCmp.lt_trans hlt hlt'))
      simp [hlt, hnone]
      omega
    · next heq =>
      simp [heq]
      omega
    · next hgt =>
      simp [hgt]
      omega

theorem sumBy_insert (f : α → Nat) (m : SortedMap κ α) (k : κ) (v : α) :
    (m.insert k v).sumBy f + ((m.get? k).map f).getD 0 = m.sumBy f + f v := by
  have h := sum_place f k v m.sorted
  simpa [sumBy, values, insert, get?, Function.comp_def] using h

/-- The same in terms of what the map has at the key, where an absent value adds
nothing. -/
theorem sumBy_insert_getD {f : α → Nat} {d : α} (hd : f d = 0)
    (m : SortedMap κ α) (k : κ) (v : α) :
    (m.insert k v).sumBy f + f (m.getD k d) = m.sumBy f + f v := by
  have h := sumBy_insert f m k v
  have hheld : ((m.get? k).map f).getD 0 = f (m.getD k d) := by
    rw [getD]
    cases m.get? k with
    | none => exact hd.symm
    | some v => rfl
  rwa [hheld] at h

theorem size_insert_of_get?_eq_none {m : SortedMap κ α} {k : κ} (v : α)
    (h : m.get? k = none) : (m.insert k v).size = m.size + 1 := by
  have hsum := sumBy_insert (fun _ => 1) m k v
  have hlen : ∀ n : SortedMap κ α, n.sumBy (fun _ => 1) = n.size := fun n => by
    simp [sumBy, values, size, Function.comp_def]
  rwa [h, hlen, hlen] at hsum

omit [Std.TransOrd κ] in
/-- One value is part of the sum. -/
theorem le_sumBy {f : α → Nat} {m : SortedMap κ α} {k : κ} {v : α}
    (h : m.get? k = some v) : f v ≤ m.sumBy f := by
  have hmem : f v ∈ m.values.map f :=
    List.mem_map.mpr ⟨v, mem_values_of_get? h, rfl⟩
  exact List.single_le_sum (fun _ _ => Nat.zero_le _) _ hmem

/-- The values at some keys are part of the sum. -/
theorem sum_getD_le_sumBy [DecidableEq κ] {f : α → Nat} {d : α} (hd : f d = 0)
    (m : SortedMap κ α) (s : Finset κ) :
    ∑ k ∈ s, f (m.getD k d) ≤ m.sumBy f := by
  induction s using Finset.induction_on generalizing m with
  | empty => simp
  | insert k s hk ih =>
    -- the others have their part in the map whose value at `k` is traded for
    -- `d`
    have hothers :
        ∑ q ∈ s, f ((m.insert k d).getD q d) = ∑ q ∈ s, f (m.getD q d) := by
      refine Finset.sum_congr rfl fun q hq => ?_
      rw [getD_insert, if_neg (ne_of_mem_of_not_mem hq hk)]
    have hrest := ih (m.insert k d)
    have htrade := sumBy_insert_getD hd m k d
    rw [Finset.sum_insert hk]
    omega

omit [Std.TransOrd κ] in
/-- A sum over the values is one over the keys. -/
theorem sumBy_eq_sum_keys [DecidableEq κ] (f : α → Nat) (m : SortedMap κ α)
    (d : α) : m.sumBy f = ∑ k ∈ m.keys.toFinset, f (m.getD k d) := by
  rw [List.sum_toFinset _ m.nodup_keys, sumBy, values, keys,
    List.map_map, List.map_map]
  congr 1
  refine List.map_congr_left fun e he => ?_
  show f e.2 = f (m.getD e.1 d)
  rw [getD, get?_eq_some_iff.mpr he]
  rfl

/-- A sum over the values is one over all keys that have a value that counts,
and any others. -/
theorem sumBy_eq_sum [DecidableEq κ] {f : α → Nat} {d : α} (hd : f d = 0)
    (m : SortedMap κ α) {s : Finset κ} (hs : ∀ k, f (m.getD k d) ≠ 0 → k ∈ s) :
    m.sumBy f = ∑ k ∈ s, f (m.getD k d) := by
  refine Nat.le_antisymm ?_ (sum_getD_le_sumBy hd m s)
  rw [sumBy_eq_sum_keys f m d]
  exact Finset.sum_le_sum_of_ne_zero fun k _ => hs k

/-- Maps that look alike to `f` have the same sum. -/
theorem sumBy_congr [DecidableEq κ] {f : α → Nat} {d : α} (hd : f d = 0)
    {m n : SortedMap κ α} (h : ∀ k, f (m.getD k d) = f (n.getD k d)) :
    m.sumBy f = n.sumBy f := by
  have hle : ∀ {m n : SortedMap κ α}, (∀ k, f (m.getD k d) = f (n.getD k d)) →
      m.sumBy f ≤ n.sumBy f := by
    intro m n h
    rw [sumBy_eq_sum_keys f m d, Finset.sum_congr rfl fun k _ => h k]
    exact sum_getD_le_sumBy hd n _
  exact Nat.le_antisymm (hle h) (hle fun k => (h k).symm)

omit [Std.LawfulEqOrd κ] [Std.TransOrd κ] in
theorem sumBy_filter_le (f : α → Nat) (m : SortedMap κ α) (p : κ → α → Bool) :
    (m.filter p).sumBy f ≤ m.sumBy f :=
  ((List.filter_sublist.map Prod.snd).map f).sum_le_sum fun _ _ => Nat.zero_le _

end CouncilLedger.SortedMap
