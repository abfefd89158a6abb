/-!
# Sorted maps

A finite map as the list of its entries in strictly increasing key order. The
order is part of the type, so two maps with the same look-ups are equal, and
whatever lists a map lists it by key.
-/

namespace CouncilLedger

/-- A finite map from `κ` to `α`. -/
structure SortedMap (κ α : Type) [Ord κ] where
  /-- The entries in key order. -/
  entries : List (κ × α)
  sorted : entries.Pairwise (fun a b => compare a.1 b.1 = .lt)

namespace SortedMap

variable {κ α : Type} [Ord κ]

instance [DecidableEq κ] [DecidableEq α] :
    DecidableEq (SortedMap κ α) := fun m n =>
  if h : m.entries = n.entries then
    .isTrue (by cases m; cases n; cases h; rfl)
  else .isFalse (fun e => h (e ▸ rfl))

/-- The map with no entries. -/
def empty : SortedMap κ α := ⟨[], .nil⟩

instance : EmptyCollection (SortedMap κ α) := ⟨empty⟩
instance : Inhabited (SortedMap κ α) := ⟨empty⟩

/-! ## Reading -/

/-- The value stored first under `k` in a list of entries. -/
def lookup (k : κ) : List (κ × α) → Option α
  | [] => none
  | (k', v) :: rest => if compare k k' = .eq then some v else lookup k rest

/-- The value at `k`. -/
def get? (m : SortedMap κ α) (k : κ) : Option α := lookup k m.entries

/-- The value at `k`, or `v` where the map has none. -/
def getD (m : SortedMap κ α) (k : κ) (v : α) : α := (m.get? k).getD v

/-- Whether the map has a value at `k`. -/
def contains (m : SortedMap κ α) (k : κ) : Bool := (m.get? k).isSome

/-- The keys in order. -/
def keys (m : SortedMap κ α) : List κ := m.entries.map (·.1)

/-- The values in the order of their keys. -/
def values (m : SortedMap κ α) : List α := m.entries.map (·.2)

/-- The number of entries. -/
def size (m : SortedMap κ α) : Nat := m.entries.length

/-- The entries for which `p` holds. -/
def filter (p : κ → α → Bool) (m : SortedMap κ α) : SortedMap κ α :=
  ⟨m.entries.filter (fun e => p e.1 e.2), m.sorted.filter _⟩

/-- The map without an entry for `k`. -/
def erase [DecidableEq κ] (m : SortedMap κ α) (k : κ) : SortedMap κ α :=
  m.filter fun k' _ => k' ≠ k

@[simp] theorem get?_empty (k : κ) : (empty : SortedMap κ α).get? k = none :=
  rfl

/-! ## Writing -/

/-- Put `v` at `k` into a list of entries in key order. -/
def place (k : κ) (v : α) : List (κ × α) → List (κ × α)
  | [] => [(k, v)]
  | (k', v') :: rest =>
    match compare k k' with
    | .lt => (k, v) :: (k', v') :: rest
    | .eq => (k, v) :: rest
    | .gt => (k', v') :: place k v rest

theorem mem_place {k : κ} {v : α} {e : κ × α} :
    ∀ {l : List (κ × α)}, e ∈ place k v l → e = (k, v) ∨ e ∈ l
  | [], h => by simpa [place] using h
  | (k', v') :: rest, h => by
    unfold place at h
    split at h
    · simpa using h
    · rcases List.mem_cons.mp h with h | h
      · exact .inl h
      · exact .inr (List.mem_cons_of_mem _ h)
    · rcases List.mem_cons.mp h with h | h
      · exact .inr (h ▸ List.mem_cons_self)
      · exact (mem_place h).imp_right (List.mem_cons_of_mem _)

variable [Std.TransOrd κ] [Std.LawfulEqOrd κ]

theorem place_sorted (k : κ) (v : α) :
    ∀ {l : List (κ × α)}, l.Pairwise (fun a b => compare a.1 b.1 = .lt) →
      (place k v l).Pairwise (fun a b => compare a.1 b.1 = .lt)
  | [], _ => by simp [place]
  | (k', v') :: rest, h => by
    obtain ⟨hfirst, hrest⟩ := List.pairwise_cons.mp h
    unfold place
    split
    · next hlt =>
      refine List.pairwise_cons.mpr ⟨fun e he => ?_, h⟩
      rcases List.mem_cons.mp he with rfl | he
      · exact hlt
      · exact Std.TransCmp.lt_trans hlt (hfirst e he)
    · next heq =>
      have hk : k = k' := Std.LawfulEqCmp.eq_of_compare heq
      subst hk
      exact List.pairwise_cons.mpr ⟨hfirst, hrest⟩
    · next hgt =>
      refine List.pairwise_cons.mpr ⟨fun e he => ?_, place_sorted k v hrest⟩
      rcases mem_place he with rfl | he
      · exact Std.OrientedCmp.gt_iff_lt.mp hgt
      · exact hfirst e he

/-- The map with `v` at `k` and all else as before. -/
def insert (m : SortedMap κ α) (k : κ) (v : α) : SortedMap κ α :=
  ⟨place k v m.entries, place_sorted k v m.sorted⟩

/-- The map of a list of entries; of two entries with one key the later
holds. -/
def ofList (l : List (κ × α)) : SortedMap κ α :=
  l.foldl (fun m e => m.insert e.1 e.2) empty

/-! ## Look-up after insertion -/

omit [Std.TransOrd κ] in
theorem lookup_place_self (k : κ) (v : α) :
    ∀ l : List (κ × α), lookup k (place k v l) = some v
  | [] => by simp [place, lookup]
  | (k', v') :: rest => by
    unfold place
    split
    · simp [lookup]
    · simp [lookup]
    · next hgt => simp [lookup, hgt, lookup_place_self k v rest]

omit [Std.TransOrd κ] in
theorem lookup_place_of_ne {k q : κ} (hne : q ≠ k) (v : α) :
    ∀ l : List (κ × α), lookup q (place k v l) = lookup q l
  | [] => by simp [place, lookup, hne]
  | (k', v') :: rest => by
    unfold place
    split
    · simp [lookup, hne]
    · next heq =>
      have hk : k = k' := Std.LawfulEqCmp.eq_of_compare heq
      subst hk
      simp [lookup, hne]
    · simp only [lookup, lookup_place_of_ne hne v rest]

@[simp] theorem get?_insert_self (m : SortedMap κ α) (k : κ) (v : α) :
    (m.insert k v).get? k = some v :=
  lookup_place_self k v m.entries

theorem get?_insert_of_ne (m : SortedMap κ α) {k q : κ} (h : q ≠ k) (v : α) :
    (m.insert k v).get? q = m.get? q :=
  lookup_place_of_ne h v m.entries

end SortedMap
end CouncilLedger
