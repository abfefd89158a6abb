import Mathlib.Data.List.Induction

/-!
# Outcomes

An operation either gives a result or refuses. When a composed operation gives a
result, so did each of its parts, and none of its guards applied. A property
that every step of a fold keeps is kept by the fold.
-/

namespace CouncilLedger.Outcome

variable {ε α β : Type}

/-! ## Inversion -/

theorem bind_eq_ok {x : Except ε α} {f : α → Except ε β} {b : β} :
    (x >>= f) = .ok b ↔ ∃ a, x = .ok a ∧ f a = .ok b := by
  cases x <;> simp [bind, Except.bind]

theorem pure_eq_ok {a b : α} : (pure a : Except ε α) = .ok b ↔ a = b := by
  simp [pure, Except.pure]

/-- Where a test finds something of an outcome, there is a result, and it
passes. -/
theorem exists_of_any_toOption {x : Except ε α} {p : α → Bool}
    (h : x.toOption.any p = true) : ∃ a, x = .ok a ∧ p a = true := by
  cases x with
  | error e => cases h
  | ok a => exact ⟨a, rfl, h⟩

theorem exists_of_isOk {x : Except ε α} (h : x.isOk = true) :
    ∃ a, x = .ok a := by
  cases x with
  | error e => cases h
  | ok a => exact ⟨a, rfl⟩

theorem throw_bind {e : ε} {f : α → Except ε β} :
    (throw e >>= f) = .error e := rfl

/-- A guard that refuses did not apply. -/
theorem guard_eq_ok {p : Prop} [Decidable p] {e : ε} {x : Except ε α} {a : α} :
    (if p then .error e else x) = .ok a ↔ ¬ p ∧ x = .ok a := by
  split <;> simp [*]

theorem bind_eq_error {x : Except ε α} {f : α → Except ε β} {e : ε} :
    (x >>= f) = .error e ↔ x = .error e ∨ ∃ a, x = .ok a ∧ f a = .error e := by
  cases x <;> simp [bind, Except.bind]

/-- What a guarded operation refuses, it refuses by the guard or past it. -/
theorem guard_eq_error {p : Prop} [Decidable p] {d e : ε} {x : Except ε α} :
    (if p then .error d else x) = .error e ↔
      p ∧ d = e ∨ ¬ p ∧ x = .error e := by
  split <;> simp [*]

theorem map_eq_ok {x : Except ε α} {f : α → β} {b : β} :
    x.map f = .ok b ↔ ∃ a, x = .ok a ∧ f a = b := by
  cases x <;> simp [Except.map]

theorem map_eq_error {x : Except ε α} {f : α → β} {e : ε} :
    x.map f = .error e ↔ x = .error e := by
  cases x <;> simp [Except.map]

theorem forM_eq_ok {f : α → Except ε Unit} {l : List α} :
    l.forM f = .ok () ↔ ∀ a ∈ l, f a = .ok () := by
  induction l with
  | nil => simp [pure, Except.pure]
  | cons a rest ih =>
    have hcons : (a :: rest).forM f = (f a >>= fun _ => rest.forM f) := rfl
    rw [hcons, bind_eq_ok, List.forall_mem_cons, ← ih]
    constructor
    · rintro ⟨⟨⟩, ha, hrest⟩
      exact ⟨ha, hrest⟩
    · rintro ⟨ha, hrest⟩
      exact ⟨(), ha, hrest⟩

/-! ## Folds -/

theorem foldlM_cons_eq_ok {f : β → α → Except ε β} {a : α} {after : List α}
    {s t : β} :
    (a :: after).foldlM f s = .ok t ↔ ∃ m, f s a = .ok m ∧
      after.foldlM f m = .ok t := by
  rw [List.foldlM_cons, bind_eq_ok]

theorem foldlM_append_eq_ok {f : β → α → Except ε β} {before after : List α}
    {s t : β} :
    (before ++ after).foldlM f s = .ok t ↔ ∃ m, before.foldlM f s = .ok m ∧
      after.foldlM f m = .ok t := by
  rw [List.foldlM_append, bind_eq_ok]

theorem foldlM_snoc_eq_ok {f : β → α → Except ε β} {before : List α} {a : α}
    {s t : β} :
    (before ++ [a]).foldlM f s = .ok t ↔ ∃ m, before.foldlM f s = .ok m ∧
      f m a = .ok t := by
  rw [foldlM_append_eq_ok]
  simp [List.foldlM_cons]

/-- Each step of a fold that gives a result gives one. -/
theorem step_of_foldlM {f : β → α → Except ε β} {l : List α} {s t : β}
    (h : l.foldlM f s = .ok t) {a : α} (ha : a ∈ l) :
    ∃ m m', f m a = .ok m' := by
  obtain ⟨before, after, rfl⟩ := List.append_of_mem ha
  obtain ⟨m, -, hrest⟩ := foldlM_append_eq_ok.mp h
  obtain ⟨m', hm', -⟩ := foldlM_cons_eq_ok.mp hrest
  exact ⟨m, m', hm'⟩

/-- What holds at the start and is kept by each step holds at the end. -/
theorem foldlM_induction {f : β → α → Except ε β} {P : β → Prop} {l : List α}
    {s t : β} (h : l.foldlM f s = .ok t) (hs : P s)
    (step : ∀ a ∈ l, ∀ m m', P m → f m a = .ok m' → P m') : P t := by
  induction l generalizing s with
  | nil => exact pure_eq_ok.mp h ▸ hs
  | cons a rest ih =>
    obtain ⟨m, hm, h⟩ := foldlM_cons_eq_ok.mp h
    have hP := step a List.mem_cons_self s m hs hm
    exact ih h hP fun b hb => step b (List.mem_cons_of_mem _ hb)

/-- The same for a property of the state and of all that was taken in so far. -/
theorem foldlM_append_induction {f : β → α → Except ε β} {P : List α → β → Prop}
    {before l : List α} {s t : β} (h : l.foldlM f s = .ok t) (hs : P before s)
    (step : ∀ seen, ∀ a ∈ l, ∀ m m', P seen m → f m a = .ok m' →
      P (seen ++ [a]) m') : P (before ++ l) t := by
  induction l generalizing s before with
  | nil =>
    rw [← pure_eq_ok.mp h, List.append_nil]
    exact hs
  | cons a rest ih =>
    obtain ⟨m, hm, h⟩ := foldlM_cons_eq_ok.mp h
    have hP := step before a List.mem_cons_self s m hs hm
    have htail :=
      ih h hP fun seen b hb => step seen b (List.mem_cons_of_mem _ hb)
    rwa [List.append_assoc] at htail

/-- A fold that refuses has come to a step that does. -/
theorem foldlM_eq_error {f : β → α → Except ε β} {l : List α} {s : β} {e : ε}
    (h : l.foldlM f s = .error e) :
    ∃ before a after m, l = before ++ a :: after ∧ before.foldlM f s = .ok m ∧
      f m a = .error e := by
  induction l generalizing s with
  | nil => cases h
  | cons a rest ih =>
    rw [List.foldlM_cons, bind_eq_error] at h
    rcases h with h | ⟨m, hm, h⟩
    · exact ⟨[], a, rest, s, rfl, rfl, h⟩
    · obtain ⟨before, b, after, last, rfl, hbefore, hlast⟩ := ih h
      exact ⟨a :: before, b, after, last, rfl,
        foldlM_cons_eq_ok.mpr ⟨m, hm, hbefore⟩, hlast⟩

end CouncilLedger.Outcome
