import CouncilLedger.Config.File
import CouncilLedger.Proofs.FirstBlock
import CouncilLedger.Proofs.Identifiers
import CouncilLedger.Proofs.Toml.Documents

/-!
# The text of a configuration read back

A configuration that passes its check and has no number from 2^63 on is written
as a document of TOML, since an address needs no escapes, and this document is
read back as the same sections, with an empty list of allocations in front. Each
section is taken for what it was, but for one part: an absent default sender is
left out of the text, and a text without it stands for the one of the defaults.
So a configuration that names its default sender is read back from its text, and
no other is. The main statements are `Config.text_reads_back` and
`Config.text_forgets_absent_sender`.
-/

namespace CouncilLedger

open Outcome

/-! ## Numbers and addresses -/

namespace Toml

theorem ofWord?_of_lt {n : UInt64} (h : n.toNat < 2 ^ 63) :
    ofWord? n = some (int n.toNat) :=
  if_pos h

@[simp] theorem word?_toNat (n : UInt64) : word? (int n.toNat) = some n := by
  have h := n.toNat_lt
  simp [word?, h]

@[simp] theorem byte?_toNat (n : UInt8) : byte? (int n.toNat) = some n := by
  have h := n.toNat_lt
  simp [byte?, h]

section Parts

variable {α : Type} {name key : String} {v : Toml} {ms : List (String × Toml)}
  (read : Toml → Option α)

@[simp] theorem required_cons_self :
    required ((name, v) :: ms) name read = read v := by
  rw [required, List.lookup_cons_self]
  rfl

@[simp] theorem required_cons_of_ne (h : name ≠ key) :
    required ((key, v) :: ms) name read = required ms name read := by
  rw [required, List.lookup_cons, beq_false_of_ne h]
  rfl

@[simp] theorem withDefault_nil (d : α) : withDefault [] name d read = some d :=
  rfl

@[simp] theorem withDefault_cons_self (d : α) :
    withDefault ((name, v) :: ms) name d read = read v := by
  rw [withDefault, List.lookup_cons_self]

@[simp] theorem withDefault_cons_of_ne (h : name ≠ key) (d : α) :
    withDefault ((key, v) :: ms) name d read = withDefault ms name d read := by
  rw [withDefault, withDefault, List.lookup_cons, beq_false_of_ne h]

end Parts

/-- Items that are all read are read as a list. -/
theorem mapM_eq_some_map {α β : Type} {f : α → Option β} {g : α → β} {l : List α}
    (h : ∀ a ∈ l, f a = some (g a)) : l.mapM f = some (l.map g) := by
  induction l with
  | nil => rfl
  | cons a l ih =>
    rw [List.forall_mem_cons] at h
    simp [h.1, ih h.2]

end Toml

/-- The characters of an address are bare. -/
theorem Address.isBare_of_check {a : String} (h : check a = .ok ()) :
    ∀ c ∈ a.toList, Toml.isBare c = true := by
  have hcode : ∀ n < 256, isCode (UInt8.ofNat n) = true →
      n < 128 ∧ Toml.isBare (Char.ofNat n) = true := by
    decide +kernel
  have hcodes : (Text.encode a.toList).all isCode = true := by
    unfold check at h
    split at h
    · cases h
    · split at h
      · next hall => exact hall
      · cases h
  have hbytes : ∀ b ∈ Text.encode a.toList,
      b.toNat < 128 ∧ Toml.isBare (Char.ofNat b.toNat) = true := by
    intro b hb
    have hspec := hcode b.toNat b.toNat_lt
    rw [UInt8.ofNat_toNat] at hspec
    exact hspec (List.all_eq_true.mp hcodes b hb)
  intro c hc
  rw [← Text.map_encode_of_lt fun b hb => (hbytes b hb).1] at hc
  obtain ⟨b, hb, rfl⟩ := List.mem_map.mp hc
  exact (hbytes b hb).2

/-- An address needs no escapes. -/
theorem Address.isInline_of_check {a : String} (h : check a = .ok ()) :
    Toml.IsInline (.str a) :=
  Toml.isInline_str fun c hc => (Toml.isBare_spec (isBare_of_check h c hc)).2.2

/-! ## Sections -/

namespace Allocation

/-- The members of an allocation. -/
def members (a : Allocation) : List (String × Toml) :=
  [("address", .str a.address), ("amount", .int a.amount.toNat)]

variable {a : Allocation}

theorem toToml?_eq (h : a.amount.toNat < 2 ^ 63) :
    a.toToml? = some (.table a.members) := by
  rw [toToml?, Toml.ofWord?_of_lt h]
  rfl

theorem ofToml?_members (a : Allocation) :
    ofToml? (.table a.members) = some a := by
  simp [ofToml?, members, Toml.section?, Toml.text?]

theorem isSection_members (h : a.amount.toNat < 2 ^ 63)
    (haddress : Address.check a.address = .ok ()) : Toml.IsSection a.members :=
  .cons (by decide) (by simp) (Address.isInline_of_check haddress) <|
    .cons (by decide) (by simp) (Toml.isInline_int h) Toml.isSection_nil

end Allocation

namespace ChainSettings

/-- The members of the settings of a chain. -/
def members (s : ChainSettings) : List (String × Toml) :=
  [("genesis_timestamp", .int s.genesisTimestamp.toNat),
    ("checkpoint_interval", .int s.checkpointInterval.toNat)] ++
    s.defaultSender.toList.map fun name => ("default_sender", .str name)

variable {s : ChainSettings}

theorem toToml?_eq (htimestamp : s.genesisTimestamp.toNat < 2 ^ 63)
    (hinterval : s.checkpointInterval.toNat < 2 ^ 63) :
    s.toToml? = some (.table s.members) := by
  rw [toToml?, Toml.ofWord?_of_lt htimestamp,
    Toml.ofWord?_of_lt hinterval, members]
  cases s.defaultSender <;> rfl

/-- The settings with a default sender, which is that of the defaults if there
was none. -/
def withSender (s : ChainSettings) : ChainSettings :=
  { s with defaultSender := some (s.defaultSender.getD "faucet") }

theorem ofToml?_members (s : ChainSettings) :
    ofToml? (.table s.members) = some s.withSender := by
  obtain ⟨timestamp, interval, sender⟩ := s
  cases sender <;> simp [ofToml?, members, withSender, Toml.section?, Toml.text?]

theorem isSection_members (htimestamp : s.genesisTimestamp.toNat < 2 ^ 63)
    (hinterval : s.checkpointInterval.toNat < 2 ^ 63)
    (hsender : ∀ a ∈ s.defaultSender, Address.check a = .ok ()) :
    Toml.IsSection s.members := by
  obtain ⟨timestamp, interval, sender⟩ := s
  cases sender with
  | none =>
    exact .cons (by decide) (by simp) (Toml.isInline_int htimestamp) <|
      .cons (by decide) (by simp)
        (Toml.isInline_int hinterval) Toml.isSection_nil
  | some name =>
    exact .cons (by decide) (by simp) (Toml.isInline_int htimestamp) <|
      .cons (by decide) (by simp) (Toml.isInline_int hinterval) <|
        .cons (by decide) (by simp)
          (Address.isInline_of_check (hsender name rfl))
          Toml.isSection_nil

end ChainSettings

namespace Rules

/-- The members of rules. -/
def members (r : Rules) : List (String × Toml) :=
  [("min_proposal_balance", .int r.minProposalBalance.toNat),
    ("max_duration_secs", .int r.maxDuration.toNat),
    ("quorum_percent", .int r.quorumPercent.toNat)]

variable {r : Rules}

theorem toToml?_eq (hbalance : r.minProposalBalance.toNat < 2 ^ 63)
    (hduration : r.maxDuration.toNat < 2 ^ 63) :
    r.toToml? = some (.table r.members) := by
  rw [toToml?, Toml.ofWord?_of_lt hbalance, Toml.ofWord?_of_lt hduration]
  rfl

theorem ofToml?_members (r : Rules) : ofToml? (.table r.members) = some r := by
  simp [ofToml?, members, Toml.section?]

theorem isSection_members (hbalance : r.minProposalBalance.toNat < 2 ^ 63)
    (hduration : r.maxDuration.toNat < 2 ^ 63) : Toml.IsSection r.members :=
  .cons (by decide) (by simp) (Toml.isInline_int hbalance) <|
    .cons (by decide) (by simp) (Toml.isInline_int hduration) <|
      .cons (by decide) (by simp)
        (Toml.isInline_int (Nat.lt_trans r.quorumPercent.toNat_lt (by decide)))
          Toml.isSection_nil

end Rules

namespace Config

/-- The members of a configuration. -/
def members (c : Config) : List (String × Toml) :=
  [("chain", .table c.chain.members), ("governance", .table c.rules.members),
    ("treasury", .table [("initial_balance", .int c.treasury.toNat)]),
    ("allocations", .arr (c.allocations.map fun a => .table a.members))]

/-- TOML has numbers for all words of a configuration. -/
structure FitsToml (c : Config) : Prop where
  timestamp : c.chain.genesisTimestamp.toNat < 2 ^ 63
  interval : c.chain.checkpointInterval.toNat < 2 ^ 63
  balance : c.rules.minProposalBalance.toNat < 2 ^ 63
  duration : c.rules.maxDuration.toNat < 2 ^ 63
  treasury : c.treasury.toNat < 2 ^ 63
  allocations : ∀ a ∈ c.allocations, a.amount.toNat < 2 ^ 63

variable {c : Config}

theorem toToml?_eq (h : c.FitsToml) : c.toToml? = some c.members := by
  have hallocations : c.allocations.mapM Allocation.toToml? =
      some (c.allocations.map fun a => .table a.members) :=
    Toml.mapM_eq_some_map fun a ha => Allocation.toToml?_eq (h.allocations a ha)
  rw [toToml?, ChainSettings.toToml?_eq h.timestamp h.interval, Rules.toToml?_eq
    h.balance h.duration, Toml.ofWord?_of_lt h.treasury, hallocations]
  rfl

/-- A configuration is read by the names of its sections. -/
theorem ofToml?_congr {ms ns : List (String × Toml)}
    (h : ∀ key, ms.lookup key = ns.lookup key) : ofToml? ms = ofToml? ns := by
  simp only [ofToml?, Toml.withDefault, h]

/-- The configuration with a default sender, which is that of the defaults if
there was none. -/
def withSender (c : Config) : Config := { c with chain := c.chain.withSender }

theorem ofToml?_members (c : Config) :
    ofToml? c.members = some c.withSender := by
  have hallocations :
      Toml.list? Allocation.ofToml?
          (.arr (c.allocations.map fun a => .table a.members)) =
        some c.allocations := by
    have hread : c.allocations.mapM (Allocation.ofToml? ∘ fun a =>
        .table a.members) = some (c.allocations.map fun a => a) :=
      Toml.mapM_eq_some_map fun a _ => Allocation.ofToml?_members a
    rw [Toml.list?, List.mapM_map, hread, List.map_id']
  simp [ofToml?, members, ChainSettings.ofToml?_members, Rules.ofToml?_members,
    treasuryOfToml?, Toml.section?, hallocations, withSender]

theorem checkSender_eq_ok {sender : Option String} :
    checkSender sender = .ok () ↔ ∀ a ∈ sender, Address.check a = .ok () := by
  cases sender with
  | none => exact iff_of_true rfl nofun
  | some a =>
    cases hcheck : Address.check a <;> simp [checkSender,
      Except.mapError, hcheck]

theorem isDocument_members (hvalid : c.check = .ok ()) (hfits : c.FitsToml) :
    Toml.IsDocument c.members := by
  obtain ⟨-, -, hsender, total, hfold⟩ := check_eq_ok.mp hvalid
  obtain ⟨-, hallocations⟩ := foldlM_addAllocation_ok hfold
  refine ⟨?bare, ?distinct, ?inline, ?sections⟩
  case bare =>
    simp only [members, List.forall_mem_cons]
    decide
  case distinct =>
    simp only [members, List.map_cons, List.map_nil]
    decide
  case inline =>
    simp only [members, List.forall_mem_cons]
    refine ⟨nofun, nofun, nofun, fun hnone => ?_, nofun⟩
    -- only the empty list of allocations stands on a line of its own
    cases hempty : c.allocations with
    | nil => exact Toml.isInline_nil
    | cons a rest =>
      have htables :
          ((a :: rest).map fun a => Toml.table a.members).mapM Toml.members? =
            some ((a :: rest).map Allocation.members) := by
        rw [List.mapM_map]
        exact Toml.mapM_eq_some_map fun _ _ => rfl
      rw [hempty] at hnone
      rw [List.map_cons] at hnone htables
      simp only [Toml.blocks?, htables] at hnone
      cases hnone
  case sections =>
    simp only [members, List.forall_mem_cons]
    refine ⟨fun _ => ?_, fun _ => ?_, fun _ => ?_, fun _ => ?_, nofun⟩
    · exact List.forall_mem_singleton.mpr (ChainSettings.isSection_members
        hfits.timestamp hfits.interval (checkSender_eq_ok.mp hsender))
    · exact List.forall_mem_singleton.mpr
        (Rules.isSection_members hfits.balance hfits.duration)
    · exact List.forall_mem_singleton.mpr (.cons (by decide) (by simp)
        (Toml.isInline_int hfits.treasury) Toml.isSection_nil)
    · intro t ht
      rw [Toml.sections, List.filterMap_map] at ht
      obtain ⟨a, ha, hmembers⟩ := List.mem_filterMap.mp ht
      cases hmembers
      exact Allocation.isSection_members (hfits.allocations a ha)
        (hallocations a ha).1

/-! ## The text -/

theorem check_withSender (h : c.check = .ok ()) :
    c.withSender.check = .ok () := by
  obtain ⟨hquorum, hduration, hsender, hfold⟩ := check_eq_ok.mp h
  refine check_eq_ok.mpr ⟨hquorum, hduration, ?_, hfold⟩
  rw [checkSender_eq_ok] at hsender ⊢
  rintro _ ⟨⟩
  cases hnone : c.chain.defaultSender with
  | none => decide
  | some a => exact hsender a hnone

/-- A valid configuration is written, and its text stands for it with a default
sender. -/
theorem exists_ofText (hvalid : c.check = .ok ()) (hfits : c.FitsToml) :
    ∃ text, c.text? = some text ∧ ofText text = .ok c.withSender := by
  have hdocument := isDocument_members hvalid hfits
  refine ⟨String.ofList (Toml.render c.members),
    by rw [text?, toToml?_eq hfits]; rfl, ?_⟩
  have hread :
      (Toml.read (Toml.render c.members) >>= ofToml?) = some c.withSender := by
    rw [Toml.read_render hdocument, Option.bind_eq_bind, Option.bind_some,
      ofToml?_congr (Toml.lookup_lineMembersFirst hdocument), ofToml?_members]
  rw [ofText, String.toList_ofList, hread]
  simp only [check_withSender hvalid]

theorem withSender_eq_self_iff :
    c.withSender = c ↔ c.chain.defaultSender.isSome = true := by
  obtain ⟨⟨timestamp, interval, sender⟩, rules, treasury, allocations⟩ := c
  cases sender <;> simp [withSender, ChainSettings.withSender]

/-- **A valid configuration is read back from its text** exactly when it names a
default sender. Without one its text stands for the configuration that has the
default sender of the defaults, and is the same otherwise. -/
theorem text_reads_back (hvalid : c.check = .ok ()) (hfits : c.FitsToml) :
    ∃ text, c.text? = some text ∧ ofText text = .ok c.withSender ∧
      (ofText text = .ok c ↔ c.chain.defaultSender.isSome = true) := by
  obtain ⟨text, htext, hread⟩ := exists_ofText hvalid hfits
  refine ⟨text, htext, hread, ?_⟩
  rw [hread, Except.ok.injEq, withSender_eq_self_iff]

/-- A configuration with a default sender and without allocations. -/
def unallocated : Config :=
  { chain := { defaultSender := some "ada" }, allocations := [] }

/-- The empty list of allocations is not taken for that of the defaults. -/
theorem text_reads_back_unallocated : ∃ text, unallocated.text? = some text ∧
    ofText text = .ok unallocated := by
  have hfits : unallocated.FitsToml :=
    ⟨by decide, by decide, by decide, by decide, by decide, nofun⟩
  obtain ⟨text, htext, -, hread⟩ :=
    text_reads_back (c := unallocated) (by decide) hfits
  exact ⟨text, htext, hread.mpr rfl⟩

/-- A configuration without a default sender. -/
def senderless : Config :=
  { chain := { defaultSender := none }, treasury := 0
    allocations := [⟨"ada", 5⟩] }

/-- The text of a valid configuration without a default sender stands for
another one, in which a request without a sender is sent by an account that this
configuration does not name. -/
theorem text_forgets_absent_sender :
    senderless.check = .ok () ∧ senderless.FitsToml ∧
    ∃ text, senderless.text? = some text ∧ ofText text ≠ .ok senderless ∧
      ofText text = .ok { senderless with
        chain := { defaultSender := some "faucet" } } := by
  have hvalid : senderless.check = .ok () := by decide
  have hfits : senderless.FitsToml :=
    ⟨by decide, by decide, by decide, by decide, by decide, by decide⟩
  obtain ⟨text, htext, hread⟩ := exists_ofText hvalid hfits
  refine ⟨hvalid, hfits, text, htext, ?_, hread⟩
  rw [hread]
  decide

end Config
end CouncilLedger
