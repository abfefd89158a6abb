import CouncilLedger.Proofs.Digest
import CouncilLedger.Proofs.Json.Layout
import CouncilLedger.Proofs.SortedMap
import CouncilLedger.Block.Json
import CouncilLedger.Checkpoint

/-!
# Records read back

Every record that is kept on disk is read as what was written: the parts first,
then lists and maps of parts, then each record from its parts. What is written
holds plain values only, so that `Json.readAll` reads its text as well. The main
statements are `Block.ofJson?_toJson` and `Checkpoint.ofJson?_toJson`.
-/

namespace CouncilLedger

namespace Json

/-! ## Scalars -/

@[simp] theorem text?_str (s : String) : text? (str s) = some s := rfl

@[simp] theorem caseName?_str (s : String) : caseName? (str s) = some s := rfl

@[simp] theorem word?_word (n : UInt64) : word? (word n) = some n := by
  have h := n.toNat_lt
  simp [word, word?, h]

@[simp] theorem byte?_nat (n : UInt8) : byte? (nat n.toNat) = some n := by
  have h := n.toNat_lt
  simp [nat, byte?, h]

@[simp] theorem digest?_digest (d : Digest) : digest? (digest d) = some d := by
  simp [digest, digest?, Digest.ofHex_hex, Except.toOption]

/-! ## Lists and maps -/

theorem mapM_map {α β γ : Type} {read : β → Option γ} {write : α → β}
    {value : α → γ} {l : List α} (h : ∀ a, read (write a) = some (value a)) :
    (l.map write).mapM read = some (l.map value) := by
  induction l with
  | nil => rfl
  | cons a rest ih => simp [h, ih]

/-- A list is read back where each of its items is. -/
theorem list?_map {α : Type} {read : Json → Option α} {write : α → Json}
    (h : ∀ a, read (write a) = some a) (l : List α) :
    list? read (arr (l.map write)) = some l := by
  have hread : (l.map write).mapM read = some (l.map id) := mapM_map h
  rw [list?, hread, List.map_id]

/-- A map is read back where each of its values is: its entries are in order. -/
theorem map?_map {α : Type} {read : Json → Option α} {write : α → Json}
    (h : ∀ a, read (write a) = some a) (m : SortedMap String α) :
    map? read (map write m) = some m := by
  have hread : (m.entries.map fun e => (e.1, write e.2)).mapM
      (fun e => (read e.2).map (e.1, ·)) = some (m.entries.map id) :=
    mapM_map fun e => by simp [h]
  rw [map, map?, hread]
  simp [SortedMap.ofList_entries]

/-! ## Records -/

@[simp] theorem record?_obj (names : List String)
    (members : List (String × Json)) :
    record? names (obj members) = members? names (obj members) := rfl

@[simp] theorem members?_obj (names : List String)
    (members : List (String × Json)) : members? names (obj members) =
      if hasRepeat ((members.filter fun m => names.contains m.1).map (·.1)) then
      none
      else some ⟨members.filter fun m => names.contains m.1⟩ := rfl

@[simp] theorem hasRepeat_nil : hasRepeat [] = false := rfl

@[simp] theorem hasRepeat_cons (name : String) (rest : List String) :
    hasRepeat (name :: rest) = (rest.contains name || hasRepeat rest) := rfl

/-- The parts of a record are read one after the other. -/
theorem bind_eq_some {α β : Type} {x : Option α} {f : α → Option β} {b : β} :
    (x >>= f) = some b ↔ ∃ a, x = some a ∧ f a = some b :=
  Option.bind_eq_some_iff

@[simp] theorem lookup_cons_of_ne {name other : String} (h : name ≠ other)
    (v : Json) (rest : List (String × Json)) :
    ((other, v) :: rest).lookup name = rest.lookup name := by
  rw [List.lookup_cons, beq_false_of_ne h]

/-- A record of distinct members that all have one of the names. -/
theorem record?_of_names {names : List String} {members : List (String × Json)}
    (hnames : ∀ m ∈ members, names.contains m.1 = true)
    (hdistinct : hasRepeat (members.map (·.1)) = false) :
    record? names (obj members) = some ⟨members⟩ := by
  rw [record?_obj, members?_obj, List.filter_eq_self.mpr hnames, hdistinct]
  rfl

/-- A part that is given, but may be `null`. -/
def nullable {α : Type} (read : Json → Option α) : Json → Option (Option α)
  | null => some none
  | v => (read v).map some

theorem nullable_of_ne_null {α : Type} {read : Json → Option α} {v : Json}
    {a : α} (hne : v ≠ null) (h : read v = some a) :
    nullable read v = some (some a) := by
  cases v with
  | null => exact absurd rfl hne
  | _ => simp [nullable, h]

@[simp] theorem nullable_word (n : UInt64) :
    nullable word? (word n) = some (some n) :=
  nullable_of_ne_null (by simp [word]) (word?_word n)

@[simp] theorem nullable_digest (d : Digest) :
    nullable digest? (digest d) = some (some d) :=
  nullable_of_ne_null (by simp [digest]) (digest?_digest d)

@[simp] theorem nullable_orNull_digest (d : Option Digest) :
    nullable digest? (orNull digest d) = some d := by
  cases d with
  | none => rfl
  | some d => exact nullable_digest d

namespace Record

variable {α : Type} (parts : List (String × Json)) (name : String)
    (read : Json → Option α)

@[simp] theorem required_mk :
    (⟨parts⟩ : Record).required name read = (parts.lookup name).bind read := rfl

@[simp] theorem withDefault_mk (d : α) :
    (⟨parts⟩ : Record).withDefault name d read =
      (parts.lookup name).elim (some d) read := by
  rw [withDefault, part?]
  cases parts.lookup name <;> rfl

@[simp] theorem optional_mk :
    (⟨parts⟩ : Record).optional name read =
      (parts.lookup name).elim (some none) (nullable read) := by
  rw [optional, part?]
  cases parts.lookup name with
  | none => rfl
  | some v => cases v <;> rfl

end Record
end Json

/-! ## Vocabularies -/

@[simp] theorem ProposalKind.ofName?_name (k : ProposalKind) :
    ofName? k.name = some k := by
  cases k <;> rfl

@[simp] theorem VotingMode.ofName?_name (m : VotingMode) :
    ofName? m.name = some m := by
  cases m <;> rfl

@[simp] theorem Choice.ofName?_name (c : Choice) : ofName? c.name = some c := by
  cases c <;> rfl

@[simp] theorem Status.ofName?_name (s : Status) : ofName? s.name = some s := by
  cases s <;> rfl

@[simp] theorem ActionKind.ofName?_name (k : ActionKind) :
    ofName? k.name = some k := by
  cases k <;> rfl

/-! ## Plain values -/

namespace Json

@[simp] theorem isPlain_str (levels : Nat) (s : String) :
    isPlain levels (str s) = true := by
  simp [isPlain]

@[simp] theorem isPlain_word (levels : Nat) (n : UInt64) :
    isPlain levels (word n) = true := by
  have h := n.toNat_lt
  simp [word, isPlain, UInt64.size]
  omega

@[simp] theorem isPlain_byte (levels : Nat) (n : UInt8) :
    isPlain levels (nat n.toNat) = true := by
  have h := n.toNat_lt
  simp [nat, isPlain, UInt64.size]
  omega

@[simp] theorem isPlain_digest (levels : Nat) (d : Digest) :
    isPlain levels (digest d) = true :=
  isPlain_str levels d.hex

@[simp] theorem isPlain_orNull_digest (levels : Nat) (d : Option Digest) :
    isPlain levels (orNull digest d) = true := by
  cases d with
  | none => simp [orNull, isPlain]
  | some d => exact isPlain_digest levels d

@[simp] theorem isPlain_obj (levels : Nat) (members : List (String × Json)) :
    isPlain (levels + 1) (obj members) = membersPlain levels members := by
  simp [isPlain]

@[simp] theorem membersPlain_nil (levels : Nat) :
    membersPlain levels [] = true := rfl

@[simp] theorem membersPlain_cons (levels : Nat) (m : String × Json)
    (rest : List (String × Json)) :
    membersPlain levels (m :: rest) =
      (isPlain levels m.2 && membersPlain levels rest) := rfl

theorem membersPlain_append (levels : Nat)
    (members more : List (String × Json)) :
    membersPlain levels (members ++ more) =
      (membersPlain levels members && membersPlain levels more) := by
  induction members with
  | nil => simp
  | cons m rest ih => simp [ih, Bool.and_assoc]

theorem isPlain_list {α : Type} {levels : Nat} {write : α → Json}
    (h : ∀ a, isPlain levels (write a) = true) (l : List α) :
    isPlain (levels + 1) (arr (l.map write)) = true := by
  simp [isPlain, itemsPlain_iff, h]

theorem isPlain_map {α : Type} {levels : Nat} {write : α → Json}
    (h : ∀ a, isPlain levels (write a) = true) (m : SortedMap String α) :
    isPlain (levels + 1) (map write m) = true := by
  rw [map, isPlain_obj, membersPlain_iff]
  intro member hmember
  obtain ⟨e, -, rfl⟩ := List.mem_map.mp hmember
  exact h e.2

theorem membersPlain_whenSome {α : Type} {levels : Nat} {write : α → Json}
    (h : ∀ a, isPlain levels (write a) = true) (name : String)
    (part : Option α) :
    membersPlain levels (whenSome name write part) = true := by
  cases part with
  | none => rfl
  | some a => simp [whenSome, h]

end Json

/-! ## Proposals -/

@[simp] theorem Funding.ofJson?_toJson (f : Funding) :
    ofJson? f.toJson = some f := by
  simp [ofJson?, toJson]

@[simp] theorem Funding.nullable_toJson (f : Funding) :
    Json.nullable ofJson? f.toJson = some (some f) :=
  Json.nullable_of_ne_null (by simp [toJson]) f.ofJson?_toJson

theorem Funding.isPlain_toJson (levels : Nat) (f : Funding) :
    Json.isPlain (levels + 1) f.toJson = true := by
  simp [toJson]

theorem Draft.membersPlain_toMembers (levels : Nat) (d : Draft) :
    Json.membersPlain (levels + 1) d.toMembers = true := by
  have hfunding := Json.membersPlain_whenSome
    (Funding.isPlain_toJson levels) "funding" d.funding
  simp [toMembers, hfunding]

namespace Vote

theorem ofJson?_toJson (v : Vote) : ofJson? v.toJson = some v := by
  obtain ⟨voter, choice, weight, timestamp, transaction, delegators⟩ := v
  have hlist := Json.list?_map Json.text?_str delegators
  cases delegators <;> simp_all [ofJson?, toJson]

theorem isPlain_toJson (levels : Nat) (v : Vote) :
    Json.isPlain (levels + 2) v.toJson = true := by
  have hlist := Json.isPlain_list (Json.isPlain_str levels) v.delegators
  by_cases h : v.delegators.isEmpty = true <;> simp [toJson, h, hlist]

end Vote

namespace Proposal

theorem ofJson?_toJson (p : Proposal) : ofJson? p.toJson = some p := by
  have hvotes := Json.map?_map Vote.ofJson?_toJson p.votes
  cases p with
  | mk _ _ _ _ _ _ _ _ _ _ _ _ funding votes fundedBy =>
    -- the two optional parts decide which members there are
    cases funding <;> cases fundedBy
    all_goals
      rw [ofJson?, toJson, Json.record?_of_names (by simp [Json.whenSome])
        (by simp [Json.whenSome])]
      -- from the outside: inside out, every part would be read again for each
      -- part around it
      simp [↓Json.bind_eq_some, Json.whenSome, hvotes]

theorem isPlain_toJson (levels : Nat) (p : Proposal) :
    Json.isPlain (levels + 4) p.toJson = true := by
  have hvotes := Json.isPlain_map (Vote.isPlain_toJson levels) p.votes
  have hfunding :=
    Json.membersPlain_whenSome (Funding.isPlain_toJson (levels + 2))
      "funding" p.funding
  have hfunded :=
    Json.membersPlain_whenSome (Json.isPlain_digest (levels + 3))
      "funded_by" p.fundedBy
  simp [toJson, Json.membersPlain_append, hvotes, hfunding, hfunded]

end Proposal

/-! ## Transactions -/

namespace Action

/-- No part of an action has the name of a part of the transaction, or of the
kind. -/
theorem name_notMem_of_mem_toMembers (a : Action) :
    ∀ m ∈ a.toMembers, m.1 ∉ "kind" :: Transaction.partNames := by
  cases a with
  | propose d =>
    obtain ⟨_, _, _, _, _, _, funding⟩ := d
    cases funding <;>
      simp [toMembers, Draft.toMembers, Json.whenSome, Transaction.partNames]
  | _ => simp [toMembers, Transaction.partNames]

theorem membersPlain_toMembers (levels : Nat) (a : Action) :
    Json.membersPlain (levels + 1) a.toMembers = true := by
  cases a with
  | propose d => exact d.membersPlain_toMembers levels
  | _ => simp [toMembers]

/-- The parts of an action are read by its kind, whatever other members there
are. -/
theorem ofParts?_toMembers (a : Action) :
    ofParts? a.kind (.obj (("kind", .str a.kind.name) :: a.toMembers)) =
      some a := by
  cases a with
  | propose d =>
    obtain ⟨_, _, _, _, _, _, funding⟩ := d
    cases funding <;>
      simp [ofParts?, kind, partNames, ofRecord?, toMembers, Draft.toMembers,
        Draft.partNames, Draft.ofRecord?, Json.whenSome, caseName?]
  | _ => simp [ofParts?, kind, partNames, ofRecord?, toMembers, caseName?]

end Action

namespace Transaction

/-- The members of a transaction beside its own parts. -/
def actionMembers (a : Action) : List (String × Json) :=
  ("kind", .str a.kind.name) :: a.toMembers

theorem membersPlain_actionMembers (levels : Nat) (a : Action) :
    Json.membersPlain (levels + 1) (actionMembers a) = true := by
  simp [actionMembers, a.membersPlain_toMembers levels]

theorem actionOfMembers?_actionMembers (a : Action) :
    actionOfMembers? (actionMembers a) = some a := by
  have hdenote : (actionMembers a).all (·.2.denotes) = true := by
    rw [List.all_eq_true]
    intro m hm
    exact Json.denotes_of_isPlain
      (Json.membersPlain_iff.mp (membersPlain_actionMembers 0 a) m hm)
  have hkind : (actionMembers a).filter (fun m => ["kind"].contains m.1) =
      [("kind", .str a.kind.name)] := by
    have hnone : a.toMembers.filter (fun m => ["kind"].contains m.1) = [] := by
      rw [List.filter_eq_nil_iff]
      intro m hm
      have hname := a.name_notMem_of_mem_toMembers m hm
      simp only [List.mem_cons, not_or] at hname
      simp [hname.1]
    rw [actionMembers, List.filter_cons_of_pos (by simp), hnone]
  have hparts : Action.ofParts? a.kind (.obj (actionMembers a)) = some a :=
    a.ofParts?_toMembers
  rw [actionOfMembers?, hdenote, Json.members?_obj, hkind]
  simp [kindOfJson?, hparts]

/-- What is no part of the transaction is left for its action. -/
theorem ofJson?_toJson (t : Transaction) : ofJson? t.toJson = some t := by
  have hnames : ∀ m ∈ actionMembers t.action, m.1 ∉ partNames := by
    intro m hm
    rcases List.mem_cons.mp hm with rfl | hm
    · simp [partNames]
    · exact fun h => t.action.name_notMem_of_mem_toMembers m hm
        (List.mem_cons_of_mem _ h)
  have hown : (actionMembers t.action).filter (fun m =>
      partNames.contains m.1) = [] := by
    simpa using hnames
  have hrest : (actionMembers t.action).filter (fun m =>
      !partNames.contains m.1) = actionMembers t.action := by
    simpa using hnames
  have haction := actionOfMembers?_actionMembers t.action
  have hjson :
      t.toJson =
        .obj ([("hash", .digest t.hash), ("block_hash", .digest t.blockHash),
               ("from", .str t.sender), ("nonce", .word t.nonce),
               ("timestamp", .word t.timestamp)] ++
          actionMembers t.action) := rfl
  rw [hjson, ofJson?]
  simp only [Json.members?_obj, List.filter_append, hown, hrest]
  simp [partNames, haction]

theorem isPlain_toJson (levels : Nat) (t : Transaction) :
    Json.isPlain (levels + 2) t.toJson = true := by
  simp [toJson, t.action.membersPlain_toMembers levels]

end Transaction

/-! ## Blocks -/

namespace Block

theorem ofJson?_toJson (b : Block) : ofJson? b.toJson = some b := by
  have hlist := Json.list?_map Transaction.ofJson?_toJson b.transactions
  simp [ofJson?, toJson, hlist]

theorem isPlain_toJson (levels : Nat) (b : Block) :
    Json.isPlain (levels + 4) b.toJson = true := by
  have hlist :=
    Json.isPlain_list (Transaction.isPlain_toJson levels) b.transactions
  simp [toJson, hlist]

end Block

/-! ## Checkpoints -/

theorem Rules.ofJson?_toJson (r : Rules) : ofJson? r.toJson = some r := by
  simp [ofJson?, toJson]

theorem Delegation.ofJson?_toJson (d : Delegation) :
    ofJson? d.toJson = some d := by
  obtain ⟨_, _, _, _, revokedAt, _⟩ := d
  cases revokedAt <;> simp [ofJson?, toJson, toMembers, Json.whenSome]

theorem Delegation.isPlain_toJson (levels : Nat) (d : Delegation) :
    Json.isPlain (levels + 1) d.toJson = true := by
  have hrevoked := Json.membersPlain_whenSome
    (Json.isPlain_word levels) "revoked_at" d.revokedAt
  simp [toJson, toMembers, Json.membersPlain_append, hrevoked]

namespace Council

theorem ofJson?_toJson (c : Council) : ofJson? c.toJson = some c := by
  have hproposals := Json.list?_map Proposal.ofJson?_toJson c.proposals
  have hdelegations := Json.map?_map Delegation.ofJson?_toJson c.delegations
  simp [ofJson?, toJson, Rules.ofJson?_toJson, hproposals, hdelegations]

theorem isPlain_toJson (levels : Nat) (c : Council) :
    Json.isPlain (levels + 6) c.toJson = true := by
  have hproposals :=
    Json.isPlain_list (Proposal.isPlain_toJson levels) c.proposals
  have hdelegations :=
    Json.isPlain_map (Delegation.isPlain_toJson (levels + 3)) c.delegations
  simp [toJson, Rules.toJson, hproposals, hdelegations]

end Council

theorem Accounts.ofJson?_toJson (a : Accounts) : ofJson? a.toJson = some a := by
  have hbalances := Json.map?_map Json.word?_word a.balances
  have hnonces := Json.map?_map Json.word?_word a.nonces
  simp [ofJson?, toJson, hbalances, hnonces]

theorem Accounts.isPlain_toJson (levels : Nat) (a : Accounts) :
    Json.isPlain (levels + 2) a.toJson = true := by
  have hbalances := Json.isPlain_map (Json.isPlain_word levels) a.balances
  have hnonces := Json.isPlain_map (Json.isPlain_word levels) a.nonces
  simp [toJson, hbalances, hnonces]

namespace Checkpoint

theorem ofJson?_toJson (c : Checkpoint) : ofJson? c.toJson = some c := by
  simp [ofJson?, toJson, Accounts.ofJson?_toJson, Council.ofJson?_toJson]

theorem isPlain_toJson (levels : Nat) (c : Checkpoint) :
    Json.isPlain (levels + 7) c.toJson = true := by
  have haccounts := c.accounts.isPlain_toJson (levels + 4)
  have hcouncil := c.council.isPlain_toJson levels
  simp [toJson, haccounts, hcouncil]

end Checkpoint
end CouncilLedger
