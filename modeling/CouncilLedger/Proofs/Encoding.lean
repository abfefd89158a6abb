import CouncilLedger.Proofs.Names
import CouncilLedger.Proofs.Run

/-!
# Encodings that tell what they encode

Every part of an encoding shows where it ends: words and digests have a fixed
length, a text follows its length, and an optional part follows a mark. The name
of a kind stands without its length, but its first bytes tell it from the
others. So equal bytes are those of equal transactions, lists of transactions
and headers, and as long as SHA-256 does not collide, a hash stands for one
block with all of its transactions. The main statement is
`Block.hash_binds_contents`.
-/

namespace CouncilLedger

/-! ## Words and texts -/

theorem Text.encode_injective {cs ds : List Char} (h : encode cs = encode ds) :
    cs = ds := by
  have hread := congrArg decode? h
  rw [decode?_encode, decode?_encode] at hread
  exact Option.some.inj hread

namespace Encoding

variable {x y : List UInt8}

theorem word_append_inj {m n : UInt64} (h : word m ++ x = word n ++ y) :
    m = n ∧ x = y := by
  obtain ⟨hword, hrest⟩ := List.append_inj h rfl
  exact ⟨word_injective hword, hrest⟩

theorem length_plain (s : String) : (plain s).length = s.utf8ByteSize := by
  have hbytes := congrArg ByteArray.size (String.utf8Encode_toList (b := s))
  have hlist : s.toList.utf8Encode = (plain s).toByteArray := rfl
  rwa [hlist, List.size_toByteArray, String.size_toByteArray] at hbytes

theorem plain_injective {s t : String} (h : plain s = plain t) : s = t :=
  String.toList_injective (Text.encode_injective h)

/-- The length of a text is a word, as is that of every text in memory. -/
def LengthFits (s : String) : Prop := s.utf8ByteSize < UInt64.size

instance (s : String) : Decidable (LengthFits s) :=
  inferInstanceAs (Decidable (_ < _))

/-- A text shows where it ends. -/
theorem text_append_inj {s t : String} (hs : LengthFits s) (ht : LengthFits t)
    (h : text s ++ x = text t ++ y) : s = t ∧ x = y := by
  rw [text, text, List.append_assoc, List.append_assoc] at h
  obtain ⟨hlength, h⟩ := word_append_inj h
  have hsize : s.utf8ByteSize = t.utf8ByteSize := by
    have htoNat := congrArg UInt64.toNat hlength
    rwa [UInt64.toNat_ofNat_of_lt' hs, UInt64.toNat_ofNat_of_lt' ht] at htoNat
  obtain ⟨hplain, hrest⟩ :=
    List.append_inj h (by rw [length_plain, length_plain, hsize])
  exact ⟨plain_injective hplain, hrest⟩

/-- Names that read back are told apart. -/
theorem text_name_append_inj {α : Type} {name : α → String}
    {ofName? : String → Option α} (hfits : ∀ a, LengthFits (name a))
    (hread : ∀ a, ofName? (name a) = some a) {a b : α}
    (h : text (name a) ++ x = text (name b) ++ y) : a = b ∧ x = y := by
  obtain ⟨hname, hrest⟩ := text_append_inj (hfits a) (hfits b) h
  refine ⟨?_, hrest⟩
  rw [← Option.some_inj, ← hread a, hname, hread b]

end Encoding

open Encoding

theorem ProposalKind.lengthFits_name (k : ProposalKind) :
    LengthFits k.name := by cases k <;> decide

theorem VotingMode.lengthFits_name (m : VotingMode) :
    LengthFits m.name := by cases m <;> decide

theorem Choice.lengthFits_name (c : Choice) :
    LengthFits c.name := by cases c <;> decide

/-! ## Actions -/

namespace Action

/-- The texts of any length in an action. -/
def texts : Action → List String
  | mint recipient _ => [recipient]
  | transfer recipient _ => [recipient]
  | propose d => d.title :: d.description :: (d.funding.map (·.recipient)).toList
  | vote proposal _ => [proposal]
  | payOut proposal recipient _ => [proposal, recipient]
  | delegate holder _ => [holder]
  | revoke => []

/-- The first bytes of an action tell its kind. -/
theorem kind_of_bytes {a b : Action} (h : a.bytes = b.bytes) :
    a.kind = b.kind := by
  have hlength : ∀ k : ActionKind, 3 ≤ (plain k.name).length := by
    intro k; cases k <;> decide
  have hstart : ∀ c : Action, c.bytes.take 3 = (plain c.kind.name).take 3 :=
    fun c =>
    List.take_append_of_le_length (hlength c.kind)
  have htold :
      ∀ j k : ActionKind, (plain j.name).take 3 = (plain k.name).take 3 →
        j = k := by
    intro j k
    cases j <;> cases k <;> decide
  exact htold _ _ (by rw [← hstart, ← hstart, h])

theorem fundingBytes_inj {f g : Option Funding}
    (hf : ∀ s ∈ f.map (·.recipient), LengthFits s)
    (hg : ∀ s ∈ g.map (·.recipient), LengthFits s)
    (h : fundingBytes f = fundingBytes g) : f = g := by
  cases f with
  | none => cases g with
    | none => rfl
    | some g => cases h
  | some f => cases g with
    | none => cases h
    | some g =>
      obtain ⟨hrecipient, hamount⟩ :=
        text_append_inj (hf _ rfl) (hg _ rfl) (List.cons.inj h).2
      cases f
      cases g
      cases hrecipient
      cases word_injective hamount
      rfl

theorem draftBytes_inj {d e : Draft}
    (hd : ∀ s ∈ (propose d).texts, LengthFits s)
    (he : ∀ s ∈ (propose e).texts, LengthFits s)
    (h : draftBytes d = draftBytes e) : d = e := by
  simp only [texts, List.forall_mem_cons, Option.mem_toList] at hd he
  obtain ⟨hdtitle, hddescription, hdfunding⟩ := hd
  obtain ⟨hetitle, hedescription, hefunding⟩ := he
  simp only [draftBytes, List.append_assoc] at h
  obtain ⟨htitle, h⟩ := text_append_inj hdtitle hetitle h
  obtain ⟨hdescription, h⟩ := text_append_inj hddescription hedescription h
  obtain ⟨hkind, h⟩ := text_name_append_inj ProposalKind.lengthFits_name
    ProposalKind.ofName?_name h
  obtain ⟨hmode, h⟩ :=
    text_name_append_inj VotingMode.lengthFits_name VotingMode.ofName?_name h
  obtain ⟨hduration, h⟩ := word_append_inj h
  obtain ⟨hthreshold, h⟩ := word_append_inj h
  have hfunding := fundingBytes_inj hdfunding hefunding h
  cases d
  cases e
  simp_all

/-- Of two actions of one kind the parts are told apart. -/
theorem partBytes_inj :
    ∀ {a b : Action}, a.kind = b.kind → (∀ s ∈ a.texts, LengthFits s) →
    (∀ s ∈ b.texts, LengthFits s) → a.partBytes = b.partBytes → a = b
  | mint .., mint .., _, ha, hb, h | transfer .., transfer .., _, ha, hb, h
  | delegate .., delegate .., _, ha, hb, h => by
    obtain ⟨htext, hword⟩ :=
      text_append_inj (ha _ (by simp [texts])) (hb _ (by simp [texts])) h
    rw [htext, word_injective hword]
  | propose _, propose _, _, ha, hb, h =>
    congrArg propose (draftBytes_inj ha hb h)
  | vote _ c, vote _ e, _, ha, hb, h => by
    obtain ⟨hproposal, hname⟩ :=
      text_append_inj (ha _ (by simp [texts])) (hb _ (by simp [texts])) h
    have hrest : text c.name ++ [] = text e.name ++ [] :=
      congrArg (· ++ []) hname
    obtain ⟨hchoice, -⟩ :=
      text_name_append_inj Choice.lengthFits_name Choice.ofName?_name hrest
    rw [hproposal, hchoice]
  | payOut .., payOut .., _, ha, hb, h => by
    simp only [partBytes, List.append_assoc] at h
    obtain ⟨hproposal, h⟩ :=
      text_append_inj (ha _ (by simp [texts])) (hb _ (by simp [texts])) h
    obtain ⟨hrecipient, h⟩ :=
      text_append_inj (ha _ (by simp [texts])) (hb _ (by simp [texts])) h
    rw [hproposal, hrecipient, word_injective h]
  | revoke, revoke, _, _, _, _ => rfl

/-- **Actions are told apart by their bytes.** -/
theorem bytes_inj {a b : Action} (ha : ∀ s ∈ a.texts, LengthFits s)
    (hb : ∀ s ∈ b.texts, LengthFits s) (h : a.bytes = b.bytes) : a = b := by
  have hkind := kind_of_bytes h
  rw [bytes, bytes, hkind] at h
  exact partBytes_inj hkind ha hb (List.append_cancel_left h)

end Action

/-! ## Transactions -/

namespace Transaction

/-- All texts of any length in a transaction fit. -/
def Fits (t : Transaction) : Prop :=
  ∀ s ∈ t.sender :: t.action.texts, Encoding.LengthFits s

/-- All that the name of a transaction commits to. -/
def contents (t : Transaction) : String × UInt64 × UInt64 × Action :=
  (t.sender, t.nonce, t.timestamp, t.action)

variable {t u : Transaction}

/-- The bytes of a transaction tell its sender and its nonce, before all others
of its parts. -/
theorem sender_nonce_of_bytes (ht : LengthFits t.sender)
    (hu : LengthFits u.sender) (h : t.bytes = u.bytes) :
    t.sender = u.sender ∧ t.nonce = u.nonce ∧
      word t.timestamp ++ t.action.bytes =
        word u.timestamp ++ u.action.bytes := by
  simp only [bytes, bytesOf, List.append_assoc] at h
  obtain ⟨hsender, h⟩ := text_append_inj ht hu (List.append_cancel_left h)
  obtain ⟨hnonce, h⟩ := word_append_inj h
  exact ⟨hsender, hnonce, h⟩

/-- **Transactions are told apart by their bytes.** -/
theorem contents_of_bytes (ht : t.Fits) (hu : u.Fits) (h : t.bytes = u.bytes) :
    t.contents = u.contents := by
  obtain ⟨htsender, htaction⟩ := List.forall_mem_cons.mp ht
  obtain ⟨husender, huaction⟩ := List.forall_mem_cons.mp hu
  obtain ⟨hsender, hnonce, h⟩ := sender_nonce_of_bytes htsender husender h
  obtain ⟨htimestamp, h⟩ := word_append_inj h
  rw [contents, contents, hsender, hnonce, htimestamp,
    Action.bytes_inj htaction huaction h]

theorem bytes_of_contents (h : t.contents = u.contents) :
    t.bytes = u.bytes := by
  simp only [contents, Prod.mk.injEq] at h
  obtain ⟨hsender, hnonce, htimestamp, haction⟩ := h
  rw [bytes, bytes, hsender, hnonce, htimestamp, haction]

end Transaction

/-! ## Blocks -/

namespace Digest

theorem bytes_append_inj {d e : Digest} {x y : List UInt8}
    (h : d.bytes ++ x = e.bytes ++ y) : d = e ∧ x = y := by
  obtain ⟨hbytes, hrest⟩ :=
    List.append_inj h (d.length_bytes.trans e.length_bytes.symm)
  exact ⟨ext hbytes, hrest⟩

/-- No two of some byte strings have the same digest. -/
def CollisionFree (known : List (List UInt8)) : Prop :=
  ∀ x ∈ known, NoCollision x known

theorem CollisionFree.eq {known : List (List UInt8)} (h : CollisionFree known)
    {x y : List UInt8} (hx : x ∈ known) (hy : y ∈ known)
    (hdigest : ofBytes x = ofBytes y) : x = y :=
  h y hy x hx hdigest

end Digest

namespace Transaction

variable {t u : Transaction} {known : List (List UInt8)}

/-- A hash stands for the contents of one transaction. -/
theorem contents_of_hash (hfree : Digest.CollisionFree known)
    (ht : t.bytes ∈ known) (hu : u.bytes ∈ known) (htfits : t.Fits)
    (hufits : u.Fits) (htname : t.hash = t.computedHash)
    (huname : u.hash = u.computedHash) (h : t.hash = u.hash) :
    t.contents = u.contents :=
  contents_of_bytes htfits hufits
    (hfree.eq ht hu ((htname.symm.trans h).trans huname))

theorem eq_of_contents (h : t.contents = u.contents) (hhash : t.hash = u.hash)
    (hblock : t.blockHash = u.blockHash) : t = u := by
  cases t
  cases u
  simp_all [contents]

end Transaction

namespace Block

/-- Hashes that stand one after the other are told apart, since each has the
same length. -/
theorem hashes_of_flatMap {ts us : List Transaction}
    (h : ts.flatMap (·.hash.bytes) = us.flatMap (·.hash.bytes)) :
    ts.map (·.hash) = us.map (·.hash) := by
  have hlength : ∀ (v : Transaction) (vs : List Transaction),
      [] ≠ (v :: vs).flatMap (·.hash.bytes) := by
    intro v vs hnil
    have hempty := congrArg List.length hnil
    rw [List.flatMap_cons, List.length_append, v.hash.length_bytes,
      List.length_nil] at hempty
    omega
  induction ts generalizing us with
  | nil =>
    cases us with
    | nil => rfl
    | cons u us => exact absurd h (hlength u us)
  | cons t ts ih =>
    cases us with
    | nil => exact absurd h.symm (hlength t ts)
    | cons u us =>
      rw [List.flatMap_cons, List.flatMap_cons] at h
      obtain ⟨hhash, hrest⟩ := Digest.bytes_append_inj h
      rw [List.map_cons, List.map_cons, hhash, ih hrest]

/-- **Lists of transactions are told apart by their bytes**, up to the hashes in
them. -/
theorem hashes_of_rootBytes {ts us : List Transaction}
    (h : rootBytes ts = rootBytes us) : ts.map (·.hash) = us.map (·.hash) := by
  simp only [rootBytes, List.append_assoc] at h
  exact hashes_of_flatMap (word_append_inj (List.append_cancel_left h)).2

theorem rootBytes_of_hashes {ts us : List Transaction}
    (h : ts.map (·.hash) = us.map (·.hash)) : rootBytes ts = rootBytes us := by
  have hlength := congrArg List.length h
  have hbytes := congrArg (List.flatMap Digest.bytes) h
  rw [List.length_map, List.length_map] at hlength
  rw [List.flatMap_map, List.flatMap_map] at hbytes
  rw [rootBytes, rootBytes, hlength, hbytes]

theorem parentBytes_append_inj {p q : Option Digest} {x y : List UInt8}
    (h : parentBytes p ++ x = parentBytes q ++ y) : p = q ∧ x = y := by
  cases p with
  | none =>
    cases q with
    | none => exact ⟨rfl, (List.cons.inj h).2⟩
    | some e => cases (List.cons.inj h).1
  | some d =>
    cases q with
    | none => cases (List.cons.inj h).1
    | some e =>
      obtain ⟨hdigest, hrest⟩ := Digest.bytes_append_inj (List.cons.inj h).2
      exact ⟨congrArg some hdigest, hrest⟩

/-- **Headers are told apart by their bytes.** -/
theorem headerBytes_inj {height height' timestamp timestamp' : UInt64}
    {parent parent' : Option Digest} {root root' : Digest}
    (h : headerBytes height parent timestamp root =
      headerBytes height' parent' timestamp' root') :
    height = height' ∧ parent = parent' ∧ timestamp = timestamp' ∧
      root = root' := by
  simp only [headerBytes, List.append_assoc] at h
  obtain ⟨hheight, h⟩ := word_append_inj (List.append_cancel_left h)
  obtain ⟨hparent, h⟩ := parentBytes_append_inj h
  obtain ⟨htimestamp, h⟩ := word_append_inj h
  exact ⟨hheight, hparent, htimestamp, Digest.ext h⟩

variable {b q : Block}

/-- All byte strings that are hashed for a block and its transactions. -/
def hashedBytes (b : Block) : List (List UInt8) :=
  rootBytes b.transactions :: b.namedBytes

theorem bytes_mem_hashedBytes (b : Block) : b.bytes ∈ b.hashedBytes :=
  List.mem_cons_of_mem _ List.mem_cons_self

theorem rootBytes_mem_hashedBytes (b : Block) :
    rootBytes b.transactions ∈ b.hashedBytes :=
  List.mem_cons_self

theorem transaction_mem_hashedBytes {t : Transaction}
    (ht : t ∈ b.transactions) : t.bytes ∈ b.hashedBytes :=
  List.mem_cons_of_mem _ (List.mem_cons_of_mem _ (List.mem_map_of_mem ht))

/-- All texts of any length in a block fit. -/
def Fits (b : Block) : Prop := ∀ t ∈ b.transactions, t.Fits

/-- Valid blocks under one hash that list the same hashes list the same
transactions. -/
theorem transactions_eq
    (hfree : Digest.CollisionFree (b.hashedBytes ++ q.hashedBytes))
    (hb : b.check = .ok ()) (hq : q.check = .ok ()) (hbfits : b.Fits)
    (hqfits : q.Fits) (hhash : b.hash = q.hash)
    (h : b.transactions.map (·.hash) = q.transactions.map (·.hash)) :
    b.transactions = q.transactions := by
  have hlength : b.transactions.length = q.transactions.length := by
    simpa using congrArg List.length h
  refine List.ext_getElem hlength fun i hi hi' => ?_
  have ht := List.getElem_mem hi
  have hu := List.getElem_mem hi'
  obtain ⟨htname, htblock⟩ := (check_ok hb).2.2 _ ht
  obtain ⟨huname, hublock⟩ := (check_ok hq).2.2 _ hu
  have hsame : b.transactions[i].hash = q.transactions[i].hash := by
    have hget : (b.transactions.map (·.hash))[i]? =
        (q.transactions.map (·.hash))[i]? := by rw [h]
    simpa [hi, hi'] using hget
  refine Transaction.eq_of_contents ?_ hsame (by rw [htblock, hublock, hhash])
  exact Transaction.contents_of_hash hfree
    (List.mem_append_left _ (transaction_mem_hashedBytes ht))
    (List.mem_append_right _ (transaction_mem_hashedBytes hu)) (hbfits _ ht)
    (hqfits _ hu) htname huname hsame

/-- **A hash stands for one valid block.** -/
theorem eq_of_hash
    (hfree : Digest.CollisionFree (b.hashedBytes ++ q.hashedBytes))
    (hb : b.check = .ok ()) (hq : q.check = .ok ()) (hbfits : b.Fits)
    (hqfits : q.Fits) (h : b.hash = q.hash) : b = q := by
  have hheader : b.bytes = q.bytes := by
    refine hfree.eq (List.mem_append_left _ b.bytes_mem_hashedBytes)
      (List.mem_append_right _ q.bytes_mem_hashedBytes) ?_
    rw [(exists_bytes_of_check hb).1, (exists_bytes_of_check hq).1, h]
  obtain ⟨hheight, hparent, htimestamp, hroot⟩ := headerBytes_inj hheader
  have hroots : rootBytes b.transactions = rootBytes q.transactions :=
    hfree.eq (List.mem_append_left _ b.rootBytes_mem_hashedBytes)
      (List.mem_append_right _ q.rootBytes_mem_hashedBytes) hroot
  have htransactions :=
    transactions_eq hfree hb hq hbfits hqfits h (hashes_of_rootBytes hroots)
  cases b
  cases q
  simp_all

/-- **Blocks and transactions are bound to their hashes.** The bytes that are
hashed tell the contents of a transaction of any kind, the hashes in a list of
transactions, and the parts of a header. So where no two of the hashed byte
strings have the same digest, transactions under one name have the same
contents, and valid blocks under one name are the same in every part. -/
theorem hash_binds_contents :
    (∀ t u : Transaction, t.Fits → u.Fits →
        (t.bytes = u.bytes ↔ t.contents = u.contents)) ∧
      (∀ ts us : List Transaction, rootBytes ts = rootBytes us ↔
        ts.map (·.hash) = us.map (·.hash)) ∧
      (∀ height height' parent parent' timestamp timestamp' root root',
        headerBytes height parent timestamp root =
          headerBytes height' parent' timestamp' root' ↔
        height = height' ∧ parent = parent' ∧ timestamp = timestamp' ∧
          root = root') ∧
      (∀ t u : Transaction, t.Fits → u.Fits →
        Digest.CollisionFree [t.bytes, u.bytes] → t.hash = t.computedHash →
        u.hash = u.computedHash → t.hash = u.hash → t.contents = u.contents) ∧
      (∀ b q : Block, b.Fits → q.Fits →
        Digest.CollisionFree (b.hashedBytes ++ q.hashedBytes) →
        b.check = .ok () → q.check = .ok () → b.hash = q.hash → b = q) := by
  refine ⟨?_, ?_, ?_, ?_, ?_⟩
  · intro t u ht hu
    exact ⟨Transaction.contents_of_bytes ht hu, Transaction.bytes_of_contents⟩
  · intro ts us
    exact ⟨hashes_of_rootBytes, rootBytes_of_hashes⟩
  · intro height height' parent parent' timestamp timestamp' root root'
    refine ⟨headerBytes_inj, ?_⟩
    rintro ⟨rfl, rfl, rfl, rfl⟩
    rfl
  · intro t u ht hu hfree htname huname h
    exact Transaction.contents_of_hash hfree (by simp)
      (by simp) ht hu htname huname h
  · intro b q hb hq hfree hbvalid hqvalid h
    exact eq_of_hash hfree hbvalid hqvalid hb hq h

/-- A mint has the contents that it had before it was put into its block, and
the block is the only one under its hash. -/
theorem hash_binds_contents_twoHolders :
    ∃ (b q : Block) (t u : Transaction), t ≠ u ∧ t.Fits ∧ u.Fits ∧
      Digest.CollisionFree [t.bytes, u.bytes] ∧ t.hash = t.computedHash ∧
      u.hash = u.computedHash ∧ t.hash = u.hash ∧ t.contents = u.contents ∧
      b.Fits ∧ q.Fits ∧ Digest.CollisionFree (b.hashedBytes ++ q.hashedBytes) ∧
      b.check = .ok () ∧ q.check = .ok () ∧ b.hash = q.hash ∧ b = q := by
  obtain ⟨b, hb⟩ : ∃ b, b = Config.twoHolders.genesisBlock := ⟨_, rfl⟩
  have hvalid : b.check = .ok () := by
    rw [hb, Config.twoHolders.isMade_genesisBlock.check_eq]
    rfl
  have hrun : (Config.twoHolders.genesisBlock.hashedBytes.map
      Digest.ofBytes).Nodup ∧ Config.twoHolders.genesisBlock.hash ≠ .zero ∧
      ∀ t ∈ Config.twoHolders.genesisBlock.transactions,
      ∀ s ∈ t.sender :: t.action.texts,
        Encoding.LengthFits s := by
    decide +kernel
  rw [← hb] at hrun
  obtain ⟨hnodup, hzero, hfits⟩ := hrun
  have hfree : Digest.CollisionFree (b.hashedBytes ++ b.hashedBytes) := by
    intro x hx y hy hdigest
    rw [List.mem_append, or_self] at hx hy
    exact List.inj_on_of_nodup_map hnodup hy hx hdigest
  obtain ⟨t, ht⟩ : ∃ t, t ∈ b.transactions := by
    rw [hb]
    exact ⟨_, List.mem_cons_self⟩
  obtain ⟨-, -, hts⟩ := check_ok hvalid
  obtain ⟨hname, hblock⟩ := hts t ht
  have hsame :
      Digest.CollisionFree [{ t with blockHash := .zero }.bytes, t.bytes] := by
    intro x hx y hy _
    have hbytes :
        ∀ z ∈ [{ t with blockHash := .zero }.bytes, t.bytes], z = t.bytes := by
      rintro z (_ | ⟨_, _ | ⟨_, ⟨⟩⟩⟩) <;> rfl
    rw [hbytes x hx, hbytes y hy]
  have hne : { t with blockHash := .zero } ≠ t := by
    intro heq
    exact hzero (hblock.symm.trans (congrArg Transaction.blockHash heq).symm)
  obtain ⟨-, -, -, htransactions, hblocks⟩ := hash_binds_contents
  exact ⟨b, b, { t with blockHash := .zero }, t,
    hne, hfits t ht, hfits t ht, hsame, hname, hname, rfl, htransactions _ t
    (hfits t ht) (hfits t ht) hsame hname hname rfl, hfits, hfits, hfree,
    hvalid, hvalid, rfl, hblocks b b hfits hfits hfree hvalid hvalid rfl⟩

end Block

end CouncilLedger
