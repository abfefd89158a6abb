import CouncilLedger.Proofs.Json.Extension
import CouncilLedger.Proofs.Storage
import Mathlib.Data.List.TakeWhile

/-!
# Reading any log

Reading a log whose lines are not all whole writes it anew with the part before
the first damage. What is then read is the same as before, so that reading twice
is reading once. Nor does an append that the disk refuses change what is read.
The main statements are `BlockLog.read_read` and
`BlockLog.IsWhole.append_refused`.
-/

namespace CouncilLedger

/-! ## Bytes of text -/

namespace Text

variable {cs : List Char} {bytes : List UInt8}

/-- Decoding inverts encoding from the other side too. -/
theorem encode_of_decode? (h : decode? bytes = some cs) :
    encode cs = bytes := by
  obtain ⟨chars, hchars, rfl⟩ := Option.map_eq_some_iff.mp h
  have hsome : bytes.toByteArray.utf8Decode?.isSome = true := by
    rw [hchars]; rfl
  have hbytes := ByteArray.utf8Encode_get_utf8Decode? (h := hsome)
  simp only [hchars, Option.get_some] at hbytes
  have hlists :
      (encode chars.toList).toByteArray.data.toList =
        bytes.toByteArray.data.toList :=
    congrArg (fun b => b.data.toList) hbytes
  simpa using hlists

/-- The byte of a line end is in the bytes of no other character. -/
theorem newline_notMem_utf8EncodeChar {c : Char} (hc : c ≠ '\n') :
    10 ∉ String.utf8EncodeChar c := by
  have hval : c.val.toNat ≠ 10 := fun h => hc (Char.ext (UInt32.toNat_inj.mp h))
  have hbyte : ∀ n < 256, n ≠ 10 → 10 ≠ UInt8.ofNat n := by
    intro n hn hne heq
    have htoNat := congrArg UInt8.toNat heq
    rw [UInt8.toNat_ofNat_of_lt' hn] at htoNat
    exact hne htoNat.symm
  unfold String.utf8EncodeChar
  dsimp only
  repeat' split
  all_goals
    simp only [List.mem_cons, List.not_mem_nil, or_false, not_or]
    repeat' apply And.intro
  all_goals exact hbyte _ (by omega) (by omega)

theorem newline_notMem_encode (h : '\n' ∉ cs) : 10 ∉ encode cs := by
  intro hmem
  obtain ⟨c, hc, hbyte⟩ := List.mem_flatMap.mp hmem
  exact newline_notMem_utf8EncodeChar (fun heq => h (heq ▸ hc)) hbyte

end Text

/-! ## Lines -/

namespace BlockLog

/-- A text is a line after the other, and at last one without end. -/
theorem lines_induction {P : List Char → Prop} (last : ∀ cs, '\n' ∉ cs → P cs)
    (step : ∀ cs rest, '\n' ∉ cs → P rest → P (cs ++ '\n' :: rest))
    (text : List Char) : P text := by
  by_cases h : '\n' ∈ text
  · obtain ⟨cs, rest, htext, hcs⟩ := List.eq_append_cons_of_mem h
    rw [htext]
    exact step cs rest hcs (lines_induction last step rest)
  · exact last text h
termination_by text.length
decreasing_by
  rw [htext, List.length_append, List.length_cons]
  omega

variable {pre text : List Char} {blocks : List Block}

theorem lines_of_notMem (h : '\n' ∉ pre) (hne : pre ≠ []) :
    lines pre = [pre] := by
  induction pre with
  | nil => exact absurd rfl hne
  | cons c cs ih =>
    simp only [List.mem_cons, not_or] at h
    cases cs with
    | nil => simp [lines, Ne.symm h.1]
    | cons d cs =>
      rw [lines, if_neg (Ne.symm h.1), ih h.2 (List.cons_ne_nil _ _)]

theorem lines_flatMap_line_append (blocks : List Block) (cs : List Char) :
    lines (blocks.flatMap line ++ cs) = blocks.map line ++ lines cs := by
  induction blocks with
  | nil => rfl
  | cons b rest ih =>
    have hline : line b ++ rest.flatMap line ++ cs =
        b.toJson.render ++ '\n' :: (rest.flatMap line ++ cs) := by
      simp [line]
    rw [List.flatMap_cons, hline, lines_append (newline_notMem_render b), ih]
    rfl

theorem findings_map_line_append (blocks : List Block) (ls : List (List Char)) :
    findings (blocks.map line ++ ls) = ⟨blocks ++ (findings ls).blocks,
      blocks.flatMap line ++ (findings ls).clean, (findings ls).isWhole⟩ := by
  induction blocks with
  | nil => rfl
  | cons b rest ih =>
    simp [findings, isBlank_line, block?_line, getLast?_line, ih]

theorem ended_flatMap_line (blocks : List Block) :
    ended (blocks.flatMap line) = blocks.flatMap line := by
  rcases List.eq_nil_or_concat blocks with rfl | ⟨before, b, rfl⟩
  · rfl
  · simp [ended, line]

/-- What follows a line end is ended by itself. -/
theorem ended_append_newline (cs rest : List Char) :
    ended (cs ++ '\n' :: rest) = cs ++ '\n' :: ended rest := by
  cases rest with
  | nil => simp [ended]
  | cons c rest =>
    have hlast : (cs ++ '\n' :: c :: rest).getLast? = (c :: rest).getLast? := by
      simp [List.getLast?_append, List.getLast?_cons]
    by_cases hends : (c :: rest).getLast? = some '\n' <;>
      simp [ended, hlast, hends]

theorem ended_of_notMem (h : '\n' ∉ pre) (hne : pre ≠ []) :
    ended pre = pre ++ ['\n'] := by
  have hlast : pre.getLast? ≠ some '\n' :=
    fun hlast => h (List.mem_of_getLast? hlast)
  simp [ended, hne, hlast]

/-- The block of a line does not depend on the line end. -/
theorem block?_append_newline {b : Block} (h : block? pre = some b) :
    block? (pre ++ ['\n']) = some b := by
  obtain ⟨v, hv, hb⟩ := Option.bind_eq_some_iff.mp h
  obtain ⟨r, hr, -⟩ := Option.bind_eq_some_iff.mp hb
  have hread : Json.readAll (pre ++ ['\n']) = some v :=
    Json.readAll_append_of_isCompound hv (Json.isCompound_of_record? hr)
      (by simp [Json.isSpace])
  simp [block?, hread, hb]

/-! ## Findings -/

theorem isBlank_append (cs ds : List Char) :
    Text.isBlank (cs ++ ds) = (Text.isBlank cs && Text.isBlank ds) :=
  List.all_append

/-- A line with its end is taken in, be it blank or a block, or nothing counts
from it on. -/
theorem findings_cons_cases (cs : List Char) :
    (∃ found, ∀ ls,
        findings ((cs ++ ['\n']) :: ls) =
          ⟨found ++ (findings ls).blocks, cs ++ '\n' :: (findings ls).clean,
           (findings ls).isWhole⟩) ∨
      ∀ ls, findings ((cs ++ ['\n']) :: ls) = ⟨[], [], false⟩ := by
  cases hblank : Text.isBlank (cs ++ ['\n']) with
  | true => exact .inl ⟨[], fun ls => by simp [findings, hblank]⟩
  | false =>
    cases hblock : block? (cs ++ ['\n']) with
    | none => exact .inr fun ls => by simp [findings, hblank, hblock]
    | some b => exact .inl ⟨[b], fun ls => by simp [findings, hblank, hblock]⟩

/-- A line without end is blank, or a block that lacks nothing but the end, or
nothing. -/
theorem findings_unended_cases {cs : List Char} (h : '\n' ∉ cs) :
    (∃ found, findings [cs] = ⟨found, cs, found.isEmpty⟩ ∧
      findings [cs ++ ['\n']] = ⟨found, cs ++ ['\n'], true⟩) ∨
    findings [cs] = ⟨[], [], false⟩ := by
  cases hblank : Text.isBlank cs with
  | true =>
    have hended : Text.isBlank (cs ++ ['\n']) = true := by
      rw [isBlank_append, hblank]; rfl
    exact .inl ⟨[], by simp [findings, hblank], by simp [findings, hended]⟩
  | false =>
    have hended : Text.isBlank (cs ++ ['\n']) = false := by
      rw [isBlank_append, hblank]; rfl
    cases hblock : block? cs with
    | none => exact .inr (by simp [findings, hblank, hblock])
    | some b =>
      have hlast : cs.getLast? ≠ some '\n' :=
        fun hlast => h (List.mem_of_getLast? hlast)
      exact .inl ⟨[b], by simp [findings, hblank, hblock, hlast],
        by simp [findings, hended, block?_append_newline hblock]⟩

/-- **The clean part is whole**: nothing in it is damaged, and the same blocks
are found in it. -/
theorem findings_ended (text : List Char) :
    findings (lines (ended (findings (lines text)).clean)) =
      ⟨(findings (lines text)).blocks, ended (findings (lines text)).clean,
       true⟩ := by
  have hnil : findings (lines (ended [])) = ⟨[], ended [], true⟩ := rfl
  induction text using lines_induction with
  | last cs hcs =>
    by_cases hne : cs = []
    · subst hne
      rfl
    · rw [lines_of_notMem hcs hne]
      rcases findings_unended_cases hcs with ⟨found, hline, hended⟩ | hline
      · rw [hline, ended_of_notMem hcs hne, lines_append hcs]
        exact hended
      · rw [hline, hnil]
  | step cs rest hcs ih =>
    rw [lines_append hcs]
    rcases findings_cons_cases cs with ⟨found, hline⟩ | hline
    · rw [hline, ended_append_newline, lines_append hcs, hline, ih]
    · rw [hline, hnil]

theorem wholeLines_of_notMem {bytes : List UInt8} (h : 10 ∉ bytes) :
    wholeLines bytes = [] := by
  have hdrop : bytes.reverse.dropWhile (· != 10) = [] := by
    rw [List.dropWhile_eq_nil_iff]
    intro byte hbyte
    rw [bne_iff_ne]
    exact fun heq => h (heq ▸ List.mem_reverse.mp hbyte)
  rw [wholeLines, hdrop, List.reverse_nil]

/-- Cut behind the last line end, a whole log is whole still with its blocks,
and with the lines of any further blocks behind it. -/
theorem exists_wholeLines (hwhole : (findings (lines text)).isWhole = true) :
    ∃ kept, wholeLines (Text.encode text) = Text.encode kept ∧
      ∀ more : List Block,
        (findings (lines (kept ++ more.flatMap line))).isWhole = true ∧
        (findings (lines (kept ++ more.flatMap line))).blocks =
          (findings (lines text)).blocks ++ more := by
  induction text using lines_induction with
  | last cs hcs =>
    refine ⟨[], wholeLines_of_notMem (Text.newline_notMem_encode hcs),
      fun more => ?_⟩
    rw [List.nil_append, lines_flatMap_line, findings_map_line]
    refine ⟨rfl, ?_⟩
    by_cases hne : cs = []
    · rw [hne]
      rfl
    · rw [lines_of_notMem hcs hne] at hwhole ⊢
      -- a block that lacks its end is not whole
      rcases findings_unended_cases hcs with ⟨found, hline, -⟩ | hline
      · rw [hline] at hwhole ⊢
        rw [List.isEmpty_iff.mp hwhole, List.nil_append]
      · rw [hline] at hwhole
        cases hwhole
  | step cs rest hcs ih =>
    have hbytes : ∀ more, Text.encode (cs ++ '\n' :: more) = Text.encode cs ++
        10 :: Text.encode more := fun more => Text.encode_append cs _
    rw [lines_append hcs] at hwhole ⊢
    rcases findings_cons_cases cs with ⟨found, hline⟩ | hline
    · rw [hline] at hwhole ⊢
      obtain ⟨kept, hkept, hmore⟩ := ih hwhole
      refine ⟨cs ++ '\n' :: kept, ?_, fun more => ?_⟩
      · rw [hbytes, wholeLines_append_cons, hkept, hbytes]
      · rw [List.append_assoc, List.cons_append, lines_append hcs, hline,
          List.append_assoc]
        exact ⟨(hmore more).1, congrArg (found ++ ·) (hmore more).2⟩
    · rw [hline] at hwhole
      cases hwhole

/-! ## Reading -/

variable {d d' : DataDir} {bytes : List UInt8}

/-- The directory with another file as its log. -/
def rewritten (d : DataDir) (bytes : List UInt8) : DataDir :=
  ((d.put temporary bytes).remove temporary).put name bytes

theorem file?_rewritten (d : DataDir) (bytes : List UInt8) :
    (rewritten d bytes).file? name = some bytes := by
  rw [rewritten, DataDir.file?_put_self]

theorem file?_rewritten_checkpoint (d : DataDir) (bytes : List UInt8) :
    (rewritten d bytes).file? Checkpoint.name = d.file? Checkpoint.name := by
  simp [rewritten, DataDir.file?_put, DataDir.file?_remove, Checkpoint.name,
    name, temporary]

/-- A log can be written anew where neither of its names is that of a
directory. -/
theorem replace_eq (hlog : d.isDirectory name = false) (bytes : List UInt8) :
    d.replace name temporary bytes =
      if d.isDirectory temporary then (.error .isDirectory, d)
      else (.ok (), rewritten d bytes) := by
  have hwritten := DataDir.isDirectory_put hlog temporary bytes
  simp [DataDir.replace, hwritten, rewritten]

/-- A log that is no text is not read. -/
theorem read_of_decode?_eq_none (hfile : d.file? name = some bytes)
    (hdecode : Text.decode? bytes = none) :
    read d = (.error (.readFailed (d.pathOf name)), d) := by
  simp [read, DataDir.contains_of_file? hfile, hfile, hdecode]

/-- A log that is not whole is written anew. -/
theorem read_of_damaged (hfile : d.file? name = some (Text.encode text))
    (hwhole : (findings (lines text)).isWhole = false) :
    read d = if d.isDirectory temporary then (.error .isDirectory, d)
      else (.ok (findings (lines text)).blocks,
        rewritten d (Text.encode (ended (findings (lines text)).clean))) := by
  have hreplace := replace_eq (DataDir.isDirectory_of_file? hfile)
    (Text.encode (ended (findings (lines text)).clean))
  cases htemporary : d.isDirectory temporary <;>
    simp [read, DataDir.contains_of_file? hfile, hfile, Text.decode?_encode,
      hwhole, hreplace, htemporary, Except.map]

/-- The log is whole, and some blocks are found in it. -/
inductive IsWhole (d : DataDir) : List Block → Prop where
  | absent (absent : d.contains name = false) : IsWhole d []
  | present {text : List Char} (file : d.file? name = some (Text.encode text))
      (whole : (findings (lines text)).isWhole = true) :
      IsWhole d (findings (lines text)).blocks

namespace IsWhole

theorem read (h : IsWhole d blocks) : read d = (.ok blocks, d) := by
  cases h with
  | absent absent => simp [BlockLog.read, absent]
  | present file whole =>
    simp [BlockLog.read, DataDir.contains_of_file? file, file,
      Text.decode?_encode, whole]

theorem isDirectory (h : IsWhole d blocks) : d.isDirectory name = false := by
  cases h with
  | absent absent =>
    have hnone : d.items.get? name = none := by
      simpa [DataDir.contains, SortedMap.contains] using absent
    simp [DataDir.isDirectory, hnone]
  | present file => exact DataDir.isDirectory_of_file? file

theorem of_file? (h : d.file? name = some (bytesOf blocks)) :
    IsWhole d blocks := by
  have hfindings := findings_map_line blocks
  rw [← lines_flatMap_line] at hfindings
  have hwhole := present h (congrArg Findings.isWhole hfindings)
  rwa [hfindings] at hwhole

/-- Behind its last line end the log takes some further blocks, and before them
the same blocks are found as before. -/
theorem put_wholeLines (h : IsWhole d blocks) (more : List Block) :
    IsWhole (d.put name (wholeLines ((d.file? name).getD []) ++ bytesOf more))
      (blocks ++ more) := by
  cases h with
  | absent absent =>
    have hnone : d.file? name = none := by
      cases hfile : d.file? name with
      | none => rfl
      | some bytes =>
        rw [DataDir.contains_of_file? hfile] at absent; cases absent
    rw [hnone]
    exact of_file? (DataDir.file?_put_self _ _ _)
  | present file whole =>
    obtain ⟨kept, hkept, hmore⟩ := exists_wholeLines whole
    rw [file, Option.getD_some, hkept,
      bytesOf, ← Text.encode_append, ← (hmore more).2]
    exact .present (DataDir.file?_put_self _ _ _) (hmore more).1

/-- **A refused append leaves no trace**: the same blocks are found as
before. -/
theorem append_refused (h : IsWhole d blocks) (b : Block) :
    ∃ d', append d false b = (.error .appendFailed, d') ∧
      IsWhole d' blocks := by
  have hwhole := h.put_wholeLines []
  rw [List.append_nil] at hwhole
  exact ⟨_, by simp [append, h.isDirectory, bytesOf, Text.encode], hwhole⟩

/-- An append that the disk takes is found behind the others. -/
theorem append_taken (h : IsWhole d blocks) (b : Block) :
    ∃ d', append d true b = (.ok (), d') ∧ IsWhole d' (blocks ++ [b]) := by
  exact ⟨_, by simp [append, h.isDirectory, bytesOf], h.put_wholeLines [b]⟩

end IsWhole

/-- **What a reading does**: the log cannot be read and stays as it is, or it is
whole afterwards. -/
theorem read_cases (d : DataDir) : (∃ fault, read d = (.error fault, d)) ∨
    ∃ blocks d', read d = (.ok blocks, d') ∧ IsWhole d' blocks := by
  cases hcontains : d.contains name with
  | false =>
    exact .inr ⟨_, _, (IsWhole.absent hcontains).read, .absent hcontains⟩
  | true =>
    cases hfile : d.file? name with
    | none => exact .inl ⟨_, by simp [read, hcontains, hfile]; rfl⟩
    | some bytes =>
      cases hdecode : Text.decode? bytes with
      | none => exact .inl ⟨_, read_of_decode?_eq_none hfile hdecode⟩
      | some text =>
        rw [← Text.encode_of_decode? hdecode] at hfile
        cases hwhole : (findings (lines text)).isWhole with
        | true =>
          exact .inr ⟨_, _, (IsWhole.present hfile hwhole).read,
            .present hfile hwhole⟩
        | false =>
          have hread := read_of_damaged hfile hwhole
          split at hread
          · exact .inl ⟨_, hread⟩
          · have hclean := findings_ended text
            have hnew := IsWhole.present (file?_rewritten d _)
              (congrArg Findings.isWhole hclean)
            rw [hclean] at hnew
            exact .inr ⟨_, _, hread, hnew⟩

theorem isWhole_of_read (h : read d = (.ok blocks, d')) :
    IsWhole d' blocks := by
  rcases read_cases d with ⟨fault, hread⟩ | ⟨found, after, hread, hwhole⟩
  · rw [hread] at h
    cases h
  · rw [hread] at h
    cases h
    exact hwhole

/-- **Reading twice is reading once**: whatever the file holds, what a reading
leaves is read the same and stays. -/
theorem read_read (d : DataDir) : read (read d).2 = read d := by
  rcases read_cases d with ⟨fault, hread⟩ | ⟨found, after, hread, hwhole⟩
  · rw [hread, hread]
  · rw [hread, hwhole.read]

end BlockLog
end CouncilLedger
