import ThreeAddress.Proofs.Pieces
import ThreeAddress.Report

/-!
# Reading back what was written

A token of a record has no blank at its ends and none of the signs that separate tokens, fields and
lines (`isToken_of_mem_tokens`), so every instruction that is read from a text is `Spelled` by such
tokens (`spelled_of_mem_ofText`). A spelled instruction that is written as a record has one line for
itself, and all that reading can take from it are the parentheses at the beginning of its tag and
at the end of its last operand (`ofLine_record`). Hence a list of instructions is read back exactly
if each of them is spelled and has no such parenthesis (`ofText_listing_iff`).
-/

namespace ThreeAddress

open Record (isParenthesis)

namespace Text

variable {cs t : List Char}

/-- A text that can stand as a token in a record. -/
structure IsToken (cs : List Char) : Prop where
  stripped : Stripped isBlank cs
  comma : ',' ∉ cs
  tab : '\t' ∉ cs
  newline : '\n' ∉ cs

instance (cs : List Char) : Decidable (IsToken cs) :=
  decidable_of_iff (Stripped isBlank cs ∧ ',' ∉ cs ∧ '\t' ∉ cs ∧ '\n' ∉ cs)
    ⟨fun ⟨hs, hc, ht, hn⟩ => ⟨hs, hc, ht, hn⟩, fun ⟨hs, hc, ht, hn⟩ => ⟨hs, hc, ht, hn⟩⟩

theorem isToken_nil : IsToken [] := by decide

theorem IsToken.trim_eq (h : IsToken cs) : trim cs = cs := h.stripped.strip_eq

/-- No line ends inside a token or with it. -/
theorem IsToken.isLine (h : IsToken cs) : IsLine cs := by
  refine ⟨h.newline, fun hr => ?_⟩
  have hblank := h.stripped.2 '\r' hr
  revert hblank
  decide

end Text

open Text

namespace Record

/-- What the record says of an instruction. -/
def parts? : Record → Option (Opcode × Operand × Operand × Operand)
  | .instruction opcode a1 a2 a3 _ => some (opcode, a1, a2, a3)
  | _ => none

variable {body line t : List Char} {r : Record}

theorem isToken_of_mem_tokens (ht : '\t' ∉ body) (hn : '\n' ∉ body) (h : t ∈ tokens body) :
    IsToken t := by
  obtain ⟨piece, hpiece, rfl⟩ := List.mem_map.1 h
  obtain ⟨hcomma, hsub⟩ := of_mem_splitOn hpiece
  have hpieces : trim piece ⊆ piece := (strip_sublist _ _).subset
  have hbody : piece ⊆ body := fun c hc =>
    (strip_sublist _ _).subset ((strip_sublist _ _).subset (hsub hc))
  exact ⟨stripped_strip _ _, fun hc => hcomma (hpieces hc), fun hc => ht (hbody (hpieces hc)),
    fun hc => hn (hbody (hpieces hc))⟩

theorem isToken_getD {ts : List (List Char)} (h : ∀ t ∈ ts, IsToken t) (n : Nat) :
    IsToken (ts.getD n []) := by
  rw [List.getD_eq_getElem?_getD]
  rcases hn : ts[n]? with _ | t
  · exact isToken_nil
  · exact h t (List.mem_of_getElem? hn)

theorem ofLine_of_splitOn {address : List Char} (h : (trim line).splitOn '\t' = [address, body]) :
    ofLine line = ofTokens (tokens body) := by
  simp only [ofLine]
  split
  · next hnil =>
    rw [hnil] at h
    cases h
  · rw [h]

/-- A line that gives an instruction has one tab, and the tokens come after it. -/
theorem ofLine_of_parts? (h : (ofLine line).parts?.isSome) :
    ∃ address body, (trim line).splitOn '\t' = [address, body]
      ∧ ofLine line = ofTokens (tokens body) := by
  simp only [ofLine] at h
  split at h
  · cases h
  · split at h
    · next address body hsplit => exact ⟨address, body, hsplit, ofLine_of_splitOn hsplit⟩
    · cases h

end Record

namespace Instruction

variable {i i' : Instruction} {is : List Instruction}

/-- All of an instruction but its place. -/
def parts (i : Instruction) : Opcode × Operand × Operand × Operand :=
  (i.opcode, i.a1, i.a2, i.a3)

/-- The texts that stand between the commas when an instruction is written. -/
def texts (i : Instruction) : List String :=
  [i.opcode.tag, i.a1.text, i.a2.text, i.a3.text]

/-- The instruction is what its own texts are read as, and they are tokens. -/
structure Spelled (i : Instruction) : Prop where
  opcode : .ofTag i.opcode.tag = i.opcode
  operands : ∀ a ∈ [i.a1, i.a2, i.a3], .classify a.text = a
  tokens : ∀ t ∈ i.texts, IsToken t.toList

instance (i : Instruction) : Decidable i.Spelled :=
  decidable_of_iff (.ofTag i.opcode.tag = i.opcode
      ∧ (∀ a ∈ [i.a1, i.a2, i.a3], .classify a.text = a) ∧ ∀ t ∈ i.texts, IsToken t.toList)
    ⟨fun ⟨ho, ha, ht⟩ => ⟨ho, ha, ht⟩, fun ⟨ho, ha, ht⟩ => ⟨ho, ha, ht⟩⟩

/-- Spelled, without a parenthesis where a record has its own. -/
structure Loadable (i : Instruction) : Prop extends Spelled i where
  tag_head : HeadNot isParenthesis i.opcode.tag.toList
  a3_last : LastNot isParenthesis i.a3.text.toList

instance (i : Instruction) : Decidable i.Loadable :=
  decidable_of_iff (i.Spelled ∧ HeadNot isParenthesis i.opcode.tag.toList
      ∧ LastNot isParenthesis i.a3.text.toList)
    ⟨fun ⟨hs, ht, ha⟩ => ⟨hs, ht, ha⟩, fun ⟨hs, ht, ha⟩ => ⟨hs, ht, ha⟩⟩

def record (index : Nat) (i : Instruction) : String := toString index ++ "\t" ++ i.text

/-- A text with a record for each instruction, which has the instruction's index as its address. -/
def listing (is : List Instruction) : String :=
  String.join (is.mapIdx fun index i => i.record index ++ "\n")

theorem Spelled.of_parts_eq (h : i'.Spelled) (hi : i.parts = i'.parts) : i.Spelled := by
  obtain ⟨op, a1, a2, a3, place⟩ := i
  obtain ⟨op', a1', a2', a3', place'⟩ := i'
  cases hi
  exact ⟨h.opcode, h.operands, h.tokens⟩

theorem spelled_of_tokens {ts : List (List Char)} (h : ∀ t ∈ ts, IsToken t)
    (hi : (Record.ofTokens ts).parts? = some i.parts) : i.Spelled := by
  have htoken (n : Nat) : IsToken (String.ofList (ts.getD n [])).toList := by
    rw [String.toList_ofList]
    exact Record.isToken_getD h n
  obtain ⟨ho, h1, h2, h3⟩ : Opcode.ofTag (.ofList (ts.getD 0 [])) = i.opcode
      ∧ Operand.classify (.ofList (ts.getD 1 [])) = i.a1
      ∧ Operand.classify (.ofList (ts.getD 2 [])) = i.a2
      ∧ Operand.classify (.ofList (ts.getD 3 [])) = i.a3 := by
    simpa only [Record.ofTokens, Record.parts?, parts, Option.some.injEq, Prod.mk.injEq] using hi
  refine ⟨by rw [← ho, Opcode.tag_ofTag], fun a ha => ?_, fun t ht => ?_⟩
  · simp only [← h1, ← h2, ← h3, List.mem_cons, List.not_mem_nil, or_false] at ha
    rcases ha with rfl | rfl | rfl <;> rw [Operand.text_classify]
  · simp only [texts, ← ho, ← h1, ← h2, ← h3, Opcode.tag_ofTag, Operand.text_classify,
      List.mem_cons, List.not_mem_nil, or_false] at ht
    rcases ht with rfl | rfl | rfl | rfl <;> exact htoken _

end Instruction

namespace Record

theorem parts_entriesFrom (filename : String) (line index : Nat) (rs : List Record) :
    ((entriesFrom filename line index rs).filterMap Entry.instruction?).map Instruction.parts
      = rs.filterMap parts? := by
  induction rs generalizing line index with
  | nil => rfl
  | cons r rs ih =>
    rw [entriesFrom, List.filterMap_append, List.map_append, ih]
    cases r with
    | blank | malformed fields => rfl
    | instruction opcode a1 a2 a3 surplus =>
      simp only [entries]
      split <;> rfl

end Record

namespace Instruction

variable {i : Instruction} {is : List Instruction}

theorem parts_ofText (filename text : String) :
    (Report.ofText filename text).instructions.map parts
      = ((Text.lines text.toList).map Record.ofLine).filterMap Record.parts? :=
  Record.parts_entriesFrom filename 1 0 _

/-- Whatever the text, the instructions that are read from it are spelled. -/
theorem spelled_of_mem_ofText {filename text : String}
    (h : i ∈ (Report.ofText filename text).instructions) : i.Spelled := by
  have hparts := List.mem_map_of_mem (f := parts) h
  rw [parts_ofText] at hparts
  obtain ⟨r, hr, hi⟩ := List.mem_filterMap.1 hparts
  obtain ⟨line, hline, rfl⟩ := List.mem_map.1 hr
  obtain ⟨address, body, hsplit, hof⟩ := Record.ofLine_of_parts? (Option.isSome_of_eq_some hi)
  have hbody : body ∈ (trim line).splitOn '\t' := by simp [hsplit]
  obtain ⟨htab, hsub⟩ := of_mem_splitOn hbody
  have hnewline : '\n' ∉ body := fun hc =>
    newline_notMem_of_mem_lines hline ((strip_sublist _ _).subset (hsub hc))
  rw [hof] at hi
  exact spelled_of_tokens (fun t => Record.isToken_of_mem_tokens htab hnewline) hi

section Written

theorem toList_text (i : Instruction) : i.text.toList = '(' :: (i.opcode.tag.toList
    ++ ',' :: ((' ' :: i.a1.text.toList) ++ ',' :: ((' ' :: i.a2.text.toList)
    ++ ',' :: ((' ' :: i.a3.text.toList) ++ [')'])))) := by
  simp [text, String.toList_append]

theorem toList_record (index : Nat) (i : Instruction) :
    (i.record index).toList = Nat.toDigits 10 index ++ '\t' :: i.text.toList := by
  simp [record, String.toList_append]

theorem getLast?_text (i : Instruction) : i.text.toList.getLast? = some ')' := by
  simp [toList_text, List.getLast?_append, List.getLast?_cons]

theorem stripped_text (i : Instruction) : Stripped isBlank i.text.toList := by
  refine ⟨fun c hc => ?_, fun c hc => ?_⟩
  · rw [toList_text] at hc
    cases hc
    decide
  · rw [getLast?_text] at hc
    cases hc
    decide

theorem isBlank_of_isDigit {c : Char} (h : c.isDigit = true) : isBlank c = false := by
  have hc : 48 ≤ c.toNat ∧ c.toNat ≤ 57 := by
    simpa [Char.isDigit, UInt32.le_iff_toNat_le] using h
  simp [isBlank]
  omega

theorem stripped_record (index : Nat) (i : Instruction) :
    Stripped isBlank (i.record index).toList := by
  rw [toList_record]
  refine ⟨fun c hc => ?_, fun c hc => ?_⟩
  · rcases hd : Nat.toDigits 10 index with _ | ⟨d, ds⟩
    · have hpos := Nat.length_toDigits_pos (b := 10) (n := index)
      simp [hd] at hpos
    · rw [hd] at hc
      cases hc
      exact isBlank_of_isDigit (isDigit_of_mem_toDigits (hd ▸ List.mem_cons_self))
  · simp [List.getLast?_append, List.getLast?_cons, getLast?_text] at hc
    subst hc
    decide

/-- What stands in a written instruction stands in one of its texts or between them. -/
theorem mem_text {c : Char} (h : c ∈ i.text.toList) :
    c ∈ ['(', ',', ' ', ')'] ∨ ∃ t ∈ i.texts, c ∈ t.toList := by
  rw [toList_text] at h
  simp only [texts, List.mem_cons, List.mem_append, List.not_mem_nil, or_false, exists_eq_or_imp,
    exists_eq_left] at h ⊢
  grind

theorem Spelled.notMem_text (h : i.Spelled) : '\t' ∉ i.text.toList ∧ '\n' ∉ i.text.toList := by
  refine ⟨fun hc => ?_, fun hc => ?_⟩
  · rcases mem_text hc with hc | ⟨t, ht, hc⟩
    · revert hc
      decide
    · exact (h.tokens t ht).tab hc
  · rcases mem_text hc with hc | ⟨t, ht, hc⟩
    · revert hc
      decide
    · exact (h.tokens t ht).newline hc

theorem Spelled.isLine_record (h : i.Spelled) (index : Nat) : IsLine (i.record index).toList := by
  rw [toList_record]
  refine ⟨fun hc => ?_, ?_⟩
  · rcases List.mem_append.1 hc with hc | hc
    · exact absurd (isDigit_of_mem_toDigits hc) (by decide)
    · rcases List.mem_cons.1 hc with hc | hc
      · revert hc
        decide
      · exact h.notMem_text.2 hc
  · simp [List.getLast?_append, List.getLast?_cons, getLast?_text]

/-- Each record is a line. -/
theorem lines_listing (h : ∀ i ∈ is, i.Spelled) :
    Text.lines (listing is).toList = is.mapIdx fun index i => (i.record index).toList := by
  have hlines : ∀ l ∈ is.mapIdx fun index i => (i.record index).toList, IsLine l := fun l hl => by
    obtain ⟨index, hindex, rfl⟩ := List.mem_mapIdx.1 hl
    exact (h _ (List.getElem_mem hindex)).isLine_record index
  rw [← lines_flatMap hlines]
  simp [listing, String.toList_join, List.mapIdx_eq_zipIdx_map, List.flatMap_map,
    String.toList_append]

/-- The parentheses that stand at the beginning of the tag and at the end of the last operand are
taken for those of the record. -/
theorem Spelled.tokens_text (h : i.Spelled) : Record.tokens i.text.toList
    = [trim (i.opcode.tag.toList.dropWhile isParenthesis), i.a1.text.toList, i.a2.text.toList,
      trim (stripEnd isParenthesis i.a3.text.toList)] := by
  have htrim (cs : List Char) : trim (' ' :: cs) = trim cs := strip_cons (by decide) cs
  have hcomma {t : String} (ht : t ∈ i.texts) : ',' ∉ ' ' :: t.toList :=
    List.not_mem_cons_of_ne_of_not_mem (by decide) (h.tokens t ht).comma
  have htag : ',' ∉ i.opcode.tag.toList.dropWhile isParenthesis := fun hc =>
    (h.tokens _ (by simp [texts])).comma ((List.dropWhile_suffix _).subset hc)
  have ha3 : ',' ∉ ' ' :: stripEnd isParenthesis i.a3.text.toList := fun hc =>
    hcomma (t := i.a3.text) (by simp [texts])
      (List.cons_subset_cons _ (stripEnd_isPrefix _ _).subset hc)
  have hstrip : strip isParenthesis i.text.toList
      = i.opcode.tag.toList.dropWhile isParenthesis ++ ',' :: ((' ' :: i.a1.text.toList)
        ++ ',' :: ((' ' :: i.a2.text.toList)
        ++ ',' :: (' ' :: stripEnd isParenthesis i.a3.text.toList))) := by
    rw [toList_text, strip_cons (by decide), strip, dropWhile_append_cons (by decide),
      stripEnd_append_cons (by decide), stripEnd_append_cons (by decide),
      stripEnd_append_cons (by decide), stripEnd_concat (by decide), stripEnd_cons (by decide)]
  rw [Record.tokens, trim, (stripped_text i).strip_eq, hstrip,
    List.splitOn_append_cons_self_of_not_mem htag,
    List.splitOn_append_cons_self_of_not_mem (hcomma (by simp [texts])),
    List.splitOn_append_cons_self_of_not_mem (hcomma (by simp [texts])),
    List.splitOn_eq_singleton ha3]
  simp only [List.map_cons, List.map_nil, htrim, (h.tokens i.a1.text (by simp [texts])).trim_eq,
    (h.tokens i.a2.text (by simp [texts])).trim_eq]

/-- What is read where the instruction was written. -/
def reread (i : Instruction) : Record :=
  .instruction (.ofTag (.ofList (trim (i.opcode.tag.toList.dropWhile isParenthesis)))) i.a1 i.a2
    (.classify (.ofList (trim (stripEnd isParenthesis i.a3.text.toList)))) 0

theorem Spelled.ofLine_record (h : i.Spelled) (index : Nat) :
    Record.ofLine (i.record index).toList = i.reread := by
  have haddress : '\t' ∉ Nat.toDigits 10 index := fun hc =>
    absurd (isDigit_of_mem_toDigits hc) (by decide)
  have hsplit : (trim (i.record index).toList).splitOn '\t'
      = [Nat.toDigits 10 index, i.text.toList] := by
    rw [trim, (stripped_record index i).strip_eq, toList_record,
      List.splitOn_append_cons_self_of_not_mem haddress, List.splitOn_eq_singleton h.notMem_text.1]
  rw [Record.ofLine_of_splitOn hsplit, h.tokens_text]
  simp [Record.ofTokens, reread, h.operands]

theorem ofLine_listing (h : ∀ i ∈ is, i.Spelled) :
    (Text.lines (listing is).toList).map Record.ofLine = is.map reread := by
  refine List.ext_getElem? fun index => ?_
  rw [lines_listing h, List.getElem?_map, List.getElem?_mapIdx, List.getElem?_map]
  rcases hi : is[index]? with _ | i
  · rfl
  · exact congrArg some ((h i (List.mem_of_getElem? hi)).ofLine_record index)

/-- A spelled instruction is read as it was written unless it loses a parenthesis. -/
theorem Spelled.loadable_iff (h : i.Spelled) :
    i.reread = .instruction i.opcode i.a1 i.a2 i.a3 0 ↔ i.Loadable := by
  refine ⟨fun heq => ?_, fun hl => ?_⟩
  · obtain ⟨htag, ha3⟩ : Opcode.ofTag _ = i.opcode ∧ Operand.classify _ = i.a3 := by
      simpa only [reread, Record.instruction.injEq, true_and, and_true] using heq
    have htag := congrArg (String.toList ∘ Opcode.tag) htag
    have ha3 := congrArg (String.toList ∘ Operand.text) ha3
    simp only [Function.comp_apply, Opcode.tag_ofTag, Operand.text_classify,
      String.toList_ofList] at htag ha3
    refine ⟨h, ?_, ?_⟩
    · rw [← eq_of_strip_eq (List.dropWhile_suffix _).sublist htag]
      exact headNot_dropWhile _ _
    · rw [← eq_of_strip_eq (stripEnd_isPrefix _ _).sublist ha3]
      exact lastNot_stripEnd _ _
  · have htag : i.opcode.tag ∈ i.texts := by simp [texts]
    have ha3 : i.a3.text ∈ i.texts := by simp [texts]
    rw [reread, dropWhile_eq_self hl.tag_head, stripEnd_eq_self hl.a3_last,
      (h.tokens _ htag).trim_eq, (h.tokens _ ha3).trim_eq, String.ofList_toList,
      String.ofList_toList, h.opcode, h.operands i.a3 (by simp)]

theorem entriesFrom_instructions (filename : String) (line index : Nat) (is : List Instruction) :
    Record.entriesFrom filename line index
        (is.map fun i => .instruction i.opcode i.a1 i.a2 i.a3 0)
      = is.mapIdx fun k i => .loaded (index + k)
        { i with location := ⟨filename, .ofNat (line + k), some (.ofNat (index + k))⟩ } := by
  induction is generalizing line index with
  | nil => rfl
  | cons i is ih =>
    rw [List.map_cons, Record.entriesFrom, ih, List.mapIdx_cons, Record.entries, if_pos rfl]
    simp [Record.count, Nat.add_comm, Nat.add_left_comm]

/-- Every instruction is loaded from the line that it was written on, and nothing else happens. -/
theorem ofText_listing (h : ∀ i ∈ is, i.Loadable) (filename : String) :
    Report.ofText filename (listing is) = ⟨is.mapIdx fun k i => .loaded k
      { i with location := ⟨filename, .ofNat (k + 1), some (.ofNat k)⟩ }⟩ := by
  have hread : (Text.lines (listing is).toList).map Record.ofLine
      = is.map fun i => .instruction i.opcode i.a1 i.a2 i.a3 0 := by
    rw [ofLine_listing fun i hi => (h i hi).toSpelled]
    exact List.map_congr_left fun i hi => (h i hi).toSpelled.loadable_iff.2 (h i hi)
  rw [Report.ofText, hread, entriesFrom_instructions]
  simp only [Nat.zero_add, Nat.add_comm 1]

theorem instructions_listing (h : ∀ i ∈ is, i.Loadable) (filename : String) :
    (Report.ofText filename (listing is)).instructions = is.mapIdx fun k i =>
      { i with location := ⟨filename, .ofNat (k + 1), some (.ofNat k)⟩ } := by
  rw [ofText_listing h, Report.instructions, List.mapIdx_eq_zipIdx_map, List.mapIdx_eq_zipIdx_map,
    List.filterMap_map]
  exact congrFun List.filterMap_eq_map' is.zipIdx

theorem diagnostics_listing (h : ∀ i ∈ is, i.Loadable) (filename : String) :
    (Report.ofText filename (listing is)).diagnostics = [] := by
  rw [ofText_listing h, Report.diagnostics, List.mapIdx_eq_zipIdx_map, List.filterMap_map]
  exact List.filterMap_eq_nil_iff.2 fun _ _ => rfl

theorem parts_listing (h : ∀ i ∈ is, i.Loadable) (filename : String) :
    (Report.ofText filename (listing is)).instructions.map parts = is.map parts := by
  rw [instructions_listing h]
  refine List.ext_getElem? fun k => ?_
  rw [List.getElem?_map, List.getElem?_mapIdx, List.getElem?_map, Option.map_map]
  rfl

theorem place_listing (h : ∀ i ∈ is, i.Loadable) (hlen : is.length < UInt32.size - 1)
    {filename : String} {k : Nat}
    (hi : (Report.ofText filename (listing is)).instructions[k]? = some i) :
    i.location.line.toNat = k + 1 ∧ i.location.index.map UInt64.toNat = some k := by
  rw [instructions_listing h, List.getElem?_mapIdx] at hi
  obtain ⟨i, hk, rfl⟩ := Option.map_eq_some_iff.1 hi
  have hlt := (List.getElem?_eq_some_iff.1 hk).1
  have hsizes : UInt32.size ≤ UInt64.size := by decide
  refine ⟨UInt32.toNat_ofNat_of_lt' (by omega), ?_⟩
  rw [Option.map_some, UInt64.toNat_ofNat_of_lt' (by omega)]

/-- What comes back was spelled, and then only parentheses can be missing. -/
theorem loadable_of_parts_listing (h : (ofText (listing is)).map parts = is.map parts) :
    ∀ i ∈ is, i.Loadable := by
  have hspelled : ∀ i ∈ is, i.Spelled := fun i hi => by
    obtain ⟨i', hi', heq⟩ := List.mem_map.1 (h ▸ List.mem_map_of_mem hi)
    exact (spelled_of_mem_ofText hi').of_parts_eq heq.symm
  have hread : (is.map reread).filterMap Record.parts? = is.map fun i =>
      (.ofTag (.ofList (trim (i.opcode.tag.toList.dropWhile isParenthesis))), i.a1, i.a2,
        .classify (.ofList (trim (stripEnd isParenthesis i.a3.text.toList)))) := by
    rw [List.filterMap_map]
    exact congrFun List.filterMap_eq_map' is
  rw [ofText, parts_ofText, ofLine_listing hspelled, hread] at h
  intro i hi
  refine (hspelled i hi).loadable_iff.1 ?_
  have hparts := List.map_inj_left.1 h i hi
  simp only [parts, Prod.mk.injEq] at hparts
  rw [reread, hparts.1, hparts.2.2.2]

end Written

/-- A list of instructions that is written with a record for each comes back with the same
operators and operands exactly if all of them are loadable. Then the report has no diagnostics, and
each instruction has its own line and index, as long as line numbers do not wrap. -/
theorem ofText_listing_iff (is : List Instruction) :
    ((ofText (listing is)).map parts = is.map parts ↔ ∀ i ∈ is, i.Loadable)
    ∧ ((∀ i ∈ is, i.Loadable) → is.length < UInt32.size - 1 → ∀ filename,
      (Report.ofText filename (listing is)).diagnostics = []
      ∧ (Report.ofText filename (listing is)).instructions.map parts = is.map parts
      ∧ ∀ (k : Nat) (i : Instruction),
        (Report.ofText filename (listing is)).instructions[k]? = some i →
          i.location.line.toNat = k + 1 ∧ i.location.index.map UInt64.toNat = some k) :=
  ⟨⟨loadable_of_parts_listing, fun h => parts_listing h _⟩, fun h hlen filename =>
    ⟨diagnostics_listing h filename, parts_listing h filename, fun _ _ => place_listing h hlen⟩⟩

/-- Parentheses in the middle, a carriage return inside a tag, an empty literal. -/
def oddTokens : List Instruction :=
  [.ofTokens "ASSIGN" "#" ")x" "", .ofTokens "a\rb" "(" "@p q" "(c"]

theorem ofText_listing_iff_oddTokens :
    ((∀ i ∈ oddTokens, i.Loadable) ∧ oddTokens.length < UInt32.size - 1)
    ∧ (ofText (listing oddTokens)).map parts = oddTokens.map parts
    ∧ (Report.ofText "odd.ir" (listing oddTokens)).diagnostics = [] := by
  have h : ∀ i ∈ oddTokens, i.Loadable := by decide
  have hlen : oddTokens.length < UInt32.size - 1 := by simp [oddTokens, UInt32.size]
  obtain ⟨hiff, hplaces⟩ := ofText_listing_iff oddTokens
  exact ⟨⟨h, hlen⟩, hiff.2 h, (hplaces h hlen "odd.ir").1⟩

/-- The last operand loses its parenthesis. -/
example : ofText (listing [.ofTokens "PRINT" "x" "" "f()"])
    = [⟨.print, .symbol "x", .empty, .symbol "f", ⟨"<input>", 1, some 0⟩⟩] := by decide

end Instruction

end ThreeAddress
