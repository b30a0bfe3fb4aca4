import ThreeAddress.Proofs.Reading

/-!
# Accounting for the lines of a text

Every line is blank, a record or malformed, and no line is two of these
(`LineClass.existsUnique_holds`). The report of a text is what its lines yield, one after the other
(`Record.entriesFrom_eq_flatMap`), and what a line yields is told by its class
(`LineClass.yields_entries`). So the numbers of lines, records and warnings agree, and an address
can be any text that does not move the tab behind it (`Report.lines_accounted`).
-/

namespace ThreeAddress

namespace Text

variable {p : Char → Bool} {c : Char} {cs l : List Char}

theorem trim_eq_nil_iff : trim cs = [] ↔ ∀ c ∈ cs, isBlank c = true := by
  rw [← List.dropWhile_eq_nil_iff, trim, strip, stripEnd, List.reverse_eq_nil_iff,
    List.dropWhile_eq_nil_iff]
  refine ⟨fun h => ?_, fun h => by simp [h]⟩
  rcases hd : cs.dropWhile isBlank with _ | ⟨b, bs⟩
  · rfl
  · have hb : isBlank b = true := h b (by simp [hd])
    have hnot := headNot_dropWhile isBlank cs b (by simp [hd])
    rw [hb] at hnot
    cases hnot

theorem trim_ne_nil_iff : trim cs ≠ [] ↔ ∃ c ∈ cs, isBlank c = false := by
  rw [ne_eq, trim_eq_nil_iff]
  simp

theorem length_splitOn (c : Char) (cs : List Char) : (cs.splitOn c).length = cs.count c + 1 := by
  induction cs with
  | nil => simp
  | cons b cs ih =>
    rw [List.splitOn_cons_eq_if_modifyHead, List.count_cons]
    split
    · rw [List.length_cons, ih]
    · rw [List.length_modifyHead, ih, Nat.add_zero]

theorem count_dropWhile (h : p c = false) (cs : List Char) :
    (cs.dropWhile p).count c = cs.count c := by
  induction cs with
  | nil => rfl
  | cons b cs ih =>
    rw [List.dropWhile_cons]
    split
    · next hb =>
      have hbc : ¬ (b == c) = true := fun hbc => by rw [beq_iff_eq.1 hbc, h] at hb; cases hb
      rw [ih, List.count_cons, if_neg hbc, Nat.add_zero]
    · rfl

theorem count_strip (h : p c = false) (cs : List Char) : (strip p cs).count c = cs.count c := by
  rw [strip, stripEnd, List.count_reverse, count_dropWhile h, List.count_reverse,
    count_dropWhile h]

theorem stripEnd_append (p : Char → Bool) (cs ds : List Char) : stripEnd p (cs ++ ds)
    = if stripEnd p ds = [] then stripEnd p cs else cs ++ stripEnd p ds := by
  simp only [stripEnd, List.reverse_append, List.dropWhile_append, List.isEmpty_iff,
    List.reverse_eq_nil_iff]
  split
  · rfl
  · rw [List.reverse_append, List.reverse_reverse]

theorem lines_eq_nil (h : lines cs = []) : cs = [] := by
  fun_cases lines cs with
  | case1 => rfl
  | case2 cs | case3 cs => cases h
  | case4 c cs hc hcr hlines | case5 c cs hc hcr line rest hlines =>
    rw [lines, hlines] at h
    · cases h
    · exact hc
    · exact hcr

/-- A text that ends with a line end has its own lines. -/
theorem lines_append (h : ∀ c ∈ cs.getLast?, c = '\n') (ds : List Char) :
    lines (cs ++ ds) = lines cs ++ lines ds := by
  have htail {c : Char} {cs : List Char} (h : ∀ d ∈ (c :: cs).getLast?, d = '\n') :
      ∀ d ∈ cs.getLast?, d = '\n' := fun d hd =>
    h d (by rw [List.getLast?_cons, Option.mem_def.1 hd]; rfl)
  fun_induction lines cs with
  | case1 => rfl
  | case2 cs ih => exact congrArg ([] :: ·) (ih (htail h))
  | case3 cs ih => exact congrArg ([] :: ·) (ih (htail (htail h)))
  | case4 c cs hc hcr hlines ih =>
    rw [lines_eq_nil hlines] at h
    exact absurd (h c rfl) hc
  | case5 c cs hc hcr line rest hlines ih =>
    rw [List.cons_append, lines, ih (htail h), hlines]
    · rfl
    · exact hc
    · rintro ds' rfl heq
      cases cs with
      | nil => cases hlines
      | cons d cs => exact hcr cs rfl (by rw [(List.cons.inj heq).1])

/-- What is before a tab stays on one line with it. -/
theorem lines_append_tab (h : '\n' ∉ l) (cs : List Char) : lines (l ++ '\t' :: cs)
    = (l ++ '\t' :: (lines cs).headD []) :: (lines cs).tail := by
  induction l with
  | nil =>
    rw [List.nil_append, lines]
    · rcases lines cs with _ | ⟨line, rest⟩ <;> rfl
    · decide
    · exact fun _ hc => absurd hc (by decide)
  | cons c l ih =>
    rw [List.cons_append, lines, ih fun hl => h (List.mem_cons_of_mem c hl)]
    · rfl
    · exact fun hc => h (hc ▸ List.mem_cons_self)
    · rintro rest rfl heq
      cases l with
      | nil => cases heq
      | cons d l => exact h (by simp [(List.cons.inj heq).1])

end Text

/-- What a line of a stream's text is. -/
inductive LineClass where
  | blank
  | record
  | malformed
  deriving DecidableEq, Repr

namespace LineClass

/-- A record has exactly one tab between the blanks at its ends. -/
def Holds : LineClass → List Char → Prop
  | .blank, line => ∀ c ∈ line, Text.isBlank c = true
  | .record, line => (Text.trim line).count '\t' = 1
  | .malformed, line => (∃ c ∈ line, Text.isBlank c = false) ∧ (Text.trim line).count '\t' ≠ 1

-- The instances are named, since a search may find one that ranges over all characters.
instance : ∀ (c : LineClass) (line : List Char), Decidable (c.Holds line)
  | .blank, line => List.decidableBAll _ line
  | .record, line => instDecidableEqNat ((Text.trim line).count '\t') 1
  | .malformed, line => @instDecidableAnd _ _ (List.decidableBEx _ line) inferInstance

theorem existsUnique_holds (line : List Char) : ∃! c : LineClass, c.Holds line := by
  have hblank : LineClass.blank.Holds line → (Text.trim line).count '\t' = 0 := fun h => by
    rw [Text.trim_eq_nil_iff.2 h, List.count_nil]
  by_cases hb : LineClass.blank.Holds line
  · refine ⟨.blank, hb, fun c hc => ?_⟩
    cases c with
    | blank => rfl
    | record => exact absurd ((hblank hb).symm.trans hc) (by decide)
    | malformed =>
      obtain ⟨c, hmem, hc⟩ := hc.1
      exact absurd ((hb c hmem).symm.trans hc) (by decide)
  have hvisible := Text.trim_ne_nil_iff.1 fun hnil => hb (Text.trim_eq_nil_iff.1 hnil)
  by_cases hr : LineClass.record.Holds line
  · refine ⟨.record, hr, fun c hc => ?_⟩
    cases c with
    | blank => exact absurd hc hb
    | record => rfl
    | malformed => exact absurd hr hc.2
  · refine ⟨.malformed, ⟨hvisible, hr⟩, fun c hc => ?_⟩
    cases c with
    | blank => exact absurd hc hb
    | record => exact absurd hc hr
    | malformed => rfl

end LineClass

namespace Record

variable {line body : List Char}

theorem length_tokens (body : List Char) : (tokens body).length = body.count ',' + 1 := by
  rw [tokens, List.length_map, Text.length_splitOn, Text.count_strip (by decide), Text.trim,
    Text.count_strip (by decide)]

theorem ofTokens_eq (ts : List (List Char)) :
    ∃ opcode a1 a2 a3, ofTokens ts = .instruction opcode a1 a2 a3 (ts.length - 4) :=
  ⟨_, _, _, _, rfl⟩

theorem ofLine_blank (h : LineClass.blank.Holds line) : ofLine line = .blank := by
  rw [ofLine, Text.trim_eq_nil_iff.2 h]

theorem ofLine_of_ne_nil (h : Text.trim line ≠ []) : ofLine line =
    match (Text.trim line).splitOn '\t' with
    | [_, body] => ofTokens (tokens body)
    | fields => .malformed fields.length := by
  unfold ofLine
  rcases hs : Text.trim line with _ | ⟨c, cs⟩
  · exact absurd hs h
  · rfl

/-- The text behind the tab is the body. -/
theorem ofLine_record (h : LineClass.record.Holds line) : ∃ address body,
    Text.trim line = address ++ '\t' :: body ∧ ofLine line = ofTokens (tokens body) := by
  have hlength := Text.length_splitOn '\t' (Text.trim line)
  rw [h] at hlength
  obtain ⟨address, body, hsplit⟩ := List.length_eq_two.1 hlength
  have hjoin : ['\t'].intercalate ((Text.trim line).splitOn '\t') = Text.trim line :=
    List.intercalate_splitOn '\t'
  refine ⟨address, body, ?_, ofLine_of_splitOn hsplit⟩
  rw [← hjoin, hsplit]
  simp

theorem ofLine_eq_blank_iff : ofLine line = .blank ↔ LineClass.blank.Holds line := by
  refine ⟨fun h => ?_, ofLine_blank⟩
  by_contra hb
  have hne : Text.trim line ≠ [] := fun hnil => hb (Text.trim_eq_nil_iff.1 hnil)
  rw [ofLine_of_ne_nil hne] at h
  split at h <;> cases h

theorem ofLine_malformed (h : LineClass.malformed.Holds line) :
    ofLine line = .malformed ((Text.trim line).count '\t' + 1) := by
  have hlength := Text.length_splitOn '\t' (Text.trim line)
  rw [ofLine_of_ne_nil (Text.trim_ne_nil_iff.2 h.1)]
  split
  · next hsplit =>
    rw [hsplit] at hlength
    exact absurd (Nat.succ.inj hlength).symm h.2
  · rw [hlength]

end Record

/-- The place has this file name, line and index. -/
structure Location.Is (place : Location) (filename : String) (line : Nat) (index : Option Nat) :
    Prop where
  filename_eq : place.filename = filename
  line_eq : place.line.toNat = line
  index_eq : place.index.map UInt64.toNat = index

namespace Location

variable {filename : String} {line index : Nat}

theorem is_line (h : line < UInt32.size) : Is ⟨filename, .ofNat line, none⟩ filename line none :=
  ⟨rfl, UInt32.toNat_ofNat_of_lt' h, rfl⟩

theorem is_indexed (h : line < UInt32.size) (h' : index < UInt64.size) :
    Is ⟨filename, .ofNat line, some (.ofNat index)⟩ filename line (some index) :=
  ⟨rfl, UInt32.toNat_ofNat_of_lt' h, congrArg some (UInt64.toNat_ofNat_of_lt' h')⟩

end Location

/-- What a line of a class yields when it has this number and comes after so many instructions. -/
def LineClass.Yields (filename : String) (number index : Nat) (line : List Char) (es : List Entry) :
    LineClass → Prop
  | .blank => es = []
  | .record => ∃ address body i, Text.trim line = address ++ '\t' :: body
    ∧ (Record.ofTokens (Record.tokens body)).parts? = some i.parts
    ∧ i.location.Is filename number (some index)
    ∧ if 4 ≤ body.count ',' then ∃ place, place.Is filename number none
        ∧ es = [.diagnosed ⟨.note,
            "ignoring " ++ toString (body.count ',' - 3) ++ " operand(s) past a3", place⟩,
          .loaded index i]
      else es = [.loaded index i]
  | .malformed => ∃ place, place.Is filename number none ∧ es = [.diagnosed ⟨.warning,
    "skipping record: expected 2 tab-separated fields, found "
      ++ toString ((Text.trim line).count '\t' + 1), place⟩]

/-- An instruction with these parts, from this place. -/
def Instruction.ofParts (place : Location) :
    Opcode × Operand × Operand × Operand → Instruction
  | (opcode, a1, a2, a3) => ⟨opcode, a1, a2, a3, place⟩

namespace Record

variable {line : List Char} {filename : String} {number index k : Nat} {rs : List Record}
  {i : Instruction}

theorem entries_instruction (opcode : Opcode) (a1 a2 a3 : Operand) (surplus : Nat) :
    entries filename number index (.instruction opcode a1 a2 a3 surplus)
      = (if surplus = 0 then []
        else [.diagnosed ⟨.note, surplusMessage surplus, ⟨filename, .ofNat number, none⟩⟩])
        ++ [.loaded index ⟨opcode, a1, a2, a3,
          ⟨filename, .ofNat number, some (.ofNat index)⟩⟩] := by
  rw [entries]
  split <;> rfl

/-- The step: what a line yields is told by its class. -/
theorem yields_entries (hnumber : number < UInt32.size) (hindex : index < UInt64.size)
    {c : LineClass} (h : c.Holds line) :
    c.Yields filename number index line ((ofLine line).entries filename number index) := by
  cases c with
  | blank => rw [ofLine_blank h]; rfl
  | record =>
    obtain ⟨address, body, htrim, hof⟩ := ofLine_record h
    obtain ⟨opcode, a1, a2, a3, htokens⟩ := ofTokens_eq (tokens body)
    rw [length_tokens] at htokens
    refine ⟨address, body, ⟨opcode, a1, a2, a3, ⟨filename, .ofNat number, some (.ofNat index)⟩⟩,
      htrim, by rw [htokens]; rfl, Location.is_indexed hnumber hindex, ?_⟩
    rw [hof, htokens, entries_instruction]
    by_cases hmany : 4 ≤ body.count ','
    · rw [if_pos hmany, if_neg (by omega)]
      exact ⟨_, Location.is_line hnumber, rfl⟩
    · rw [if_neg hmany, if_pos (by omega)]
      rfl
  | malformed =>
    rw [ofLine_malformed h]
    exact ⟨_, Location.is_line hnumber, rfl⟩

theorem isSome_parts?_ofLine (line : List Char) :
    (ofLine line).parts?.isSome = true ↔ LineClass.record.Holds line := by
  refine ⟨fun h => ?_, fun h => ?_⟩
  · obtain ⟨c, hc, -⟩ := LineClass.existsUnique_holds line
    cases c with
    | blank =>
      rw [ofLine_blank hc] at h
      cases h
    | record => exact hc
    | malformed =>
      rw [ofLine_malformed hc] at h
      cases h
  · obtain ⟨address, body, -, hof⟩ := ofLine_record h
    rw [hof]
    rfl

theorem countP_ofLine (ls : List (List Char)) :
    (ls.map ofLine).countP (·.parts?.isSome) = ls.countP fun l => LineClass.record.Holds l := by
  rw [List.countP_map]
  exact List.countP_congr fun l _ => by simpa using isSome_parts?_ofLine l

theorem count_eq (r : Record) : r.count = if r.parts?.isSome then 1 else 0 := by
  cases r <;> rfl

/-- The records of a text yield their entries one after the other. -/
theorem entriesFrom_eq_flatMap (filename : String) (number index : Nat) (rs : List Record) :
    entriesFrom filename number index rs = (List.range rs.length).flatMap fun k =>
      (rs.getD k .blank).entries filename (number + k)
        (index + (rs.take k).countP (·.parts?.isSome)) := by
  induction rs generalizing number index with
  | nil => rfl
  | cons r rs ih =>
    rw [entriesFrom, ih, List.length_cons, List.range_succ_eq_map, List.flatMap_cons,
      List.flatMap_map]
    simp only [List.getD_cons_zero, List.getD_cons_succ, List.take_zero, List.take_succ_cons,
      List.countP_nil, List.countP_cons, Nat.add_zero, Nat.add_assoc, Nat.add_comm 1,
      Nat.add_comm (List.countP _ _), count_eq]

section Run

theorem instructions_entries (filename : String) (number index : Nat) (r : Record) :
    (r.entries filename number index).filterMap Entry.instruction?
      = r.parts?.toList.map (.ofParts ⟨filename, .ofNat number, some (.ofNat index)⟩) := by
  cases r with
  | blank | malformed fields => rfl
  | instruction opcode a1 a2 a3 surplus =>
    rw [entries_instruction]
    split <;> rfl

theorem countP_diagnostics_entries (filename : String) (number index : Nat) (r : Record) :
    ((r.entries filename number index).filterMap Entry.diagnostic?).countP (·.severity = .warning)
      = if r = .blank then 0 else 1 - r.count := by
  cases r with
  | blank | malformed fields => rfl
  | instruction opcode a1 a2 a3 surplus =>
    rw [entries_instruction]
    split <;> rfl

theorem length_parts? (r : Record) : r.parts?.toList.length = r.count := by
  cases r <;> rfl

/-- Every record that is not blank gives an instruction or a warning. -/
theorem length_entriesFrom (filename : String) (number index : Nat) (rs : List Record) :
    ((entriesFrom filename number index rs).filterMap Entry.instruction?).length
      + ((entriesFrom filename number index rs).filterMap Entry.diagnostic?).countP
        (·.severity = .warning) = rs.countP (· ≠ .blank) := by
  induction rs generalizing number index with
  | nil => rfl
  | cons r rs ih =>
    rw [entriesFrom, List.filterMap_append, List.filterMap_append, List.length_append,
      List.countP_append, List.countP_cons, instructions_entries, List.length_map, length_parts?,
      countP_diagnostics_entries, ← ih (number + 1) (index + r.count)]
    cases r <;> simp [count] <;> omega

theorem index_entriesFrom
    (h : ((entriesFrom filename number index rs).filterMap Entry.instruction?)[k]? = some i) :
    i.location.index = some (.ofNat (index + k)) := by
  induction rs generalizing number index k with
  | nil => cases h
  | cons r rs ih =>
    rw [entriesFrom, List.filterMap_append, instructions_entries] at h
    rcases hparts : r.parts? with _ | parts
    · rw [hparts] at h
      have hcount : r.count = 0 := by rw [← length_parts?, hparts]; rfl
      rw [hcount, Nat.add_zero] at h
      exact ih h
    · rw [hparts] at h
      have hcount : r.count = 1 := by rw [← length_parts?, hparts]; rfl
      cases k with
      | zero =>
        cases h
        rfl
      | succ k =>
        have hrest := ih (List.getElem?_cons_succ.symm.trans h)
        rw [hrest, hcount, Nat.add_assoc, Nat.add_comm 1]

/-- Later instructions come from later lines. -/
theorem lines_entriesFrom (filename : String) (number index : Nat)
    (h : number + rs.length ≤ UInt32.size) :
    (∀ i ∈ (entriesFrom filename number index rs).filterMap Entry.instruction?,
      number ≤ i.location.line.toNat)
    ∧ ((entriesFrom filename number index rs).filterMap Entry.instruction?).Pairwise
      fun i j => i.location.line < j.location.line := by
  induction rs generalizing number index with
  | nil => exact ⟨fun i hi => (List.not_mem_nil hi).elim, .nil⟩
  | cons r rs ih =>
    rw [List.length_cons] at h
    obtain ⟨hle, hpairwise⟩ := ih (number + 1) (index + r.count) (by omega)
    have hhere : ∀ i ∈ r.parts?.toList.map
        (Instruction.ofParts ⟨filename, .ofNat number, some (.ofNat index)⟩),
        i.location.line.toNat = number := fun i hi => by
      obtain ⟨parts, -, rfl⟩ := List.mem_map.1 hi
      exact UInt32.toNat_ofNat_of_lt' (by omega)
    rw [entriesFrom, List.filterMap_append, instructions_entries]
    refine ⟨fun i hi => ?_, List.pairwise_append.2 ⟨?_, hpairwise, fun i hi j hj => ?_⟩⟩
    · rcases List.mem_append.1 hi with hi | hi
      · exact Nat.le_of_eq (hhere i hi).symm
      · exact Nat.le_of_succ_le (hle i hi)
    · cases r.parts? <;> simp
    · rw [UInt32.lt_iff_toNat_lt, hhere i hi]
      exact hle j hj

theorem index_of_mem_diagnostics {d : Diagnostic}
    (h : d ∈ (entriesFrom filename number index rs).filterMap Entry.diagnostic?) :
    d.location.index = none := by
  induction rs generalizing number index with
  | nil => cases h
  | cons r rs ih =>
    rw [entriesFrom, List.filterMap_append] at h
    rcases List.mem_append.1 h with h | h
    · cases r with
      | blank => cases h
      | malformed fields =>
        cases List.mem_singleton.1 h
        rfl
      | instruction opcode a1 a2 a3 surplus =>
        rw [entries_instruction] at h
        split at h
        · cases h
        · cases List.mem_singleton.1 h
          rfl
    · exact ih h

end Run

/-- A text that can stand before the tab of a record. -/
structure IsAddress (cs : List Char) : Prop where
  visible : ∃ c ∈ cs, Text.isBlank c = false
  tab : '\t' ∉ cs
  newline : '\n' ∉ cs

variable {blanks address address' : List Char}

/-- No address loses its tab to the blanks around it, unless nothing is behind the tab. -/
theorem IsAddress.trim_append (h : IsAddress address)
    (hblanks : ∀ c ∈ blanks, Text.isBlank c = true) (cs : List Char) :
    ∃ u, u ≠ [] ∧ '\t' ∉ u
      ∧ Text.trim (blanks ++ address ++ cs) = u ++ Text.stripEnd Text.isBlank cs := by
  have hne := Text.trim_ne_nil_iff.2 h.visible
  have hdrop : address.dropWhile Text.isBlank ≠ [] := fun hnil =>
    hne (by rw [Text.trim, Text.strip, hnil]; rfl)
  have htab : '\t' ∉ address.dropWhile Text.isBlank := fun hc =>
    h.tab ((List.dropWhile_suffix _).subset hc)
  rw [Text.trim, Text.strip, List.append_assoc, List.dropWhile_append_of_pos hblanks,
    List.dropWhile_append, if_neg (by simpa using hdrop), Text.stripEnd_append]
  split
  · next hend =>
    have hsub : Text.trim address ⊆ address := (Text.strip_sublist _ _).subset
    refine ⟨Text.trim address, hne, fun hc => h.tab (hsub hc), ?_⟩
    rw [hend, List.append_nil]
    rfl
  · exact ⟨_, hdrop, htab, rfl⟩

/-- The fields behind the first tab do not depend on the address. -/
theorem splitOn_address (cs : List Char) : ∃ fields, ∀ blanks address,
    (∀ c ∈ blanks, Text.isBlank c = true) → IsAddress address →
      ∃ u, (Text.trim (blanks ++ address ++ '\t' :: cs)).splitOn '\t' = u :: fields
        ∧ Text.trim (blanks ++ address ++ '\t' :: cs) ≠ [] := by
  have hprefix := Text.stripEnd_isPrefix Text.isBlank ('\t' :: cs)
  rcases hend : Text.stripEnd Text.isBlank ('\t' :: cs) with _ | ⟨c, kept⟩
  · refine ⟨[], fun blanks address hblanks h => ?_⟩
    obtain ⟨u, hu, htab, htrim⟩ := h.trim_append hblanks ('\t' :: cs)
    rw [htrim, hend, List.append_nil]
    exact ⟨u, List.splitOn_eq_singleton htab, hu⟩
  · rw [hend] at hprefix
    obtain ⟨rfl, -⟩ := List.cons_prefix_cons.1 hprefix
    refine ⟨kept.splitOn '\t', fun blanks address hblanks h => ?_⟩
    obtain ⟨u, hu, htab, htrim⟩ := h.trim_append hblanks ('\t' :: cs)
    rw [htrim, hend]
    exact ⟨u, List.splitOn_append_cons_self_of_not_mem htab kept, by simp [hu]⟩

theorem ofLine_address (hblanks : ∀ c ∈ blanks, Text.isBlank c = true) (h : IsAddress address)
    (h' : IsAddress address') (cs : List Char) :
    ofLine (blanks ++ address' ++ '\t' :: cs) = ofLine (blanks ++ address ++ '\t' :: cs) := by
  obtain ⟨fields, hfields⟩ := splitOn_address cs
  obtain ⟨u, hsplit, hne⟩ := hfields blanks address hblanks h
  obtain ⟨u', hsplit', hne'⟩ := hfields blanks address' hblanks h'
  rw [ofLine_of_ne_nil hne, ofLine_of_ne_nil hne', hsplit, hsplit']
  rcases fields with _ | ⟨body, _ | _⟩ <;> rfl

end Record

namespace Report

variable {filename text : String}

theorem length_add_skipped (filename text : String) :
    (ofText filename text).instructions.length + (ofText filename text).skipped
      = (Text.lines text.toList).countP fun l => ¬ LineClass.blank.Holds l := by
  rw [instructions, skipped, diagnostics, ofText, Record.length_entriesFrom, List.countP_map]
  refine List.countP_congr fun l _ => ?_
  simp [Record.ofLine_eq_blank_iff]

theorem yields_ofText (h : (Text.lines text.toList).length < UInt32.size - 1) :
    ∃ yield : Nat → List Entry,
      (ofText filename text).entries
        = (List.range (Text.lines text.toList).length).flatMap yield
      ∧ ∀ (k : Nat) (line : List Char) (c : LineClass),
        (Text.lines text.toList)[k]? = some line → c.Holds line →
          c.Yields filename (k + 1)
            (((Text.lines text.toList).take k).countP fun l => LineClass.record.Holds l) line
            (yield k) := by
  rw [ofText, Record.entriesFrom_eq_flatMap, List.length_map]
  refine ⟨_, rfl, fun k line c hline hc => ?_⟩
  have hk := (List.getElem?_eq_some_iff.1 hline).1
  have hsizes : UInt32.size ≤ UInt64.size := by decide
  have hcount : ((Text.lines text.toList).take k).countP (fun l => LineClass.record.Holds l) ≤ k :=
    List.countP_le_length.trans (List.length_take_le k _)
  rw [← List.map_take, Record.countP_ofLine, List.getD_eq_getElem?_getD, List.getElem?_map,
    hline, Nat.zero_add, Nat.add_comm 1]
  exact Record.yields_entries (by omega) (by omega) hc

/-- No address is looked at. -/
theorem ofText_address {before blanks address address' rest : List Char}
    (hbefore : ∀ c ∈ before.getLast?, c = '\n')
    (hblanks : ∀ c ∈ blanks, Text.isBlank c = true ∧ c ≠ '\n') (h : Record.IsAddress address)
    (h' : Record.IsAddress address')
    (htext : text.toList = before ++ (blanks ++ address ++ '\t' :: rest)) :
    ofText filename (.ofList (before ++ (blanks ++ address' ++ '\t' :: rest)))
      = ofText filename text := by
  have hline {cs : List Char} (hcs : Record.IsAddress cs) : '\n' ∉ blanks ++ cs := fun hc => by
    rcases List.mem_append.1 hc with hc | hc
    · exact (hblanks _ hc).2 rfl
    · exact hcs.newline hc
  rw [ofText, ofText, String.toList_ofList, htext, Text.lines_append hbefore,
    Text.lines_append hbefore, Text.lines_append_tab (hline h), Text.lines_append_tab (hline h'),
    List.map_append, List.map_append, List.map_cons, List.map_cons,
    Record.ofLine_address (fun c hc => (hblanks c hc).1) h h']

/-- Each line has one class, and what the report has is what the lines of these classes yield. -/
theorem lines_accounted (filename text : String)
    (h : (Text.lines text.toList).length < UInt32.size - 1) :
    (∀ line : List Char, ∃! c : LineClass, c.Holds line)
    ∧ (∃ yield : Nat → List Entry,
      (ofText filename text).entries
        = (List.range (Text.lines text.toList).length).flatMap yield
      ∧ ∀ (k : Nat) (line : List Char) (c : LineClass),
        (Text.lines text.toList)[k]? = some line → c.Holds line →
          c.Yields filename (k + 1)
            (((Text.lines text.toList).take k).countP fun l => LineClass.record.Holds l) line
            (yield k))
    ∧ (ofText filename text).instructions.length + (ofText filename text).skipped
      = (Text.lines text.toList).countP (fun l => ¬ LineClass.blank.Holds l)
    ∧ (∀ (k : Nat) (i : Instruction), (ofText filename text).instructions[k]? = some i →
      i.location.index.map UInt64.toNat = some k)
    ∧ (ofText filename text).instructions.Pairwise (fun i j => i.location.line < j.location.line)
    ∧ (∀ d ∈ (ofText filename text).diagnostics, d.location.index = none)
    ∧ ∀ before blanks address address' rest : List Char, (∀ c ∈ before.getLast?, c = '\n') →
      (∀ c ∈ blanks, Text.isBlank c = true ∧ c ≠ '\n') → Record.IsAddress address →
      Record.IsAddress address' →
      text.toList = before ++ (blanks ++ address ++ '\t' :: rest) →
        ofText filename (.ofList (before ++ (blanks ++ address' ++ '\t' :: rest)))
          = ofText filename text := by
  have hsizes : UInt32.size ≤ UInt64.size := by decide
  refine ⟨LineClass.existsUnique_holds, yields_ofText h, length_add_skipped filename text,
    fun k i hi => ?_, ?_, fun d => Record.index_of_mem_diagnostics,
    fun before blanks address address' rest => ofText_address⟩
  · have hk := (List.getElem?_eq_some_iff.1 hi).1
    have hcount := length_add_skipped filename text
    have hle : (Text.lines text.toList).countP (fun l => ¬ LineClass.blank.Holds l) ≤ _ :=
      List.countP_le_length
    rw [Record.index_entriesFrom hi, Nat.zero_add, Option.map_some,
      UInt64.toNat_ofNat_of_lt' (by omega)]
  · refine (Record.lines_entriesFrom filename 1 0 ?_).2
    rw [List.length_map]
    omega

/-- A blank line with tabs in it, a record with two operands too many, and an address alone. -/
def mixedText : String := "\t \t\n 12\tASSIGN x, y, , a, b\r\n13\t\r\n"

theorem lines_accounted_mixedText :
    (Text.lines mixedText.toList).length < UInt32.size - 1
    ∧ (ofText "m.ir" mixedText).instructions.length + (ofText "m.ir" mixedText).skipped = 2
    ∧ (ofText "m.ir" mixedText).diagnostics.map (fun d => d.location.text ++ ": " ++ d.message)
      = ["m.ir:2: ignoring 1 operand(s) past a3",
        "m.ir:3: skipping record: expected 2 tab-separated fields, found 1"]
    ∧ ofText "m.ir" "\t \t\n x y\tASSIGN x, y, , a, b\r\n13\t\r\n" = ofText "m.ir" mixedText := by
  have h : (Text.lines mixedText.toList).length < UInt32.size - 1 := by decide
  obtain ⟨-, -, hcount, -, -, -, haddress⟩ := lines_accounted "m.ir" mixedText h
  refine ⟨h, hcount.trans (by decide), by decide +kernel, ?_⟩
  exact haddress "\t \t\n".toList [' '] "12".toList "x y".toList
    "ASSIGN x, y, , a, b\r\n13\t\r\n".toList (by rintro c ⟨⟩; rfl)
    (List.forall_mem_singleton.2 ⟨rfl, by decide⟩)
    ⟨⟨'1', by decide, rfl⟩, by decide, by decide⟩ ⟨⟨'x', by decide, rfl⟩, by decide, by decide⟩
    (by decide)

end Report

end ThreeAddress
