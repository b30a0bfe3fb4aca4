import ThreeAddress.Proofs.Accounting

/-!
# Texts that are joined

Reading drops the blanks at the end of a line, so the lines of a text may as well be taken to be its
pieces between newlines: carriage returns at their ends do not count, nor does an empty piece behind
the last newline (`Report.entries_ofText`). Pieces are split where the texts are joined. So two
texts with a newline between are read one after the other, the second as it is read alone but for
the numbers of its lines and instructions (`Report.ofText_joined`).
-/

namespace ThreeAddress

namespace Text

variable {p : Char → Bool} {c : Char} {cs : List Char}

theorem stripEnd_stripEnd (p : Char → Bool) (cs : List Char) :
    stripEnd p (stripEnd p cs) = stripEnd p cs :=
  stripEnd_eq_self (lastNot_stripEnd p cs)

theorem stripEnd_cons_eq (p : Char → Bool) (c : Char) (cs : List Char) : stripEnd p (c :: cs)
    = if stripEnd p cs = [] then stripEnd p [c] else c :: stripEnd p cs :=
  stripEnd_append p [c] cs

theorem stripEnd_cons_stripEnd (p : Char → Bool) (c : Char) (cs : List Char) :
    stripEnd p (c :: stripEnd p cs) = stripEnd p (c :: cs) := by
  rw [stripEnd_cons_eq p c (stripEnd p cs), stripEnd_stripEnd, ← stripEnd_cons_eq]

theorem strip_stripEnd (p : Char → Bool) (cs : List Char) :
    strip p (stripEnd p cs) = strip p cs := by
  induction cs with
  | nil => rfl
  | cons c cs ih =>
    by_cases hc : p c = true
    · rw [strip_cons hc, ← ih, stripEnd_cons_eq]
      split
      · next hnil =>
        have hblank : stripEnd p [c] = [] := stripEnd_concat hc []
        rw [hnil, hblank]
      · rw [strip_cons hc]
    · rw [Bool.not_eq_true] at hc
      rw [stripEnd_cons hc, strip, strip, dropWhile_eq_self (headNot_cons hc _),
        dropWhile_eq_self (headNot_cons hc _), stripEnd_cons_stripEnd]

/-- The pieces of a text between newlines, without the blanks at their ends. -/
def rows (cs : List Char) : List (List Char) :=
  (cs.splitOn '\n').map (stripEnd isBlank)

theorem rows_newline (cs : List Char) : rows ('\n' :: cs) = [] :: rows cs := by
  rw [rows, List.splitOn_cons_eq_if_modifyHead, if_pos (beq_self_eq_true _), List.map_cons, rows]
  rfl

theorem rows_cons (hc : c ≠ '\n') (cs : List Char) :
    rows (c :: cs) = (rows cs).modifyHead fun l => stripEnd isBlank (c :: l) := by
  rw [rows, List.splitOn_cons_eq_if_modifyHead, if_neg (by simpa using hc), rows]
  cases cs.splitOn '\n' with
  | nil => rfl
  | cons l ls => simp only [List.modifyHead_cons, List.map_cons, stripEnd_cons_stripEnd]

/-- A carriage return before a newline is blank. -/
theorem rows_return (cs : List Char) : rows ('\r' :: '\n' :: cs) = rows ('\n' :: cs) := by
  rw [rows_cons (by decide), rows_newline]
  rfl

theorem length_rows (cs : List Char) : (rows cs).length = cs.count '\n' + 1 := by
  rw [rows, List.length_map, length_splitOn]

/-- The rows are the lines without their blanks, and perhaps an empty one behind the last
newline. -/
theorem rows_eq_lines (cs : List Char) : rows cs = (lines cs).map (stripEnd isBlank)
    ∨ rows cs = (lines cs).map (stripEnd isBlank) ++ [[]] := by
  fun_induction lines cs with
  | case1 => exact .inr rfl
  | case2 cs ih =>
    rw [rows_newline]
    exact ih.imp (congrArg ([] :: ·)) (congrArg ([] :: ·))
  | case3 cs ih =>
    rw [rows_return, rows_newline]
    exact ih.imp (congrArg ([] :: ·)) (congrArg ([] :: ·))
  | case4 c cs hc hcr hlines ih =>
    rw [lines_eq_nil hlines, rows_cons hc]
    exact .inl rfl
  | case5 c cs hc hcr line rest hlines ih =>
    rw [hlines, List.map_cons] at ih
    rw [rows_cons hc, List.map_cons, ← stripEnd_cons_stripEnd]
    exact ih.imp (fun h => by rw [h]; rfl) (fun h => by rw [h]; rfl)

theorem count_newline_le (cs : List Char) : cs.count '\n' ≤ (lines cs).length := by
  have hlength := length_rows cs
  rcases rows_eq_lines cs with h | h <;> rw [h] at hlength <;> simp at hlength <;> omega

/-- Each newline with a carriage return in front. -/
def withReturns (cs : List Char) : List Char :=
  cs.flatMap fun c => if c = '\n' then ['\r', '\n'] else [c]

theorem rows_withReturns (cs : List Char) : rows (withReturns cs) = rows cs := by
  induction cs with
  | nil => rfl
  | cons c cs ih =>
    rw [withReturns, List.flatMap_cons, ← withReturns]
    split
    · next hc =>
      subst hc
      show rows ('\r' :: '\n' :: withReturns cs) = _
      rw [rows_return, rows_newline, rows_newline, ih]
    · next hc => rw [List.singleton_append, rows_cons hc, rows_cons hc, ih]

end Text

/-- So many lines and instructions further on. -/
def Location.moved (lines indices : Nat) (place : Location) : Location :=
  { place with
    line := place.line + .ofNat lines
    index := place.index.map (· + .ofNat indices) }

def Instruction.moved (lines indices : Nat) (i : Instruction) : Instruction :=
  { i with location := i.location.moved lines indices }

def Diagnostic.moved (lines indices : Nat) (d : Diagnostic) : Diagnostic :=
  { d with location := d.location.moved lines indices }

namespace Entry

def moved (lines indices : Nat) : Entry → Entry
  | .loaded index i => .loaded (index + indices) (i.moved lines indices)
  | .diagnosed d => .diagnosed (d.moved lines indices)

def location : Entry → Location
  | .loaded _ i => i.location
  | .diagnosed d => d.location

/-- What is picked out of moved entries is what is picked out of the entries, moved. -/
theorem filterMap_moved {α : Type} {f : Entry → Option α} {g : α → α} {lines indices : Nat}
    (h : ∀ e, f (moved lines indices e) = (f e).map g) (es : List Entry) :
    (es.map (moved lines indices)).filterMap f = (es.filterMap f).map g := by
  rw [List.filterMap_map, List.map_filterMap]
  exact List.filterMap_congr fun e _ => h e

end Entry

namespace Record

variable {filename : String} {number index : Nat} {rs : List Record} {e : Entry}

theorem ofLine_stripEnd (l : List Char) : ofLine (Text.stripEnd Text.isBlank l) = ofLine l := by
  rw [ofLine, ofLine, Text.trim, Text.trim, Text.strip_stripEnd]

theorem map_ofLine_stripEnd (ls : List (List Char)) :
    (ls.map (Text.stripEnd Text.isBlank)).map ofLine = ls.map ofLine := by
  rw [List.map_map]
  exact List.map_congr_left fun l _ => ofLine_stripEnd l

theorem map_ofLine_rows (cs : List Char) :
    (Text.rows cs).map ofLine = (cs.splitOn '\n').map ofLine :=
  map_ofLine_stripEnd _

theorem entriesFrom_append (filename : String) (number index : Nat) (rs qs : List Record) :
    entriesFrom filename number index (rs ++ qs) = entriesFrom filename number index rs
      ++ entriesFrom filename (number + rs.length) (index + rs.countP (·.parts?.isSome)) qs := by
  induction rs generalizing number index with
  | nil => rfl
  | cons r rs ih =>
    rw [List.cons_append, entriesFrom, entriesFrom, ih, List.append_assoc, List.length_cons,
      List.countP_cons, count_eq, Nat.add_assoc number, Nat.add_comm 1, Nat.add_assoc index,
      Nat.add_comm (List.countP _ _)]

theorem entriesFrom_concat_blank (filename : String) (number index : Nat) (rs : List Record) :
    entriesFrom filename number index (rs ++ [.blank]) = entriesFrom filename number index rs := by
  rw [entriesFrom_append]
  exact List.append_nil _

theorem entries_moved (filename : String) (number index lines indices : Nat) (r : Record) :
    r.entries filename (number + lines) (index + indices)
      = (r.entries filename number index).map (Entry.moved lines indices) := by
  cases r with
  | blank => rfl
  | malformed fields =>
    simp only [entries, List.map_cons, List.map_nil, Entry.moved, Diagnostic.moved, Location.moved,
      UInt32.ofNat_add, Option.map_none]
  | instruction opcode a1 a2 a3 surplus =>
    rw [entries_instruction, entries_instruction]
    split <;> simp only [List.map_append, List.map_cons, List.map_nil, Entry.moved,
      Instruction.moved, Diagnostic.moved, Location.moved, UInt32.ofNat_add, UInt64.ofNat_add,
      Option.map_none, Option.map_some]

theorem entriesFrom_moved (filename : String) (number index lines indices : Nat)
    (rs : List Record) : entriesFrom filename (number + lines) (index + indices) rs
      = (entriesFrom filename number index rs).map (Entry.moved lines indices) := by
  induction rs generalizing number index with
  | nil => rfl
  | cons r rs ih =>
    rw [entriesFrom, entriesFrom, List.map_append, ← entries_moved, ← ih, Nat.add_right_comm,
      Nat.add_right_comm index]

/-- An entry of the report is from a line of the text, and no more instructions than lines come
before it. -/
theorem location_of_mem_entriesFrom (h : e ∈ entriesFrom filename number index rs) :
    ∃ k, k < rs.length ∧ e.location.line = .ofNat (number + k)
      ∧ ∀ j ∈ e.location.index, ∃ m ≤ k, j = .ofNat (index + m) := by
  rw [entriesFrom_eq_flatMap] at h
  obtain ⟨k, hk, he⟩ := List.mem_flatMap.1 h
  have hcount : (rs.take k).countP (·.parts?.isSome) ≤ k :=
    List.countP_le_length.trans (List.length_take_le k _)
  refine ⟨k, List.mem_range.1 hk, ?_⟩
  cases hr : rs.getD k .blank with
  | blank =>
    rw [hr] at he
    cases he
  | malformed fields =>
    rw [hr] at he
    cases List.mem_singleton.1 he
    exact ⟨rfl, fun j hj => nomatch hj⟩
  | instruction opcode a1 a2 a3 surplus =>
    rw [hr, entries_instruction] at he
    split at he
    · cases List.mem_singleton.1 he
      exact ⟨rfl, fun j hj => ⟨_, hcount, (Option.some.inj hj).symm⟩⟩
    · rcases List.mem_cons.1 he with rfl | he
      · exact ⟨rfl, fun j hj => nomatch hj⟩
      · cases List.mem_singleton.1 he
        exact ⟨rfl, fun j hj => ⟨_, hcount, (Option.some.inj hj).symm⟩⟩

end Record

namespace Report

variable {filename : String} {s t : String}

theorem ext_entries {r r' : Report} (h : r.entries = r'.entries) : r = r' := congrArg mk h

/-- The lines of a text may be taken to be its pieces between newlines. -/
theorem entries_ofText (filename text : String) : (ofText filename text).entries
    = Record.entriesFrom filename 1 0 ((text.toList.splitOn '\n').map Record.ofLine) := by
  rw [← Record.map_ofLine_rows, ofText, ← Record.map_ofLine_stripEnd (Text.lines text.toList)]
  rcases Text.rows_eq_lines text.toList with h | h
  · rw [h]
  · rw [h, List.map_append]
    exact (Record.entriesFrom_concat_blank _ _ _ _).symm

theorem exists_entry {r : Report} {place : Location}
    (h : place ∈ r.instructions.map (·.location) ++ r.diagnostics.map (·.location)) :
    ∃ e ∈ r.entries, e.location = place := by
  rcases List.mem_append.1 h with h | h
  · obtain ⟨i, hi, rfl⟩ := List.mem_map.1 h
    obtain ⟨e, he, heq⟩ := List.mem_filterMap.1 hi
    cases e with
    | loaded index j =>
      cases heq
      exact ⟨_, he, rfl⟩
    | diagnosed d => cases heq
  · obtain ⟨d, hd, rfl⟩ := List.mem_map.1 h
    obtain ⟨e, he, heq⟩ := List.mem_filterMap.1 hd
    cases e with
    | loaded index j => cases heq
    | diagnosed d' =>
      cases heq
      exact ⟨_, he, rfl⟩

theorem length_instructions (filename text : String) : (ofText filename text).instructions.length
    = ((text.toList.splitOn '\n').map Record.ofLine).countP (·.parts?.isSome) := by
  rw [instructions, entries_ofText, ← List.length_map (f := Instruction.parts),
    Record.parts_entriesFrom, List.length_filterMap_eq_countP]

theorem entries_joined (filename s t : String) : (ofText filename (s ++ "\n" ++ t)).entries
    = (ofText filename s).entries ++ (ofText filename t).entries.map
      (Entry.moved (s.toList.count '\n' + 1) (ofText filename s).instructions.length) := by
  have hlength : ((s.toList.splitOn '\n').map Record.ofLine).length = s.toList.count '\n' + 1 := by
    rw [List.length_map, Text.length_splitOn]
  have hchars : (s ++ "\n" ++ t).toList = s.toList ++ '\n' :: t.toList := by
    rw [String.toList_append, String.toList_append, List.append_assoc]
    rfl
  rw [entries_ofText, entries_ofText, entries_ofText, length_instructions, hchars,
    List.splitOn_append_cons_self, List.map_append, Record.entriesFrom_append,
    ← Record.entriesFrom_moved, hlength]

/-- The numbers of the second text do not wrap when the joined text has few enough lines. -/
theorem moved_exact {e : Entry}
    (h : (Text.lines (s ++ "\n" ++ t).toList).length < UInt32.size - 1)
    (he : e ∈ (ofText filename t).entries) :
    (e.location.moved (s.toList.count '\n' + 1) (ofText filename s).instructions.length).Is
      e.location.filename (e.location.line.toNat + (s.toList.count '\n' + 1))
      (e.location.index.map (·.toNat + (ofText filename s).instructions.length)) := by
  generalize hlines : s.toList.count '\n' + 1 = lines
  generalize hlength : (ofText filename s).instructions.length = indices
  have hchars : (s ++ "\n" ++ t).toList = (s.toList ++ ['\n']) ++ t.toList := by
    rw [String.toList_append, String.toList_append]
    rfl
  have hfront := Text.count_newline_le (s.toList ++ ['\n'])
  have hcount : (s.toList ++ ['\n']).count '\n' = lines := by simp [← hlines]
  rw [hchars, Text.lines_append (by simp), List.length_append] at h
  have hindices : indices ≤ lines := by
    rw [← hlength, length_instructions]
    refine List.countP_le_length.trans (Nat.le_of_eq ?_)
    rw [List.length_map, Text.length_splitOn, hlines]
  obtain ⟨k, hk, hline, hindex⟩ := Record.location_of_mem_entriesFrom he
  rw [List.length_map] at hk
  have hsizes : UInt32.size + UInt32.size ≤ UInt64.size := by decide
  refine ⟨rfl, ?_, ?_⟩
  · rw [Location.moved, hline, ← UInt32.ofNat_add, UInt32.toNat_ofNat_of_lt' (by omega),
      UInt32.toNat_ofNat_of_lt' (by omega)]
  · rcases hplace : e.location.index with _ | j
    · rw [Location.moved, hplace]
      rfl
    · obtain ⟨m, hm, rfl⟩ := hindex j hplace
      rw [Location.moved, hplace, Option.map_some, Option.map_some, Option.map_some,
        ← UInt64.ofNat_add, UInt64.toNat_ofNat_of_lt' (by omega),
        UInt64.toNat_ofNat_of_lt' (by omega)]

theorem ofText_withReturns (filename text : String) :
    ofText filename (.ofList (Text.withReturns text.toList)) = ofText filename text := by
  have hentries : (ofText filename (.ofList (Text.withReturns text.toList))).entries
      = (ofText filename text).entries := by
    rw [entries_ofText, entries_ofText, String.toList_ofList, ← Record.map_ofLine_rows,
      ← Record.map_ofLine_rows, Text.rows_withReturns]
  exact ext_entries hentries

theorem ofText_newline (filename text : String) :
    ofText filename (text ++ "\n") = ofText filename text := by
  have hchars : (text ++ "\n").toList = text.toList ++ '\n' :: [] := String.toList_append
  have hentries : (ofText filename (text ++ "\n")).entries = (ofText filename text).entries := by
    rw [entries_ofText, entries_ofText, hchars, List.splitOn_append_cons_self, List.map_append]
    exact Record.entriesFrom_concat_blank _ _ _ _
  exact ext_entries hentries

/-- Two texts with a newline between are read one after the other. The places of the second are
further on by the lines and the instructions of the first, and in no other way. Carriage returns
before the newlines of a text, or a newline at its end, change nothing in its report. -/
theorem ofText_joined (filename s t : String) :
    (ofText filename (s ++ "\n" ++ t)).instructions
      = (ofText filename s).instructions ++ (ofText filename t).instructions.map
        (·.moved (s.toList.count '\n' + 1) (ofText filename s).instructions.length)
    ∧ (ofText filename (s ++ "\n" ++ t)).diagnostics
      = (ofText filename s).diagnostics ++ (ofText filename t).diagnostics.map
        (·.moved (s.toList.count '\n' + 1) (ofText filename s).instructions.length)
    ∧ ((Text.lines (s ++ "\n" ++ t).toList).length < UInt32.size - 1 →
      ∀ place ∈ (ofText filename t).instructions.map (·.location)
          ++ (ofText filename t).diagnostics.map (·.location),
        (place.moved (s.toList.count '\n' + 1) (ofText filename s).instructions.length).Is
          place.filename (place.line.toNat + (s.toList.count '\n' + 1))
          (place.index.map (·.toNat + (ofText filename s).instructions.length)))
    ∧ ofText filename (.ofList (Text.withReturns s.toList)) = ofText filename s
    ∧ ofText filename (s ++ "\n") = ofText filename s := by
  refine ⟨?_, ?_, fun h place hplace => ?_, ofText_withReturns filename s,
    ofText_newline filename s⟩
  · rw [instructions, entries_joined, List.filterMap_append,
      Entry.filterMap_moved fun e => by cases e <;> rfl]
    rfl
  · rw [diagnostics, entries_joined, List.filterMap_append,
      Entry.filterMap_moved fun e => by cases e <;> rfl]
    rfl
  · obtain ⟨e, he, rfl⟩ := exists_entry hplace
    exact moved_exact h he

/-- A blank line and a record whose carriage return becomes part of the line end that joins it. -/
def openText : String := "\n0\tASSIGN, #1, a\r"

def tornText : String := "torn\n0\tPRINT, a, , , b\n"

theorem ofText_joined_openText :
    (Text.lines (openText ++ "\n" ++ tornText).toList).length < UInt32.size - 1
    ∧ (ofText "j.ir" (openText ++ "\n" ++ tornText)).instructions
      = [⟨.assign, .immediate "1", .symbol "a", .empty, ⟨"j.ir", 2, some 0⟩⟩,
        ⟨.print, .symbol "a", .empty, .empty, ⟨"j.ir", 4, some 1⟩⟩]
    ∧ (ofText "j.ir" (openText ++ "\n" ++ tornText)).diagnostics.map (·.location)
      = [⟨"j.ir", 3, none⟩, ⟨"j.ir", 4, none⟩]
    ∧ (Location.moved 2 1 ⟨"j.ir", 2, some 0⟩).Is "j.ir" 4 (some 1) := by
  have h : (Text.lines (openText ++ "\n" ++ tornText).toList).length < UInt32.size - 1 := by decide
  obtain ⟨hinstructions, hdiagnostics, hexact, -, -⟩ := ofText_joined "j.ir" openText tornText
  refine ⟨h, hinstructions.trans (by decide), ?_, ?_⟩
  · rw [hdiagnostics]
    decide
  · exact hexact h ⟨"j.ir", 2, some 0⟩ (by decide)

end Report

end ThreeAddress
