import ThreeAddress.Json.Reader
import ThreeAddress.Proofs.JsonTokens

/-!
# Written JSON texts

A value whose numbers are spelled as JSON spells them is `Valid`. Its compact text and its pretty
text are both read as the value itself (`Value.Valid.ofText?_eq`). The two differ only in the blanks
between the parts of an array or object, and what is between two brackets is read part by part
(`Brackets.readFrom_inside`).
-/

namespace ThreeAddress.Json

open Text (HeadNot)

variable {r r' : Reading} {t : Token} {cs rest : List Char} {around : List Enclosing}

section Machine

theorem cases_of_isSpace {c : Char} (h : isSpace c = true) :
    c = ' ' ∨ c = '\t' ∨ c = '\n' ∨ c = '\r' := by
  simpa [isSpace, or_assoc] using h

theorem scan_of_readToken (h : readToken cs = some (t, rest)) (hspace : HeadNot isSpace cs) :
    scan cs = (scan rest).map (t :: ·) := by
  cases cs with
  | nil => cases h
  | cons c cs =>
    rw [scan, if_neg (by simp [hspace c rfl])]
    split
    · next hnone =>
      rw [h] at hnone
      cases hnone
    · next t' rest' hsome =>
      rw [h] at hsome
      cases hsome
      rfl

/-- What a text is read as, by a reading that has come so far. -/
def readFrom (r : Reading) (cs : List Char) : Option Value := do
  (← (← scan cs).foldlM Reading.step r).result?

theorem readFrom_space {c : Char} (h : isSpace c = true) (r : Reading) (cs : List Char) :
    readFrom r (c :: cs) = readFrom r cs := by
  rw [readFrom, scan, if_pos h, readFrom]

theorem readFrom_spaces {blanks : List Char} (h : ∀ c ∈ blanks, isSpace c = true) (r : Reading)
    (cs : List Char) : readFrom r (blanks ++ cs) = readFrom r cs := by
  induction blanks with
  | nil => rfl
  | cons c blanks ih =>
    rw [List.cons_append, readFrom_space (h c List.mem_cons_self),
      ih fun d hd => h d (List.mem_cons_of_mem c hd)]

/-- The step: one token takes the reading on. -/
theorem readFrom_token (h : readToken cs = some (t, rest)) (hspace : HeadNot isSpace cs)
    (hstep : r.step t = some r') : readFrom r cs = readFrom r' rest := by
  rw [readFrom, scan_of_readToken h hspace, readFrom]
  rcases scan rest with _ | ts
  · rfl
  · simp [hstep]

theorem readFrom_nil (v : Value) : readFrom (.ended [] v) [] = some v := by
  rw [readFrom, scan]
  rfl

end Machine

/-- A value may come, also as the first of an array. -/
inductive Awaits : Reading → List Enclosing → Prop
  | value (around : List Enclosing) : Awaits (.value around) around
  | firstItem (around : List Enclosing) : Awaits (.firstItem around) (.array [] :: around)

theorem Awaits.step (h : Awaits r around) (ht : t ≠ .rightBracket) :
    r.step t = Reading.beginValue around t := by
  cases h with
  | value => rfl
  | firstItem =>
    cases t with
    | rightBracket => exact absurd rfl ht
    | _ => rfl

/-- Wherever a value may come, the text is read as this one. -/
def Reads (cs : List Char) (v : Value) : Prop :=
  ∀ r around rest, Awaits r around → Stops rest →
    readFrom r (cs ++ rest) = readFrom (.ended around v) rest

theorem headNot_isSpace_quote (s : Quoted) (cs : List Char) :
    HeadNot isSpace ((quote s).toList ++ cs) := by
  have hhead : ∃ ds, (quote s).toList = '"' :: ds := by
    cases s with
    | none => exact ⟨_, rfl⟩
    | some s => exact ⟨_, String.toList_ofList⟩
  obtain ⟨ds, hds⟩ := hhead
  rw [hds]
  exact Text.headNot_cons (by decide) _

theorem reads_token {c : Char} {v : Value} (hc : isSpace c = false)
    (hread : ∀ rest, Stops rest → readToken (c :: cs ++ rest) = some (t, rest))
    (hbegin : ∀ around, Reading.beginValue around t = some (.ended around v)) :
    Reads (c :: cs) v := by
  intro r around rest hr hrest
  have ht : t ≠ .rightBracket := fun ht => by
    rw [ht] at hbegin
    cases hbegin []
  exact readFrom_token (hread rest hrest) (Text.headNot_cons hc _) (by rw [hr.step ht, hbegin])

section Enclosed

/-- What stands behind the first of the parts between two brackets. -/
def remainder (right : Char) (front back : List Char) (parts : List (List Char)) : List Char :=
  parts.flatMap (fun part => ',' :: (front ++ part)) ++ (back ++ [right])

/-- What stands behind the first of two brackets. Blanks come in front of each part and at the back
of the last. -/
def inside (right : Char) (front back : List Char) : List (List Char) → List Char
  | [] => [right]
  | part :: parts => front ++ (part ++ remainder right front back parts)

/-- How the parts between two brackets are read: `first` and `next` await one, with those before it,
and `last` has just come to the end of one. -/
structure Brackets (α : Type) where
  right : Char
  closing : Token
  first : Reading
  next : List α → Reading
  last : List α → α → Reading
  whole : List α → Reading
  stops : ∀ cs, Stops (right :: cs)
  unspaced : isSpace right = false
  readToken_right : ∀ cs, readToken (right :: cs) = some (closing, cs)
  step_first : first.step closing = some (whole [])
  step_comma : ∀ done a, (last done a).step .comma = some (next (done ++ [a]))
  step_last : ∀ done a, (last done a).step closing = some (whole (done ++ [a]))

namespace Brackets

def array (around : List Enclosing) : Brackets Value where
  right := ']'
  closing := .rightBracket
  first := .firstItem around
  next done := .value (.array done :: around)
  last done v := .ended (.array done :: around) v
  whole items := .ended around (.array items)
  stops := Text.headNot_cons (by decide)
  unspaced := by decide
  readToken_right _ := rfl
  step_first := rfl
  step_comma _ _ := rfl
  step_last _ _ := rfl

def object (around : List Enclosing) : Brackets (Quoted × Value) where
  right := '\x7d'
  closing := .rightBrace
  first := .firstKey around
  next done := .key around done
  last done m := .ended (.object done m.1 :: around) m.2
  whole members := .ended around (.object members)
  stops := Text.headNot_cons (by decide)
  unspaced := by decide
  readToken_right _ := rfl
  step_first := rfl
  step_comma _ _ := rfl
  step_last _ _ := rfl

variable {α : Type} {b : Brackets α} {front back : List Char} {text : α → List Char}

/-- A part may come behind these. -/
inductive At (b : Brackets α) : Reading → List α → Prop
  | first : At b b.first []
  | next (done : List α) : At b (b.next done) done

/-- The text is read as a part. -/
def IsPart (b : Brackets α) (cs : List Char) (a : α) : Prop :=
  ∀ r done rest, b.At r done → Stops rest → readFrom r (cs ++ rest) = readFrom (b.last done a) rest

theorem stops_remainder (hback : ∀ c ∈ back, isSpace c = true) (parts : List (List Char)) :
    Stops (remainder b.right front back parts ++ rest) := by
  cases parts with
  | cons part parts => exact Text.headNot_cons (by decide) _
  | nil =>
    cases back with
    | nil => exact b.stops rest
    | cons d back =>
      refine Text.headNot_cons ?_ _
      rcases cases_of_isSpace (hback d List.mem_cons_self) with rfl | rfl | rfl | rfl <;> decide

theorem readFrom_right {r r' : Reading} (hback : ∀ c ∈ back, isSpace c = true)
    (hstep : r.step b.closing = some r') (rest : List Char) :
    readFrom r (back ++ b.right :: rest) = readFrom r' rest := by
  rw [readFrom_spaces hback]
  exact readFrom_token (b.readToken_right rest) (Text.headNot_cons b.unspaced _) hstep

theorem readFrom_remainder (hfront : ∀ c ∈ front, isSpace c = true)
    (hback : ∀ c ∈ back, isSpace c = true) {items : List α}
    (h : ∀ a ∈ items, b.IsPart (text a) a) (done : List α) (a : α) (rest : List Char) :
    readFrom (b.last done a) (remainder b.right front back (items.map text) ++ rest)
      = readFrom (b.whole (done ++ a :: items)) rest := by
  -- each part to come goes to those that are done
  induction items generalizing done a with
  | nil =>
    have hremainder : remainder b.right front back [] ++ rest = back ++ b.right :: rest := by
      simp [remainder]
    rw [List.map_nil, hremainder, readFrom_right hback (b.step_last done a)]
  | cons a' items ih =>
    have hremainder : remainder b.right front back ((a' :: items).map text) ++ rest
        = ',' :: (front ++ (text a' ++ (remainder b.right front back (items.map text)
          ++ rest))) := by
      simp [remainder]
    rw [hremainder, readFrom_token rfl (Text.headNot_cons (by decide) _) (b.step_comma done a),
      readFrom_spaces hfront, h a' List.mem_cons_self _ _ _ (.next _) (stops_remainder hback _),
      ih (fun a ha => h a (List.mem_cons_of_mem a' ha)), List.append_assoc, List.singleton_append]

theorem readFrom_inside (hfront : ∀ c ∈ front, isSpace c = true)
    (hback : ∀ c ∈ back, isSpace c = true) {items : List α}
    (h : ∀ a ∈ items, b.IsPart (text a) a) (rest : List Char) :
    readFrom b.first (inside b.right front back (items.map text) ++ rest)
      = readFrom (b.whole items) rest := by
  cases items with
  | nil => exact readFrom_right (List.forall_mem_nil _) b.step_first rest
  | cons a items =>
    rw [List.map_cons, inside, List.append_assoc, readFrom_spaces hfront, List.append_assoc,
      h a List.mem_cons_self _ _ _ .first (stops_remainder hback _),
      readFrom_remainder hfront hback fun a' ha' => h a' (List.mem_cons_of_mem a ha')]
    rfl

end Brackets

variable {front back blanks : List Char}

theorem reads_array {text : Value → List Char} (hfront : ∀ c ∈ front, isSpace c = true)
    (hback : ∀ c ∈ back, isSpace c = true) {items : List Value}
    (h : ∀ v ∈ items, Reads (text v) v) :
    Reads ('[' :: inside ']' front back (items.map text)) (.array items) := by
  intro r around rest hr hrest
  have hpart : ∀ v ∈ items, (Brackets.array around).IsPart (text v) v :=
    fun v hv r' done rest' hat hrest' => by
      cases hat with
      | first => exact h v hv _ _ rest' (.firstItem around) hrest'
      | next => exact h v hv _ _ rest' (.value _) hrest'
  have hstep : r.step .leftBracket = some (.firstItem around) := hr.step (by decide)
  rw [List.cons_append, readFrom_token rfl (Text.headNot_cons (by decide) _) hstep]
  exact Brackets.readFrom_inside hfront hback hpart rest

/-- A member is read once its value is. -/
theorem isPart_member {cs : List Char} {v : Value} (hblanks : ∀ c ∈ blanks, isSpace c = true)
    (h : Reads cs v) (k : Quoted) :
    (Brackets.object around).IsPart ((quote k).toList ++ ':' :: (blanks ++ cs)) (k, v) := by
  intro r done rest hat hrest
  have hkey : r.step (.string k) = some (.colon around done k) := by cases hat <;> rfl
  rw [List.append_assoc, readFrom_token (readToken_quote k _) (headNot_isSpace_quote k _) hkey,
    List.cons_append, readFrom_token rfl (Text.headNot_cons (by decide) _) rfl, List.append_assoc,
    readFrom_spaces hblanks]
  exact h _ _ rest (.value _) hrest

theorem reads_object (text : Value → List Char) (hfront : ∀ c ∈ front, isSpace c = true)
    (hback : ∀ c ∈ back, isSpace c = true) (hblanks : ∀ c ∈ blanks, isSpace c = true)
    {members : List (Quoted × Value)} (h : ∀ m ∈ members, Reads (text m.2) m.2) :
    Reads ('\x7b' :: inside '\x7d' front back
      (members.map fun m => (quote m.1).toList ++ ':' :: (blanks ++ text m.2)))
      (.object members) := by
  intro r around rest hr hrest
  have hpart : ∀ m ∈ members, (Brackets.object around).IsPart
      ((quote m.1).toList ++ ':' :: (blanks ++ text m.2)) m :=
    fun m hm => isPart_member hblanks (h m hm) m.1
  have hstep : r.step .leftBrace = some (.firstKey around) := hr.step (by decide)
  rw [List.cons_append, readFrom_token rfl (Text.headNot_cons (by decide) _) hstep]
  exact Brackets.readFrom_inside hfront hback hpart rest

end Enclosed

section Writer

/-- All numbers in the value are spelled as in JSON. -/
inductive Value.Valid : Value → Prop
  | null : Valid .null
  | bool (b : Bool) : Valid (.bool b)
  | number {lexeme : String} (h : IsNumeral lexeme.toList) : Valid (.number lexeme)
  | string (s : Quoted) : Valid (.string s)
  | array {items : List Value} (h : ∀ v ∈ items, Valid v) : Valid (.array items)
  | object {members : List (Quoted × Value)} (h : ∀ m ∈ members, Valid m.2) :
    Valid (.object members)

namespace Value

theorem compactItems_eq_map (items : List Value) : compactItems items = items.map compact := by
  induction items with
  | nil => rfl
  | cons v items ih => rw [compactItems, ih, List.map_cons]

theorem compactMembers_eq_map (members : List (Quoted × Value)) :
    compactMembers members = members.map fun m => quote m.1 ++ ":" ++ m.2.compact := by
  induction members with
  | nil => rfl
  | cons m members ih => rw [compactMembers, ih, List.map_cons]

theorem prettyItems_eq_map (depth : Nat) (items : List Value) :
    prettyItems depth items = items.map (prettyAt depth) := by
  induction items with
  | nil => rfl
  | cons v items ih => rw [prettyItems, ih, List.map_cons]

theorem prettyMembers_eq_map (depth : Nat) (members : List (Quoted × Value)) :
    prettyMembers depth members
      = members.map fun m => quote m.1 ++ ": " ++ m.2.prettyAt depth := by
  induction members with
  | nil => rfl
  | cons m members ih => rw [prettyMembers, ih, List.map_cons]

theorem intercalate_cons (sep part : List Char) (parts : List (List Char)) :
    sep.intercalate (part :: parts) = part ++ parts.flatMap (sep ++ ·) := by
  induction parts generalizing part with
  | nil => simp
  | cons part' parts ih =>
    rw [List.intercalate_cons_cons, ih, List.flatMap_cons, List.append_assoc, List.append_assoc]

theorem toList_intercalate_comma (parts : List String) (right : Char) :
    (String.intercalate "," parts).toList ++ [right]
      = inside right [] [] (parts.map String.toList) := by
  rw [String.toList_intercalate]
  rcases parts with _ | ⟨part, parts⟩
  · rfl
  · rw [List.map_cons, intercalate_cons]
    simp [inside, remainder]

theorem toList_block {left right : String} {l c : Char} (hl : left.toList = [l])
    (hr : right.toList = [c]) (depth : Nat) (parts : List String) :
    (block left right depth parts).toList = l :: inside c ('\n' :: (indent (depth + 1)).toList)
      ('\n' :: (indent depth).toList) (parts.map String.toList) := by
  rcases parts with _ | ⟨part, parts⟩
  · simp [block, String.toList_append, hl, hr, inside]
  · rw [block]
    · simp only [String.toList_append, String.toList_intercalate, hl, hr, List.map_cons,
        List.map_map, intercalate_cons]
      simp [inside, remainder, List.flatMap_map, String.toList_append]
    · exact List.cons_ne_nil part parts

theorem isSpace_of_mem_indent {c : Char} {depth : Nat} (h : c ∈ '\n' :: (indent depth).toList) :
    isSpace c = true := by
  rw [indent, String.toList_ofList] at h
  rcases List.mem_cons.1 h with rfl | h
  · rfl
  · rw [List.eq_of_mem_replicate h]
    rfl

theorem reads_null : Reads (compact .null).toList .null :=
  reads_token (by decide) (fun _ _ => rfl) fun _ => rfl

theorem reads_bool (b : Bool) : Reads (compact (.bool b)).toList (.bool b) := by
  cases b <;> exact reads_token (by decide) (fun _ _ => rfl) fun _ => rfl

theorem reads_number {lexeme : String} (h : IsNumeral lexeme.toList) :
    Reads (compact (.number lexeme)).toList (.number lexeme) := by
  have hread (rest : List Char) (hrest : Stops rest) := h.readToken_append hrest
  obtain ⟨c, ds, hcs, hc⟩ := h.exists_cons
  rw [String.ofList_toList, hcs] at hread
  rw [compact, hcs]
  refine reads_token ?_ hread fun _ => rfl
  rcases hc with hc | rfl
  · refine Bool.eq_false_iff.2 fun hspace => ?_
    rcases cases_of_isSpace hspace with rfl | rfl | rfl | rfl <;> cases hc
  · rfl

theorem reads_string (s : Quoted) : Reads (compact (.string s)).toList (.string s) := by
  intro r around rest hr _
  exact readFrom_token (readToken_quote s rest) (headNot_isSpace_quote s rest)
    (hr.step (t := .string s) (fun h => by cases h))

theorem Valid.reads_compact {v : Value} (h : v.Valid) : Reads v.compact.toList v := by
  induction h with
  | null => exact reads_null
  | bool b => exact reads_bool b
  | number h => exact reads_number h
  | string s => exact reads_string s
  | @array items h ih =>
    have htext : (compact (.array items)).toList
        = '[' :: inside ']' [] [] (items.map fun v => v.compact.toList) := by
      rw [compact, compactItems_eq_map, String.toList_append, String.toList_append,
        List.append_assoc, show "]".toList = [']'] from rfl, toList_intercalate_comma, List.map_map]
      rfl
    rw [htext]
    exact reads_array (List.forall_mem_nil _) (List.forall_mem_nil _) ih
  | @object members h ih =>
    have htext : (compact (.object members)).toList = '\x7b' :: inside '\x7d' [] []
        (members.map fun m => (quote m.1).toList ++ ':' :: ([] ++ m.2.compact.toList)) := by
      rw [compact, compactMembers_eq_map, String.toList_append, String.toList_append,
        List.append_assoc, show "\x7d".toList = ['\x7d'] from rfl, toList_intercalate_comma,
        List.map_map]
      simp only [Function.comp_def, String.toList_append, List.append_assoc]
      rfl
    rw [htext]
    exact reads_object (fun v => v.compact.toList) (List.forall_mem_nil _)
      (List.forall_mem_nil _) (List.forall_mem_nil _) ih

theorem Valid.reads_prettyAt {v : Value} (h : v.Valid) (depth : Nat) :
    Reads (v.prettyAt depth).toList v := by
  induction h generalizing depth with
  | null => exact reads_null
  | bool b => exact reads_bool b
  | number h => exact reads_number h
  | string s => exact reads_string s
  | @array items h ih =>
    rw [prettyAt, prettyItems_eq_map, toList_block rfl rfl, List.map_map]
    exact reads_array (fun _ => isSpace_of_mem_indent) (fun _ => isSpace_of_mem_indent)
      fun v hv => ih v hv (depth + 1)
  | @object members h ih =>
    have hmembers : (members.map fun m => quote m.1 ++ ": " ++ m.2.prettyAt (depth + 1)).map
        String.toList = members.map fun m =>
          (quote m.1).toList ++ ':' :: ([' '] ++ (m.2.prettyAt (depth + 1)).toList) := by
      simp [String.toList_append, Function.comp_def]
    rw [prettyAt, prettyMembers_eq_map, toList_block rfl rfl, hmembers]
    exact reads_object (fun v => (v.prettyAt (depth + 1)).toList)
      (fun _ => isSpace_of_mem_indent) (fun _ => isSpace_of_mem_indent)
      (List.forall_mem_singleton.2 rfl) fun m hm => ih m hm (depth + 1)

theorem ofText?_of_reads {text : String} {v : Value} (h : Reads text.toList v) :
    ofText? text = some v := by
  have hread := h _ _ [] (.value []) (by decide)
  rw [List.append_nil, readFrom_nil] at hread
  exact hread

/-- A value is read back from its compact and from its pretty text. -/
theorem Valid.ofText?_eq {v : Value} (h : v.Valid) :
    ofText? v.compact = some v ∧ ofText? v.pretty = some v :=
  ⟨ofText?_of_reads h.reads_compact, ofText?_of_reads (h.reads_prettyAt 0)⟩

end Value

end Writer

end ThreeAddress.Json
