import Mathlib.Data.List.Forall2
import ThreeAddress.Proofs.Layout
import ThreeAddress.Proofs.Reading

/-!
# Renaming the values of a stream

What a value is called is only seen by the binding table. If the names in value positions are
renamed without bringing two of them together, and the slots that an operator does not use are
filled in any way, then an instruction asks for the renamed keys and is at fault in the same way
(`touches_renamed`), and from the registers of the renamed keys it gives the same lines
(`lines_renamed`). A renamed key stands where the old one stood (`register_renamed`), so the program
is the same but for the names in its bindings (`generate_renamed`). Scratch roles are keys of their
own: a value may be renamed to what a scratch role is called.
-/

namespace ThreeAddress

open Assembly (Register)

variable {f : String → String}

namespace Operand

def rename (f : String → String) : Operand → Operand
  | .memory v => .memory (f v)
  | .symbol v => .symbol (f v)
  | a => a

/-- The name of a value that is read or written. -/
def names : Operand → List String
  | .memory v => [v]
  | .symbol v => [v]
  | _ => []

end Operand

namespace Instruction

/-- The names in value positions. The target of a direct branch is none. -/
def valueNames (i : Instruction) : List String :=
  match i.opcode with
  | .assign => i.a1.names ++ i.a2.names
  | .add | .sub | .mult | .lessThan => i.a1.names ++ i.a2.names ++ i.a3.names
  | .jumpIfFalse | .print => i.a1.names
  | .jump => if i.a1.isMemory then i.a1.names else []
  | .unknown _ => []

/-- The second instruction is the first with the names in value positions renamed. In the slots that
the operator does not use it may have anything. -/
def Renamed (f : String → String) (i i' : Instruction) : Prop :=
  i'.opcode = i.opcode ∧
    match i.opcode with
    | .assign => i'.a1 = i.a1.rename f ∧ i'.a2 = i.a2.rename f
    | .add | .sub | .mult | .lessThan =>
      i'.a1 = i.a1.rename f ∧ i'.a2 = i.a2.rename f ∧ i'.a3 = i.a3.rename f
    | .jumpIfFalse => i'.a1 = i.a1.rename f ∧ i'.a2 = i.a2
    | .jump => i'.a1 = if i.a1.isMemory then i.a1.rename f else i.a1
    | .print => i'.a1 = i.a1.rename f
    | .unknown _ => i'.a1 = i.a1 ∧ i'.a2 = i.a2 ∧ i'.a3 = i.a3

theorem renamed_id_of_parts {i i' : Instruction} (h : i.parts = i'.parts) : i.Renamed id i' := by
  have hid : ∀ a : Operand, a.rename id = a := fun a => by cases a <;> rfl
  simp only [parts, Prod.mk.injEq] at h
  obtain ⟨hop, h1, h2, h3⟩ := h
  refine ⟨hop.symm, ?_⟩
  simp only [hid, h1, h2, h3]
  cases i.opcode <;> simp

theorem Renamed.jumpAddress? {i i' : Instruction} (h : Renamed f i i') :
    i'.jumpAddress? = i.jumpAddress? := by
  obtain ⟨op, a1, a2, a3, place⟩ := i
  obtain ⟨hop, h⟩ := h
  simp only at hop h
  unfold Instruction.jumpAddress?
  rw [hop]
  cases op with
  | jump => cases a1 <;> simp only [h] <;> rfl
  | jumpIfFalse => simp only [h.2]
  | assign | add | sub | mult | lessThan | print | unknown tag => rfl

end Instruction

def Key.rename (f : String → String) : Key → Key
  | .value v => .value (f v)
  | .scratch role => .scratch role

namespace Lowering

def Touch.rename (f : String → String) : Touch → Touch
  | .key k => .key (k.rename f)
  | .fault e => .fault e

variable {labels : Labels} {strict : Bool} {i i' : Instruction} {ts : List Touch}

theorem fault?_rename (ts : List Touch) : fault? (ts.map (Touch.rename f)) = fault? ts := by
  induction ts with
  | nil => rfl
  | cons t ts ih =>
    cases t with
    | key k => exact ih
    | fault e => rfl

theorem keysBeforeFault_rename (ts : List Touch) :
    keysBeforeFault (ts.map (Touch.rename f)) = (keysBeforeFault ts).map (Key.rename f) := by
  induction ts with
  | nil => rfl
  | cons t ts ih =>
    cases t with
    | key k => exact congrArg (k.rename f :: ·) ih
    | fault e => rfl

theorem reads_rename (slot : Nat) (a : Operand) :
    reads slot (a.rename f) = (reads slot a).map (Touch.rename f) := by
  cases a <;> rfl

theorem writes_rename (slot : Nat) (a : Operand) :
    writes slot (a.rename f) = (writes slot a).map (Touch.rename f) := by
  cases a <;> rfl

theorem branches_rename (a : Operand) :
    (branches labels strict a).map (Touch.rename f) = branches labels strict a := by
  unfold branches
  split <;> rfl

theorem touches_assign {a1 a2 a3 : Operand} {place : Location} (h : a2.isMemory = false) :
    touches labels strict ⟨.assign, a1, a2, a3, place⟩ = writes 2 a2 ++ reads 1 a1 := by
  cases a2 with
  | memory v => cases h
  | empty | immediate l | symbol v => rfl

/-- A renamed instruction asks for the renamed keys, and has the same fault. -/
theorem touches_renamed (h : i.Renamed f i') :
    touches labels strict i' = (touches labels strict i).map (Touch.rename f) := by
  obtain ⟨op, a1, a2, a3, place⟩ := i
  obtain ⟨op', b1, b2, b3, place'⟩ := i'
  obtain ⟨hop, h⟩ := h
  simp only at hop h
  subst hop
  cases op' with
  | assign =>
    obtain ⟨rfl, rfl⟩ := h
    cases a2 with
    | memory v =>
      change Touch.key (.scratch .store) :: reads 1 (a1.rename f) ++ [.key (.value (f v))] = _
      rw [reads_rename]
      simp only [touches, List.map_append, List.map_cons, List.map_nil, Touch.rename, Key.rename]
    | empty | immediate l | symbol v =>
      rw [touches_assign rfl, touches_assign rfl, writes_rename, reads_rename, List.map_append]
  | add | sub | mult | lessThan =>
    obtain ⟨rfl, rfl, rfl⟩ := h
    simp only [touches, List.map_append, List.map_cons, reads_rename, writes_rename]
    rfl
  | jumpIfFalse =>
    obtain ⟨rfl, rfl⟩ := h
    simp only [touches, List.map_append, List.map_cons, reads_rename, branches_rename]
    rfl
  | jump =>
    subst h
    cases a1 with
    | memory v => rfl
    | empty | immediate l | symbol v => exact (branches_rename _).symm
  | print =>
    subst h
    simp only [touches, List.map_cons, reads_rename]
    rfl
  | unknown tag => rfl

theorem mem_names_of_reads {slot : Nat} {a : Operand} {v : String}
    (h : .key (.value v) ∈ reads slot a) : v ∈ a.names := by
  cases a <;> simp_all [reads, Operand.names]

theorem mem_names_of_writes {slot : Nat} {a : Operand} {v : String}
    (h : .key (.value v) ∈ writes slot a) : v ∈ a.names := by
  cases a <;> simp_all [writes, Operand.names]

theorem notMem_branches (k : Key) (a : Operand) : .key k ∉ branches labels strict a := by
  unfold branches
  split <;> simp

/-- A value that is asked for has its name in a value position. -/
theorem mem_valueNames {v : String} (h : .key (.value v) ∈ touches labels strict i) :
    v ∈ i.valueNames := by
  obtain ⟨op, a1, a2, a3, place⟩ := i
  cases op with
  | assign =>
    have h' : .key (.value v) ∈ writes 2 a2 ∨ .key (.value v) ∈ reads 1 a1 := by
      cases a2 <;> simp_all [touches, writes]
      tauto
    rcases h' with h' | h'
    · exact List.mem_append_right _ (mem_names_of_writes h')
    · exact List.mem_append_left _ (mem_names_of_reads h')
  | add | sub | mult | lessThan =>
    simp only [touches, List.mem_append, List.mem_cons, Touch.key.injEq, reduceCtorEq,
      false_or] at h
    simp only [Instruction.valueNames, List.mem_append]
    rcases h with (h | h) | h
    · exact .inr (mem_names_of_writes h)
    · exact .inl (.inl (mem_names_of_reads h))
    · exact .inl (.inr (mem_names_of_reads h))
  | jumpIfFalse =>
    simp only [touches, List.mem_append, List.mem_cons, Touch.key.injEq, reduceCtorEq,
      false_or, notMem_branches, or_false] at h
    exact mem_names_of_reads h
  | jump =>
    cases a1 with
    | memory w => simpa [touches, Instruction.valueNames, Operand.names, Operand.isMemory] using h
    | empty | immediate l | symbol w => exact absurd h (notMem_branches _ _)
  | print =>
    simp only [touches, List.mem_cons, Touch.key.injEq, reduceCtorEq, false_or] at h
    exact mem_names_of_reads h
  | unknown tag => cases h

section Lines

variable (r : Key → Register)

theorem load_rename (rd : Register) (a : Operand) :
    load r rd (a.rename f) = load (fun k => r (k.rename f)) rd a := by
  cases a <;> rfl

theorem result_rename (a : Operand) :
    result r (a.rename f) = result (fun k => r (k.rename f)) a := by
  cases a <;> rfl

theorem writeBack_rename (a : Operand) :
    writeBack r (a.rename f) = writeBack (fun k => r (k.rename f)) a := by
  cases a <;> rfl

/-- No name of a value gets into the lines. -/
theorem lines_renamed (h : i.Renamed f i') :
    lines r labels i' = lines (fun k => r (k.rename f)) labels i := by
  obtain ⟨op, a1, a2, a3, place⟩ := i
  obtain ⟨op', b1, b2, b3, place'⟩ := i'
  obtain ⟨hop, h⟩ := h
  simp only at hop h
  subst hop
  cases op' with
  | assign =>
    obtain ⟨rfl, rfl⟩ := h
    simp only [lines, insts, load_rename, result_rename, writeBack_rename]
  | add | sub | mult | lessThan =>
    obtain ⟨rfl, rfl, rfl⟩ := h
    simp only [lines, insts, loadBoth, load_rename, result_rename, writeBack_rename]
    rfl
  | jumpIfFalse =>
    obtain ⟨rfl, rfl⟩ := h
    simp only [lines, insts, load_rename]
    rfl
  | jump =>
    subst h
    cases a1 <;> rfl
  | print =>
    subst h
    simp only [lines, insts, load_rename]
    rfl
  | unknown tag =>
    obtain ⟨rfl, rfl, rfl⟩ := h
    rfl

end Lines

end Lowering

/-- The key belongs to one of the names, or to a scratch role. -/
def Key.IsAmong (names : List String) : Key → Prop
  | .value v => v ∈ names
  | .scratch _ => True

/-- The names stay apart. -/
def InjectiveOn (f : String → String) (names : List String) : Prop :=
  ∀ v ∈ names, ∀ w ∈ names, f v = f w → v = w

instance (names : List String) : Decidable (InjectiveOn f names) :=
  inferInstanceAs (Decidable (∀ v ∈ names, ∀ w ∈ names, f v = f w → v = w))

theorem InjectiveOn.rename_inj {names : List String} (hf : InjectiveOn f names) {j k : Key}
    (hj : j.IsAmong names) (hk : k.IsAmong names) : j.rename f = k.rename f ↔ j = k := by
  refine ⟨fun h => ?_, fun h => h ▸ rfl⟩
  cases j <;> cases k <;> simp only [Key.rename, Key.value.injEq, Key.scratch.injEq,
    reduceCtorEq] at h
  · rw [hf _ hj _ hk h]
  · rw [h]

namespace Bindings

variable {names : List String} {b b' : Bindings} {ks : List Key} {k : Key}

theorem mem_map_rename (hf : InjectiveOn f names) {js : List Key} (hjs : ∀ j ∈ js, j.IsAmong names)
    (hk : k.IsAmong names) : k.rename f ∈ js.map (Key.rename f) ↔ k ∈ js := by
  refine ⟨fun h => ?_, List.mem_map_of_mem⟩
  obtain ⟨j, hj, hjk⟩ := List.mem_map.1 h
  exact (hf.rename_inj (hjs j hj) hk).1 hjk ▸ hj

theorem idxOf_map_rename (hf : InjectiveOn f names) {js : List Key}
    (hjs : ∀ j ∈ js, j.IsAmong names) (hk : k.IsAmong names) :
    (js.map (Key.rename f)).idxOf (k.rename f) = js.idxOf k := by
  induction js with
  | nil => rfl
  | cons j js ih =>
    have hrest := ih fun j' hj' => hjs j' (List.mem_cons_of_mem j hj')
    have hhead : (j.rename f == k.rename f) = (j == k) := by
      rw [Bool.eq_iff_iff, beq_iff_eq, beq_iff_eq, hf.rename_inj (hjs j List.mem_cons_self) hk]
    rw [List.map_cons, List.idxOf_cons, List.idxOf_cons, hhead, hrest]

/-- Renamed keys are new exactly when the keys were. -/
theorem keys_insertAll_rename (hf : InjectiveOn f names) (hks : ∀ k ∈ ks, k.IsAmong names)
    (hb : ∀ k ∈ b.keys, k.IsAmong names) (hb' : b'.keys = b.keys.map (Key.rename f)) :
    (b'.insertAll (ks.map (Key.rename f))).keys = (b.insertAll ks).keys.map (Key.rename f) := by
  induction ks generalizing b b' with
  | nil => exact hb'
  | cons k ks ih =>
    have hk := hks k List.mem_cons_self
    change ((b'.insert (k.rename f)).insertAll (ks.map (Key.rename f))).keys
      = ((b.insert k).insertAll ks).keys.map (Key.rename f)
    refine ih (fun j hj => hks j (List.mem_cons_of_mem k hj)) (fun j hj => ?_) ?_
    · rcases mem_insert.1 hj with hj | rfl
      · exact hb j hj
      · exact hk
    · simp only [keys_insert, hb', mem_map_rename hf hb hk]
      by_cases hin : k ∈ b.keys <;> simp [hin]

/-- A renamed key stands where the key stood. -/
theorem register_renamed (hf : InjectiveOn f names) (hb : ∀ k ∈ b.keys, k.IsAmong names)
    (hb' : b'.keys = b.keys.map (Key.rename f)) (hk : k.IsAmong names) :
    b'.register (k.rename f) = b.register k := by
  rw [register, register, hb', idxOf_map_rename hf hb hk]

theorem toList_renamed (hb' : b'.keys = b.keys.map (Key.rename f)) :
    b'.toList = b.toList.map fun (k, r) => (k.rename f, r) := by
  rw [toList, toList, hb', List.zipIdx_map, List.map_map, List.map_map]
  rfl

end Bindings

namespace Program

open Lowering

variable {s s' : List Instruction} {options : Options}

theorem ofStream_renamed (h : List.Forall₂ (Instruction.Renamed f) s s') :
    Labels.ofStream s' = Labels.ofStream s := by
  have haddresses : s'.filterMap Instruction.jumpAddress?
      = s.filterMap Instruction.jumpAddress? := by
    induction h with
    | nil => rfl
    | cons hi _ ih => simp only [List.filterMap_cons, hi.jumpAddress?, ih]
  rw [Labels.ofStream, Labels.ofStream, haddresses, h.length_eq]

/-- The names in value positions of a stream. -/
def valueNames (s : List Instruction) : List String := s.flatMap Instruction.valueNames

theorem isAmong_of_touched {labels : Labels} {strict : Bool} {i : Instruction} (hi : i ∈ s)
    {k : Key} (hk : .key k ∈ touches labels strict i) : k.IsAmong (valueNames s) := by
  cases k with
  | value v => exact List.mem_flatMap.2 ⟨i, hi, mem_valueNames hk⟩
  | scratch role => trivial

theorem keys_bindingsOf_renamed (h : List.Forall₂ (Instruction.Renamed f) s s')
    (hf : InjectiveOn f (valueNames s)) (labels : Labels) (strict : Bool) :
    (bindingsOf labels strict s').keys = (bindingsOf labels strict s).keys.map (Key.rename f) := by
  have hkeys : (s'.flatMap fun i => keysBeforeFault (touches labels strict i))
      = (s.flatMap fun i => keysBeforeFault (touches labels strict i)).map (Key.rename f) := by
    clear hf
    induction h with
    | nil => rfl
    | cons hi _ ih =>
      simp only [List.flatMap_cons, List.map_append, touches_renamed hi, keysBeforeFault_rename, ih]
  rw [bindingsOf, hkeys]
  refine Bindings.keys_insertAll_rename hf (fun k hk => ?_)
    (fun k hk => (List.not_mem_nil hk).elim) rfl
  obtain ⟨i, hi, hk⟩ := List.mem_flatMap.1 hk
  exact isAmong_of_touched hi (key_mem_of_keysBeforeFault hk)

theorem faultless_renamed {labels : Labels} {strict : Bool} {i i' : Instruction}
    (h : i.Renamed f i') : Faultless labels strict i' ↔ Faultless labels strict i := by
  rw [Faultless, Faultless, touches_renamed h, fault?_rename]

theorem blocksOf_renamed (h : List.Forall₂ (Instruction.Renamed f) s s')
    (hf : InjectiveOn f (valueNames s)) {labels : Labels} {strict : Bool}
    (hall : ∀ i ∈ s, Faultless labels strict i) :
    blocksOf labels strict s' = blocksOf labels strict s := by
  have hkeys := keys_bindingsOf_renamed h hf labels strict
  have hamong : ∀ k ∈ (bindingsOf labels strict s).keys, k.IsAmong (valueNames s) := fun k hk => by
    obtain ⟨i, hi, hk⟩ := mem_bindingsOf.1 hk
    exact isAmong_of_touched hi (key_mem_of_keysBeforeFault hk)
  refine List.ext_getElem (by rw [length_blocksOf, length_blocksOf, h.length_eq]) fun n hn' hn => ?_
  rw [length_blocksOf] at hn' hn
  have hi : s[n].Renamed f s'[n] := h.get hn hn'
  simp only [blocksOf, List.getElem_mapIdx, block]
  rw [lines_renamed _ hi]
  congr 1
  refine lines_congr (hall _ (List.getElem_mem hn)) fun k hk => ?_
  exact Bindings.register_renamed hf hamong hkeys (isAmong_of_touched (List.getElem_mem hn) hk)

theorem firstFault_renamed (h : List.Forall₂ (Instruction.Renamed f) s s') {k : Nat}
    {i : Instruction} {e : Fault} (hfirst : FirstFault options s k i e) :
    ∃ i', FirstFault options s' k i' e ∧ i'.opcode = i.opcode := by
  obtain ⟨hk, rfl⟩ := List.getElem?_eq_some_iff.1 hfirst.getElem?
  have hk' : k < s'.length := h.length_eq ▸ hk
  have hi : s[k].Renamed f s'[k] := h.get hk hk'
  refine ⟨s'[k], ⟨List.getElem?_eq_getElem hk', ?_, fun j' hj' => ?_⟩, hi.1⟩
  · rw [ofStream_renamed h, touches_renamed hi, fault?_rename, hfirst.fault]
  · obtain ⟨n, hn, rfl⟩ := List.mem_take_iff_getElem.1 hj'
    have hns : n < s.length := by omega
    rw [ofStream_renamed h]
    refine (faultless_renamed (h.get hns (by omega))).2 (hfirst.before _ ?_)
    exact List.mem_take_iff_getElem.2 ⟨n, by omega, rfl⟩

theorem exists_generate_renamed (h : List.Forall₂ (Instruction.Renamed f) s s')
    (hf : InjectiveOn f (valueNames s)) {p : Program} (hp : generate options s = .ok p) :
    ∃ p', generate options s' = .ok p'
      ∧ p'.lines = p.lines ∧ p'.spans = p.spans ∧ p'.labels = p.labels
      ∧ p'.bindings.toList = p.bindings.toList.map fun (k, r) => (k.rename f, r) := by
  have hlabels := ofStream_renamed h
  obtain ⟨hall, rfl⟩ := generate_eq_ok_iff.1 hp
  have hblocks := blocksOf_renamed h hf hall
  refine ⟨.layout options s', generate_of_faultless fun i' hi' => ?_, ?_, ?_, hlabels, ?_⟩
  · obtain ⟨n, hn, rfl⟩ := List.mem_iff_getElem.1 hi'
    have hns : n < s.length := h.length_eq ▸ hn
    rw [hlabels]
    exact (faultless_renamed (h.get hns hn)).2 (hall _ (List.getElem_mem hns))
  · simp only [layout, hlabels, hblocks]
  · simp only [layout, hlabels, hblocks]
  · simp only [layout, hlabels]
    exact Bindings.toList_renamed (keys_bindingsOf_renamed h hf _ _)

/-- Where the instructions of a stream came from makes no difference. -/
theorem exists_generate_relocated (h : s.map Instruction.parts = s'.map Instruction.parts)
    {p : Program} (hp : generate options s = .ok p) :
    ∃ p', generate options s' = .ok p' ∧ p'.text = p.text := by
  have hsame : List.Forall₂ (Instruction.Renamed id) s s' := by
    refine List.forall₂_iff_get.2 ⟨by simpa using congrArg List.length h, fun n hn hn' => ?_⟩
    refine Instruction.renamed_id_of_parts ?_
    simpa [hn, hn'] using congrArg (·[n]?) h
  obtain ⟨p', hp', hlines, -⟩ := exists_generate_renamed hsame (fun _ _ _ _ hvw => hvw) hp
  exact ⟨p', hp', by rw [text, text, hlines]⟩

/-- Nor does the file name that a text is read under. -/
theorem exists_generate_ofText {filename source : String} (filename' : String) {p : Program}
    (hp : generate options (Report.ofText filename source).instructions = .ok p) :
    ∃ p', generate options (Report.ofText filename' source).instructions = .ok p'
      ∧ p'.text = p.text :=
  exists_generate_relocated
    (by rw [Instruction.parts_ofText, Instruction.parts_ofText]) hp

/-- A stream whose values are renamed apart, with anything in the slots that are not used, has the
same errors and the same program but for the names of its bindings. -/
theorem generate_renamed (h : List.Forall₂ (Instruction.Renamed f) s s')
    (hf : InjectiveOn f (valueNames s)) (options : Options) :
    (∀ e, generate options s' = .error e ↔ generate options s = .error e)
    ∧ ∀ p, generate options s = .ok p → ∃ p', generate options s' = .ok p'
      ∧ p'.lines = p.lines ∧ p'.spans = p.spans ∧ p'.labels = p.labels
      ∧ p'.bindings.toList = p.bindings.toList.map fun (k, r) => (k.rename f, r) := by
  have herror : ∀ e, generate options s = .error e → generate options s' = .error e := by
    intro e he
    obtain ⟨k, i, e', hfirst, rfl⟩ := generate_eq_error_iff.1 he
    obtain ⟨i', hfirst', hop⟩ := firstFault_renamed h hfirst
    exact generate_eq_error_iff.2 ⟨k, i', e', hfirst', by rw [hop]⟩
  refine ⟨fun e => ⟨fun he => ?_, herror e⟩, fun p => exists_generate_renamed h hf⟩
  rcases hs : generate options s with e' | p
  · rw [herror e' hs] at he
    exact he
  · obtain ⟨p', hp', -⟩ := exists_generate_renamed h hf hs
    rw [hp'] at he
    cases he

/-- Three values and a jump to a label. -/
def plainNames : List Instruction :=
  [.ofTokens "ASSIGN" "#1" "a" "", .ofTokens "ADD" "a" "b" "@c", .ofTokens "JPF" "@b" "0" "",
    .ofTokens "PRINT" "c" "" ""]

/-- Names of scratch roles, a numeral and the empty name, and something in every unused slot. -/
def oddNames : List Instruction :=
  [.ofTokens "ASSIGN" "#1" "tmp1" "#2", .ofTokens "ADD" "tmp1" "0" "@",
    .ofTokens "JPF" "@0" "0" "tmp1", ⟨.print, .symbol "", .symbol "a", .memory "b", .unknown⟩]

def oddName (v : String) : String := if v = "a" then "tmp1" else if v = "b" then "0" else ""

theorem generate_renamed_oddNames :
    List.Forall₂ (Instruction.Renamed oddName) plainNames oddNames
    ∧ InjectiveOn oddName (valueNames plainNames)
    ∧ ∃ p p', generate .default plainNames = .ok p ∧ generate .default oddNames = .ok p'
      ∧ p'.lines = p.lines
      ∧ p'.bindings.toList.map Prod.fst = [.value "tmp1", .scratch .lhs, .scratch .rhs,
        .scratch .store, .value "", .value "0", .scratch .cond, .scratch .print] := by
  have hrenamed : List.Forall₂ (Instruction.Renamed oddName) plainNames oddNames :=
    .cons ⟨rfl, by decide, by decide⟩ (.cons ⟨rfl, by decide, by decide, by decide⟩
      (.cons ⟨rfl, by decide, by decide⟩ (.cons ⟨rfl, (by decide : Operand.symbol "" = _)⟩ .nil)))
  have hinjective : InjectiveOn oddName (valueNames plainNames) := by decide
  have hp : generate .default plainNames = .ok (.layout .default plainNames) :=
    generate_of_faultless (by decide)
  obtain ⟨p', hp', hlines, -, -, hbindings⟩ :=
    (generate_renamed hrenamed hinjective .default).2 _ hp
  refine ⟨hrenamed, hinjective, _, p', hp, hp', hlines, ?_⟩
  rw [hbindings]
  decide

end Program

end ThreeAddress
