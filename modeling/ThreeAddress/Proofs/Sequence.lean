import ThreeAddress.Proofs.Log

/-!
# Lowering in sequence

Lowering can also be done in one pass that asks the table for each register when it comes to it,
tells of what it does at once, and stops at the first operand that it cannot use
(`Lowering.inSequence`). What such a pass asks for, in which order and up to where, is what is
touched, and the registers that it is given are those of the table in the end (`Lowering.Asks`). So
it is the same as binding all keys first and giving the lines then (`Lowering.inSequence_eq`).
-/

namespace ThreeAddress

namespace Bindings

theorem added_self (b : Bindings) : b.added b = [] := by
  rw [added]
  exact List.drop_eq_nil_of_le (by simp [toList, size])

theorem added_insert {b : Bindings} {k : Key} (h : k ∉ b.keys) :
    b.added (b.insert k) = [(k, registerAt b.size)] :=
  List.append_cancel_left ((toList_append_added b [k]).trans
    (toList_eq_of_keys (keys_insert_of_notMem h)))

theorem added_append_added (b : Bindings) (ks js : List Key) :
    b.added (b.insertAll ks) ++ (b.insertAll ks).added (b.insertAll (ks ++ js))
      = b.added (b.insertAll (ks ++ js)) := by
  have hall := toList_append_added b (ks ++ js)
  have hrest := toList_append_added (b.insertAll ks) js
  rw [← insertAll_append, ← toList_append_added b ks, List.append_assoc, ← hall] at hrest
  exact List.append_cancel_left hrest

end Bindings

namespace Lowering

open Assembly (Register Argument Inst Line)
open Event (ofBindings)

/-- The table and the events so far. -/
structure Work where
  bindings : Bindings
  events : List Event

abbrev Sequence := EStateM CompileError Work

section Definitions

def tell (e : Event) : Sequence Unit := modify fun w => { w with events := w.events ++ [e] }

/-- The register of a key. The first time that it is asked for, it is the next one, and that is told
of. -/
def ask (k : Key) : Sequence Register := do
  match (← get).bindings.get? k with
  | some r => return r
  | none =>
    let r := Bindings.registerAt (← get).bindings.size
    tell (.bound k r)
    modify fun w => { w with bindings := w.bindings.insert k }
    return r

/-- Where a result goes. -/
inductive Destination where
  | register (r : Register)
  /-- The result is computed in the first register and stored through the second. -/
  | cell (staging base : Register)

namespace Destination

def result : Destination → Register
  | register r => r
  | cell staging _ => staging

def writeBack : Destination → List Inst
  | register _ => []
  | cell staging base => [.str staging (.cell base)]

end Destination

variable (index : Nat) (i : Instruction)

def source (slot : Nat) : Sequence Argument :=
  match i.operand slot with
  | .empty => throw (.missingOperand index i.opcode slot)
  | .immediate literal => return .literal literal
  | .memory name => return .cell (← ask (.value name))
  | .symbol name => return .register (← ask (.value name))

/-- Moves or loads what is in a slot into a register. -/
def materialize (rd : Register) (slot : Nat) : Sequence Inst :=
  return match ← source index i slot with
    | .cell base => .ldr rd (.cell base)
    | a => .mov rd a

def destination (slot : Nat) : Sequence Destination :=
  match i.operand slot with
  | .empty => throw (.missingOperand index i.opcode slot)
  | .immediate literal => throw (.invalidDestination index (.immediate literal))
  | .symbol name => return .register (← ask (.value name))
  | .memory name => return .cell (← ask (.scratch .store)) (← ask (.value name))

def assign : Sequence (List Inst) :=
  match i.a2 with
  | .memory name => do
    let staging ← ask (.scratch .store)
    let load ← materialize index i staging 1
    let base ← ask (.value name)
    return [load, .str staging (.cell base)]
  | _ => do
    let dest ← destination index i 2
    return [← materialize index i dest.result 1]

/-- Asks for the scratch registers and the destination before the sources. -/
def compute (combine : Register → Register → Register → List Inst) : Sequence (List Inst) := do
  let lhs ← ask (.scratch .lhs)
  let rhs ← ask (.scratch .rhs)
  let dest ← destination index i 3
  let first ← materialize index i lhs 1
  let second ← materialize index i rhs 2
  return first :: second :: combine dest.result lhs rhs ++ dest.writeBack

def print : Sequence (List Inst) := do
  let value ← ask (.scratch .print)
  return (← materialize index i value 1) :: Assembly.PrintInt.call value

variable (labels : Labels) (strict : Bool)

/-- The label of the target in a slot. Strict branches reach declared labels only; of the others,
those without a number have none. -/
def branchLabel (slot : Nat) : Sequence (Option String) :=
  match (i.operand slot).address? with
  | some target =>
    match labels.declared? target with
    | some label => return some label
    | none =>
      if strict then throw (.unresolvedTarget index (i.operand slot))
      else do
        tell (.undeclared index i.opcode target)
        return labels.registered? target
  | none =>
    if strict then throw (.unresolvedTarget index (i.operand slot))
    else do
      tell (.dropped index i.opcode (i.operand slot))
      return none

def jumpIfFalse : Sequence (List Inst) := do
  let cond ← ask (.scratch .cond)
  let load ← materialize index i cond 1
  match ← branchLabel index i labels strict 2 with
  | some label =>
    tell (.branchIfZero index label)
    return [load, .cmp cond (.int 0), .bcond .eq label]
  | none => return [load, .cmp cond (.int 0)]

def jump : Sequence (List Inst) :=
  match i.a1 with
  | .memory name => do
    let pointer ← ask (.scratch .jumpPtr)
    let base ← ask (.value name)
    return [.ldr pointer (.cell base), .br pointer]
  | _ => return (← branchLabel index i labels strict 1).toList.map .b

def body : Sequence (List Line) :=
  match i.opcode with
  | .assign => return (← assign index i).map .inst
  | .add => return (← compute index i fun rd lhs rhs => [.add rd lhs (.register rhs)]).map .inst
  | .sub => return (← compute index i fun rd lhs rhs => [.sub rd lhs (.register rhs)]).map .inst
  | .mult => return (← compute index i fun rd lhs rhs => [.mul rd lhs rhs]).map .inst
  | .lessThan =>
    return (← compute index i fun rd lhs rhs =>
      [.cmp lhs (.register rhs), .cset rd .lt]).map .inst
  | .jumpIfFalse => return (← jumpIfFalse index i labels strict).map .inst
  | .jump => return (← jump index i labels strict).map .inst
  | .print => return (← print index i).map .inst
  | .unknown tag => do
    tell (.unsupported index tag)
    return [.comment (unsupportedText tag i)]

/-- Lowers an instruction in one pass. -/
def inSequence : Sequence (List Line) := do
  tell (.lowering index i)
  body index i labels strict

end Definitions

section Asking

variable {α β : Type} {w : Work} {ks : List Key} {ts us : List Touch} {es ds : List Event}
  {f : Sequence α} {g : α → Sequence β} {R : (Key → Register) → α → Prop}
  {S : α → (Key → Register) → β → Prop} {index : Nat} {i : Instruction}

namespace Work

/-- The work after some keys have been asked for. -/
def after (w : Work) (ks : List Key) : Work :=
  ⟨w.bindings.insertAll ks, w.events ++ ofBindings (w.bindings.added (w.bindings.insertAll ks))⟩

/-- The work after these events. -/
def told (w : Work) (es : List Event) : Work := { w with events := w.events ++ es }

theorem after_nil (w : Work) : w.after [] = w := by
  change (⟨w.bindings, w.events ++ ofBindings (w.bindings.added w.bindings)⟩ : Work) = w
  rw [Bindings.added_self]
  exact congrArg (Work.mk w.bindings) (List.append_nil w.events)

theorem after_of_mem {k : Key} (h : k ∈ w.bindings.keys) : w.after [k] = w := by
  have hsame : w.bindings.insertAll [k] = w.bindings := dif_pos h
  rw [after, hsame]
  exact w.after_nil

theorem after_of_notMem {k : Key} (h : k ∉ w.bindings.keys) : w.after [k] =
    ⟨w.bindings.insert k, w.events ++ [.bound k (Bindings.registerAt w.bindings.size)]⟩ := by
  have hone : w.bindings.insertAll [k] = w.bindings.insert k := rfl
  rw [after, hone, Bindings.added_insert h]
  rfl

theorem after_after (w : Work) (ks js : List Key) : (w.after ks).after js = w.after (ks ++ js) := by
  rw [after, after, after, ← Bindings.insertAll_append, List.append_assoc,
    ← Bindings.added_append_added w.bindings ks js, ofBindings, ofBindings, ofBindings,
    List.map_append]

theorem told_nil (w : Work) : w.told [] = w := by
  rw [told, List.append_nil]

theorem told_told (w : Work) (es ds : List Event) : (w.told es).told ds = w.told (es ++ ds) := by
  rw [told, told, told, List.append_assoc]

end Work

theorem bind_run (f : Sequence α) (g : α → Sequence β) (w : Work) : (f >>= g) w =
    match f w with
    | .ok a w' => g a w'
    | .error e w' => .error e w' := by
  change EStateM.bind f g w = _
  unfold EStateM.bind
  cases f w <;> rfl

theorem ask_run (k : Key) (w : Work) :
    ask k w = .ok ((w.after [k]).bindings.register k) (w.after [k]) := by
  have hrun : ask k w = match w.bindings.get? k with
      | some r => .ok r w
      | none => .ok (Bindings.registerAt w.bindings.size) ⟨w.bindings.insert k,
          w.events ++ [.bound k (Bindings.registerAt w.bindings.size)]⟩ := by
    unfold ask
    rw [bind_run]
    change (match w.bindings.get? k with | some r => _ | none => _ : Sequence Register) w = _
    cases w.bindings.get? k <;> rfl
  rw [hrun, Bindings.get?]
  by_cases hk : k ∈ w.bindings.keys
  · rw [if_pos hk, Work.after_of_mem hk]
  · rw [if_neg hk, Work.after_of_notMem hk, Bindings.register_insert_of_notMem hk]

variable (index i) in
/-- The sequence asks for the keys that are touched, up to the first fault, which it fails with. If
there is none, it tells these events after that, and has a value that is so related to the registers
of the table, whatever is asked for later. -/
def Asks (ts : List Touch) (es : List Event) (f : Sequence α)
    (R : (Key → Register) → α → Prop) : Prop :=
  ∀ w : Work, match fault? ts with
    | none => ∃ a, f w = .ok a ((w.after (keysBeforeFault ts)).told es)
        ∧ ∀ ks, R ((w.after (keysBeforeFault ts)).bindings.insertAll ks).register a
    | some fault => f w = .error (fault.error index i.opcode) (w.after (keysBeforeFault ts))

namespace Asks

theorem pure (a : α) : Asks index i [] [] (pure a) fun _ x => x = a := by
  intro w
  refine ⟨a, ?_, fun _ => rfl⟩
  change EStateM.Result.ok a w = .ok a ((w.after []).told [])
  rw [Work.after_nil, Work.told_nil]

theorem ask (k : Key) : Asks index i [.key k] [] (ask k) fun r x => x = r k := by
  intro w
  refine ⟨(w.after [k]).bindings.register k, ?_, fun ks => ?_⟩
  · rw [ask_run, Work.told_nil]
    rfl
  refine (Bindings.register_insertAll ks ?_).symm
  exact Bindings.mem_insert.2 (.inr rfl)

theorem fail (fault : Fault) :
    Asks index i [.fault fault] es (throw (fault.error index i.opcode)) R := by
  intro w
  exact congrArg _ (Work.after_nil w).symm

theorem weaken (h : Asks index i ts es f R) {R' : (Key → Register) → α → Prop}
    (hR : ∀ r a, R r a → R' r a) : Asks index i ts es f R' := by
  intro w
  have hw := h w
  cases hf : fault? ts with
  | none =>
    rw [hf] at hw
    obtain ⟨a, ha, hRa⟩ := hw
    exact ⟨a, ha, fun ks => hR _ a (hRa ks)⟩
  | some fault =>
    rw [hf] at hw
    exact hw

/-- The step: what is asked for first is not touched by what comes after it. -/
theorem bind (hf : Asks index i ts [] f R) (hg : ∀ a, Asks index i us es (g a) (S a)) :
    Asks index i (ts ++ us) es (f >>= g) fun r b => ∃ a, R r a ∧ S a r b := by
  intro w
  have hw := hf w
  rw [fault?_append]
  cases hts : fault? ts with
  | some fault =>
    rw [hts] at hw
    dsimp only at hw
    rw [Option.some_or, keysBeforeFault_append_of_fault us hts, bind_run, hw]
  | none =>
    rw [hts] at hw
    obtain ⟨a, ha, hRa⟩ := hw
    rw [Work.told_nil] at ha
    have hnext := hg a (w.after (keysBeforeFault ts))
    rw [Option.none_or, keysBeforeFault_append us hts, bind_run, ha]
    dsimp only
    cases hus : fault? us with
    | some fault =>
      rw [hus] at hnext
      rw [← Work.after_after]
      exact hnext
    | none =>
      rw [hus] at hnext
      obtain ⟨b, hb, hSb⟩ := hnext
      refine ⟨b, by rw [hb, Work.after_after], fun ks => ⟨a, ?_, ?_⟩⟩
      · have hmore := hRa (keysBeforeFault us ++ ks)
        rw [Bindings.insertAll_append] at hmore
        rwa [← Work.after_after]
      · have hlast := hSb ks
        rwa [Work.after_after] at hlast

theorem map (hf : Asks index i ts es f R) (h : α → β) :
    Asks index i ts es (do return h (← f)) fun r b => ∃ a, R r a ∧ b = h a := by
  intro w
  have hw := hf w
  rw [bind_run]
  cases hts : fault? ts with
  | some fault =>
    rw [hts] at hw
    dsimp only at hw ⊢
    rw [hw]
  | none =>
    rw [hts] at hw
    obtain ⟨a, ha, hRa⟩ := hw
    rw [ha]
    exact ⟨h a, rfl, fun ks => ⟨a, hRa ks, rfl⟩⟩

/-- Nothing is asked for behind what is told. -/
theorem finish {a : α} (hf : Asks index i ts es f fun _ x => x = a) {b : β}
    (hg : ∀ w, g a w = .ok b (w.told ds)) :
    Asks index i ts (es ++ ds) (f >>= g) fun _ x => x = b := by
  intro w
  have hw := hf w
  cases hts : fault? ts with
  | some fault =>
    rw [hts] at hw
    dsimp only at hw ⊢
    rw [bind_run, hw]
  | none =>
    rw [hts] at hw
    obtain ⟨a', ha, hsame⟩ := hw
    cases hsame []
    refine ⟨b, ?_, fun _ => rfl⟩
    rw [bind_run, ha]
    dsimp only
    rw [hg, Work.told_told]

theorem told {a : α} (h : ∀ w, f w = .ok a (w.told es)) :
    Asks index i [] es f fun _ x => x = a := by
  intro w
  refine ⟨a, ?_, fun _ => rfl⟩
  rw [h]
  exact congrArg (fun w' => EStateM.Result.ok a (w'.told es)) w.after_nil.symm

end Asks

end Asking

section Parts

variable (index : Nat) (i : Instruction) (labels : Labels) (strict : Bool)

theorem asks_materialize (rd : Register) (slot : Nat) :
    Asks index i (reads slot (i.operand slot)) [] (materialize index i rd slot)
      fun r x => load r rd (i.operand slot) = [x] := by
  unfold materialize source
  cases i.operand slot with
  | empty =>
    refine ((Asks.fail (R := fun _ _ => False) (.missing slot)).map _).weaken ?_
    rintro r x ⟨_, ⟨⟩, _⟩
  | immediate literal =>
    refine ((Asks.pure _).map _).weaken ?_
    rintro r x ⟨_, rfl, rfl⟩
    rfl
  | memory name | symbol name =>
    refine (((Asks.ask _).map _).map _).weaken ?_
    rintro r x ⟨_, ⟨_, rfl, rfl⟩, rfl⟩
    rfl

theorem asks_destination (slot : Nat) :
    Asks index i (writes slot (i.operand slot)) [] (destination index i slot)
      fun r x => x.result = result r (i.operand slot)
        ∧ x.writeBack = writeBack r (i.operand slot) := by
  unfold destination
  cases i.operand slot with
  | empty => exact .fail (.missing slot)
  | immediate literal => exact .fail (.notDestination (.immediate literal))
  | symbol name =>
    refine ((Asks.ask _).map _).weaken ?_
    rintro r x ⟨_, rfl, rfl⟩
    exact ⟨rfl, rfl⟩
  | memory name =>
    refine ((Asks.ask _).bind fun _ => (Asks.ask _).map _).weaken ?_
    rintro r x ⟨_, rfl, _, rfl, rfl⟩
    exact ⟨rfl, rfl⟩

theorem asks_compute (combine : Register → Register → Register → List Inst) :
    Asks index i (.key (.scratch .lhs) :: .key (.scratch .rhs) :: writes 3 i.a3
        ++ reads 1 i.a1 ++ reads 2 i.a2) [] (compute index i combine)
      fun r x => x = loadBoth r i
        ++ combine (result r i.a3) (r (.scratch .lhs)) (r (.scratch .rhs))
        ++ writeBack r i.a3 := by
  have htouches : .key (.scratch .lhs) :: .key (.scratch .rhs) :: writes 3 i.a3 ++ reads 1 i.a1
      ++ reads 2 i.a2 = [.key (.scratch .lhs)] ++ ([.key (.scratch .rhs)] ++ (writes 3 i.a3
        ++ (reads 1 i.a1 ++ reads 2 i.a2))) := by
    simp
  rw [htouches]
  refine ((Asks.ask _).bind fun lhs => (Asks.ask _).bind fun rhs =>
    (asks_destination index i 3).bind fun dest => (asks_materialize index i lhs 1).bind fun first =>
      (asks_materialize index i rhs 2).map _).weaken ?_
  rintro r x ⟨_, rfl, _, rfl, dest, ⟨hresult, hback⟩, first, hfirst, second, hsecond, rfl⟩
  have hloads : loadBoth r i = [first] ++ [second] := congrArg₂ _ hfirst hsecond
  rw [hloads, hresult, hback]
  rfl

theorem asks_branchLabel (slot : Nat) :
    Asks index i (branches labels strict (i.operand slot))
      (targetEvents labels index i (i.operand slot)) (branchLabel index i labels strict slot)
      fun _ x => x = (Target.find labels (i.operand slot)).label? := by
  unfold branchLabel branches targetEvents Target.find
  cases (i.operand slot).address? with
  | none =>
    dsimp only
    cases strict with
    | true => exact .fail (.unresolved (i.operand slot))
    | false => exact .told fun w => rfl
  | some target =>
    dsimp only
    cases labels.declared? target with
    | some label => cases strict <;> exact .pure _
    | none =>
      cases strict with
      | true => exact .fail (.unresolved (i.operand slot))
      | false => exact .told fun w => rfl

theorem asks_jumpIfFalse : Asks index i
    (.key (.scratch .cond) :: reads 1 i.a1 ++ branches labels strict i.a2)
    (targetEvents labels index i i.a2
      ++ (Target.find labels i.a2).label?.toList.map (.branchIfZero index))
    (jumpIfFalse index i labels strict)
    fun r x => x = load r (r (.scratch .cond)) i.a1 ++ [.cmp (r (.scratch .cond)) (.int 0)]
      ++ (Target.find labels i.a2).label?.toList.map (.bcond .eq) := by
  have hbranch (cond : Register) (first : Inst) : Asks index i (branches labels strict i.a2)
      (targetEvents labels index i i.a2
        ++ (Target.find labels i.a2).label?.toList.map (.branchIfZero index))
      (do
        match ← branchLabel index i labels strict 2 with
        | some label =>
          tell (.branchIfZero index label)
          return [first, .cmp cond (.int 0), .bcond .eq label]
        | none => return [first, .cmp cond (.int 0)])
      fun _ x => x = [first, .cmp cond (.int 0)]
        ++ (Target.find labels i.a2).label?.toList.map (.bcond .eq) := by
    refine (asks_branchLabel index i labels strict 2).finish fun w => ?_
    change (match (Target.find labels i.a2).label? with | some label => _ | none => _
      : Sequence (List Inst)) w = _
    cases (Target.find labels i.a2).label? with
    | some label => rfl
    | none => exact congrArg (EStateM.Result.ok _) w.told_nil.symm
  refine ((Asks.ask _).bind fun cond => (asks_materialize index i cond 1).bind fun first =>
    hbranch cond first).weaken ?_
  rintro r x ⟨_, rfl, first, hfirst, rfl⟩
  change load r _ i.a1 = [first] at hfirst
  rw [hfirst]
  rfl

theorem asks_branch : Asks index i (branches labels strict i.a1)
    (targetEvents labels index i i.a1)
    (do return (← branchLabel index i labels strict 1).toList.map .b)
    fun _ x => x = (Target.find labels i.a1).label?.toList.map Inst.b := by
  refine ((asks_branchLabel index i labels strict 1).map _).weaken ?_
  rintro r x ⟨_, rfl, rfl⟩
  rfl

theorem asks_assign (h : i.opcode = .assign) : Asks index i (touches labels strict i) []
    (assign index i) fun r x => x = insts r labels i := by
  obtain ⟨op, a1, a2, a3, place⟩ := i
  subst h
  cases a2 with
  | memory name =>
    refine ((Asks.ask _).bind fun staging =>
      (asks_materialize index ⟨.assign, a1, .memory name, a3, place⟩ staging 1).bind fun first =>
        (Asks.ask _).map _).weaken ?_
    rintro r x ⟨_, rfl, first, hfirst, _, rfl, rfl⟩
    exact congrArg (· ++ [_]) hfirst.symm
  | empty | immediate literal | symbol name =>
    refine ((asks_destination index ⟨.assign, a1, _, a3, place⟩ 2).bind fun dest =>
      (asks_materialize index _ dest.result 1).map _).weaken ?_
    rintro r x ⟨dest, ⟨hresult, -⟩, first, hfirst, rfl⟩
    rw [hresult] at hfirst
    exact (List.append_nil [first]).symm.trans (congrArg (· ++ []) hfirst.symm)

theorem asks_jump (h : i.opcode = .jump) : Asks index i (touches labels strict i)
    (closingEvents labels index i) (jump index i labels strict)
    fun r x => x = insts r labels i := by
  obtain ⟨op, a1, a2, a3, place⟩ := i
  subst h
  cases a1 with
  | memory name =>
    refine ((Asks.ask _).bind fun pointer => (Asks.ask _).map _).weaken ?_
    rintro r x ⟨_, rfl, _, rfl, rfl⟩
    rfl
  | empty | immediate literal | symbol name =>
    exact (asks_branch index ⟨.jump, _, a2, a3, place⟩ labels strict)

theorem asks_print : Asks index i (.key (.scratch .print) :: reads 1 i.a1) []
    (print index i) fun r x => x = load r (r (.scratch .print)) i.a1
      ++ Assembly.PrintInt.call (r (.scratch .print)) := by
  refine ((Asks.ask _).bind fun value => (asks_materialize index i value 1).map _).weaken ?_
  rintro r x ⟨_, rfl, first, hfirst, rfl⟩
  exact congrArg (· ++ _) hfirst.symm

variable {index i labels} in
theorem Asks.lines {ts : List Touch} {es : List Event} {f : Sequence (List Inst)}
    (h : Asks index i ts es f fun r x => x = insts r labels i) :
    Asks index i ts es (do return (← f).map Line.inst)
      fun r x => x = (insts r labels i).map .inst := by
  refine (h.map _).weaken ?_
  rintro r x ⟨_, rfl, rfl⟩
  rfl

/-- The whole instruction, one case an operator. -/
theorem asks_body : Asks index i (touches labels strict i) (closingEvents labels index i)
    (body index i labels strict) fun r x => x = lines r labels i := by
  obtain ⟨op, a1, a2, a3, place⟩ := i
  cases op with
  | assign => exact (asks_assign index _ labels strict rfl).lines
  | add => exact Asks.lines (asks_compute index ⟨.add, a1, a2, a3, place⟩ _)
  | sub => exact Asks.lines (asks_compute index ⟨.sub, a1, a2, a3, place⟩ _)
  | mult => exact Asks.lines (asks_compute index ⟨.mult, a1, a2, a3, place⟩ _)
  | lessThan => exact Asks.lines (asks_compute index ⟨.lessThan, a1, a2, a3, place⟩ _)
  | jumpIfFalse =>
    exact Asks.lines (asks_jumpIfFalse index ⟨.jumpIfFalse, a1, a2, a3, place⟩ labels strict)
  | jump => exact (asks_jump index _ labels strict rfl).lines
  | print => exact Asks.lines (asks_print index ⟨.print, a1, a2, a3, place⟩)
  | unknown tag => exact .told fun w => rfl

/-- The registers of the whole table are those that were asked for one by one. -/
theorem inSequence_eq (options : Options) (b : Bindings) (es : List Event) :
    inSequence index i labels options.strict ⟨b, es⟩ =
      let lowered := i.lower labels options b index
      match lowered.result with
      | .ok ls => .ok ls ⟨lowered.bindings, es ++ lowered.events⟩
      | .error e => .error e ⟨lowered.bindings, es ++ lowered.events⟩ := by
  have h := asks_body index i labels options.strict (Work.told ⟨b, es⟩ [.lowering index i])
  have hrun : inSequence index i labels options.strict ⟨b, es⟩
      = body index i labels options.strict (Work.told ⟨b, es⟩ [.lowering index i]) := bind_run _ _ _
  rw [hrun, Instruction.lower]
  cases hf : fault? (touches labels options.strict i) with
  | none =>
    rw [hf] at h
    obtain ⟨ls, hls, hlines⟩ := h
    cases hlines []
    rw [hls]
    simp [Work.told, Work.after, ofBindings, Bindings.insertAll]
  | some fault =>
    rw [hf] at h
    dsimp only at h ⊢
    rw [h]
    simp [Work.told, Work.after, ofBindings]

end Parts

end Lowering

end ThreeAddress
