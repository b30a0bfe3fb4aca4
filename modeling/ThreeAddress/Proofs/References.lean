import ThreeAddress.Proofs.Blocks

/-!
# What lowering binds

An instruction refers to scratch roles and to the names in its slots in a fixed order
(`Instruction.references`). Lowering binds their keys in that order and stops where it fails
(`Lowering.bound_result`): a table keeps all it has and gets, behind that, the keys that are new to
it, each where it comes first (`Bindings.keys_insertAll`). That holds of every call in a sequence of
calls that share one table, and so of the whole sequence (`Lowering.calls_bind`).
-/

namespace ThreeAddress

open Assembly (Line)

namespace Bindings

/-- The keys of a list that are not bound yet, each where it comes first. -/
def fresh (b : Bindings) (ks : List Key) : List Key :=
  (ks.filter (· ∉ b.keys)).eraseDups

theorem fresh_cons_of_mem {b : Bindings} {k : Key} (h : k ∈ b.keys) (ks : List Key) :
    b.fresh (k :: ks) = b.fresh ks := by
  rw [fresh, List.filter_cons_of_neg (by simpa using h), fresh]

theorem fresh_cons_of_notMem {b : Bindings} {k : Key} (h : k ∉ b.keys) (ks : List Key) :
    b.fresh (k :: ks) = k :: (b.insert k).fresh ks := by
  rw [fresh, List.filter_cons_of_pos (by simpa using h), List.eraseDups_cons, List.filter_filter,
    fresh, keys_insert_of_notMem h]
  congr 2
  refine List.filter_congr fun j _ => ?_
  by_cases hj : j = k <;> simp [hj]

theorem keys_insertAll (b : Bindings) (ks : List Key) :
    (b.insertAll ks).keys = b.keys ++ b.fresh ks := by
  induction ks generalizing b with
  | nil => simp [insertAll, fresh]
  | cons k ks ih =>
    have hcons : b.insertAll (k :: ks) = (b.insert k).insertAll ks := rfl
    rw [hcons, ih, keys_insert]
    by_cases h : k ∈ b.keys
    · have hsame : b.insert k = b := dif_pos h
      rw [if_pos h, fresh_cons_of_mem h, hsame]
    · rw [if_neg h, fresh_cons_of_notMem h, List.append_assoc, List.singleton_append]

theorem toList_eq_of_keys {b after : Bindings} {ks : List Key} (h : after.keys = b.keys ++ ks) :
    after.toList = b.toList
      ++ ks.mapIdx fun position k => (k, registerAt (b.size + position)) := by
  rw [toList, h, List.zipIdx_append, List.map_append, ← toList, List.mapIdx_eq_zipIdx_map,
    List.zipIdx_eq_map_add, List.map_map, Nat.zero_add]
  rfl

end Bindings

/-- What an instruction refers to: a scratch role, what stands in one of its slots, or the target of
its branch. -/
inductive Reference where
  | role (r : Scratch)
  | slot (n : Nat)
  | target
  deriving DecidableEq, Repr

/-- The name in an operand. A literal has none. -/
def Operand.name? : Operand → Option String
  | .memory name | .symbol name => some name
  | .empty | .immediate _ => none

namespace Instruction

def operand (i : Instruction) : Nat → Operand
  | 1 => i.a1
  | 2 => i.a2
  | 3 => i.a3
  | _ => .empty

def keysOf (i : Instruction) : Reference → List Key
  | .role r => [.scratch r]
  | .slot n => (i.operand n).name?.toList.map .value
  | .target => []

/-- In the order in which they are looked up. A memory destination has a scratch role besides. -/
def references (i : Instruction) : List Reference :=
  match i.opcode with
  | .assign => if i.a2.isMemory then [.role .store, .slot 1, .slot 2] else [.slot 2, .slot 1]
  | .add | .sub | .mult | .lessThan =>
    [.role .lhs, .role .rhs] ++ (if i.a3.isMemory then [.role .store] else [])
      ++ [.slot 3, .slot 1, .slot 2]
  | .jumpIfFalse => [.role .cond, .slot 1, .target]
  | .jump => if i.a1.isMemory then [.role .jumpPtr, .slot 1] else [.target]
  | .print => [.role .print, .slot 1]
  | .unknown _ => []

/-- The slot that the instruction writes. -/
def destination (i : Instruction) : Nat :=
  match i.opcode with
  | .assign => 2
  | _ => 3

/-- The reference that an error of lowering is about. -/
def atFault (i : Instruction) : CompileError → Option Reference
  | .missingOperand _ _ slot => some (.slot slot)
  | .invalidDestination _ _ => some (.slot i.destination)
  | .unresolvedTarget _ _ => some .target
  | .phaseViolation _ _ | .io _ => none

/-- The keys of all references, or of those before the one at fault. -/
def bound (i : Instruction) : Except CompileError (List Line) → List Key
  | .ok _ => i.references.flatMap i.keysOf
  | .error e => (i.references.takeWhile fun r => some r ≠ i.atFault e).flatMap i.keysOf

end Instruction

namespace Lowering

variable {i : Instruction} {ts us : List Touch} {rs qs : List Reference} {labels : Labels}
  {options : Options}

/-- The reference that a fault is about. -/
def Fault.place (i : Instruction) : Fault → Reference
  | .missing slot => .slot slot
  | .notDestination _ => .slot i.destination
  | .unresolved _ => .target

theorem Fault.atFault_error (i : Instruction) (index : Nat) (f : Fault) :
    i.atFault (f.error index i.opcode) = some (f.place i) := by
  cases f <;> rfl

/-- The touches look up the references in order, up to the one at fault. -/
structure Follows (i : Instruction) (ts : List Touch) (rs : List Reference) : Prop where
  free : fault? ts = none → keysBeforeFault ts = rs.flatMap i.keysOf
  stopped : ∀ f, fault? ts = some f → ∃ before after, rs = before ++ f.place i :: after
    ∧ f.place i ∉ before ∧ keysBeforeFault ts = before.flatMap i.keysOf

theorem Follows.of_faultless (hf : fault? ts = none)
    (h : keysBeforeFault ts = rs.flatMap i.keysOf) : Follows i ts rs := by
  refine ⟨fun _ => h, fun f hsome => ?_⟩
  rw [hf] at hsome
  cases hsome

theorem keysBeforeFault_append_of_fault {f : Fault} (us : List Touch) (h : fault? ts = some f) :
    keysBeforeFault (ts ++ us) = keysBeforeFault ts := by
  induction ts with
  | nil => cases h
  | cons t ts ih =>
    cases t with
    | key k => simp only [List.cons_append, keysBeforeFault, ih h]
    | fault f' => rfl

theorem Follows.append (h : Follows i ts rs) (h' : Follows i us qs)
    (hapart : ∀ r ∈ qs, r ∉ rs) : Follows i (ts ++ us) (rs ++ qs) := by
  rcases hts : fault? ts with _ | f
  · have hkeys (us : List Touch) : keysBeforeFault (ts ++ us)
        = rs.flatMap i.keysOf ++ keysBeforeFault us := by
      rw [keysBeforeFault_append us hts, h.free hts]
    refine ⟨fun hf => ?_, fun f hf => ?_⟩
    · rw [fault?_append, hts, Option.none_or] at hf
      rw [hkeys, h'.free hf, List.flatMap_append]
    · rw [fault?_append, hts, Option.none_or] at hf
      obtain ⟨before, after, rfl, hnew, hus⟩ := h'.stopped f hf
      refine ⟨rs ++ before, after, (List.append_assoc _ _ _).symm, ?_, ?_⟩
      · rw [List.mem_append]
        exact fun hr => hr.elim (hapart _ (by simp)) hnew
      · rw [hkeys, hus, List.flatMap_append]
  · have hfault : fault? (ts ++ us) = some f := by rw [fault?_append, hts, Option.some_or]
    refine ⟨fun hf => ?_, fun f' hf => ?_⟩
    · rw [hfault] at hf
      cases hf
    obtain rfl : f = f' := Option.some.inj (hfault.symm.trans hf)
    obtain ⟨before, after, rfl, hnew, hts'⟩ := h.stopped f hts
    refine ⟨before, after ++ qs, by simp, hnew, ?_⟩
    rw [keysBeforeFault_append_of_fault us hts, hts']

theorem follows_role (i : Instruction) (r : Scratch) : Follows i [.key (.scratch r)] [.role r] :=
  .of_faultless rfl rfl

theorem follows_fault (i : Instruction) (f : Fault) : Follows i [.fault f] [f.place i] := by
  refine ⟨fun hf => ?_, fun f' hf => ⟨[], [], ?_, List.not_mem_nil, rfl⟩⟩
  · cases hf
  · cases hf
    rfl

theorem follows_reads (i : Instruction) (n : Nat) :
    Follows i (reads n (i.operand n)) [.slot n] := by
  rcases ha : i.operand n with _ | l | v | v
  · exact follows_fault i (.missing n)
  all_goals
    refine .of_faultless rfl ?_
    simp [reads, keysBeforeFault, Instruction.keysOf, ha, Operand.name?]

/-- A memory destination asks for the store register first. -/
theorem follows_writes (i : Instruction) :
    Follows i (writes i.destination (i.operand i.destination))
      ((if (i.operand i.destination).isMemory then [.role .store] else [])
        ++ [.slot i.destination]) := by
  rcases ha : i.operand i.destination with _ | l | v | v
  · exact follows_fault i (.missing i.destination)
  · exact follows_fault i (.notDestination (.immediate l))
  all_goals
    refine .of_faultless rfl ?_
    simp [writes, keysBeforeFault, Instruction.keysOf, ha, Operand.name?, Operand.isMemory]

theorem follows_branches (i : Instruction) (labels : Labels) (strict : Bool) (a : Operand) :
    Follows i (branches labels strict a) [.target] := by
  unfold branches
  split
  · exact follows_fault i (.unresolved a)
  · exact follows_fault i (.unresolved a)
  · exact .of_faultless rfl rfl

theorem follows_computes {i : Instruction} (h : i.destination = 3) : Follows i (computes i)
    ([.role .lhs, .role .rhs] ++ (if i.a3.isMemory then [.role .store] else [])
      ++ [.slot 3, .slot 1, .slot 2]) := by
  have hwrites := follows_writes i
  rw [h] at hwrites
  have hscratch := (follows_role i .lhs).append (follows_role i .rhs) (by simp)
  have hall := ((hscratch.append hwrites ?_).append (follows_reads i 1) ?_).append
    (follows_reads i 2) ?_
  · simpa [computes, Instruction.operand] using hall
  all_goals
    cases (i.operand 3).isMemory <;> simp

theorem follows_touches (labels : Labels) (strict : Bool) (i : Instruction) :
    Follows i (touches labels strict i) i.references := by
  obtain ⟨op, a1, a2, a3, place⟩ := i
  cases op with
  | assign =>
    cases a2 with
    | memory v =>
      exact ((follows_role _ .store).append (follows_reads _ 1) (by simp)).append
        (follows_reads ⟨.assign, a1, .memory v, a3, place⟩ 2) (by simp)
    | empty | immediate l | symbol v =>
      exact (follows_writes ⟨.assign, a1, _, a3, place⟩).append (follows_reads _ 1)
        (by simp [Instruction.destination, Instruction.operand, Operand.isMemory])
  | add | sub | mult | lessThan => exact follows_computes rfl
  | jumpIfFalse =>
    exact ((follows_role _ .cond).append (follows_reads _ 1) (by simp)).append
      (follows_branches ⟨.jumpIfFalse, a1, a2, a3, place⟩ labels strict a2) (by simp)
  | jump =>
    cases a1 with
    | memory v =>
      exact (follows_role _ .jumpPtr).append
        (follows_reads ⟨.jump, .memory v, a2, a3, place⟩ 1) (by simp)
    | empty | immediate l | symbol v => exact follows_branches _ labels strict _
  | print => exact (follows_role _ .print).append (follows_reads _ 1) (by simp)
  | unknown tag => exact .of_faultless rfl rfl

/-- The keys that a call binds are those that its answer tells. -/
theorem bound_result (labels : Labels) (options : Options) (b : Bindings) (index : Nat)
    (i : Instruction) : i.bound (i.lower labels options b index).result
      = keysBeforeFault (touches labels options.strict i) := by
  have hfollows := follows_touches labels options.strict i
  rcases hf : fault? (touches labels options.strict i) with _ | f
  · rw [hfollows.free hf]
    simp only [Instruction.lower, hf, Instruction.bound]
  · obtain ⟨before, after, hrefs, hnew, hkeys⟩ := hfollows.stopped f hf
    have hstop : i.references.takeWhile (fun r => some r ≠ some (f.place i)) = before := by
      rw [hrefs, List.takeWhile_append_of_pos, List.takeWhile_cons_of_neg (by simp),
        List.append_nil]
      intro r hr
      simpa using fun (h : r = f.place i) => hnew (h ▸ hr)
    rw [hkeys, ← hstop]
    simp only [Instruction.lower, hf, Instruction.bound, Fault.atFault_error]

/-- The table after several calls that share it. -/
def tableAfter (labels : Labels) (options : Options) (b : Bindings)
    (calls : List (Nat × Instruction)) : Bindings :=
  calls.foldl (fun b call => (call.2.lower labels options b call.1).bindings) b

theorem tableAfter_eq_insertAll (labels : Labels) (options : Options) (b : Bindings)
    (calls : List (Nat × Instruction)) : tableAfter labels options b calls
      = b.insertAll (calls.flatMap fun call =>
        keysBeforeFault (touches labels options.strict call.2)) := by
  induction calls generalizing b with
  | nil => rfl
  | cons call calls ih =>
    rw [tableAfter, List.foldl_cons, ← tableAfter, ih, bindings_lower,
      List.flatMap_cons, Bindings.insertAll_append]

/-- Calls that share a table leave what it has, with its registers, and add the keys that are new to
it: all that the instruction refers to, or those up to the reference at fault if the call fails. The
table after the calls is the first one and then the first uses of all keys together. -/
theorem calls_bind (labels : Labels) (options : Options) (b : Bindings)
    (calls : List (Nat × Instruction)) :
    (∀ k index i, calls[k]? = some (index, i) →
      let before := tableAfter labels options b (calls.take k)
      let call := i.lower labels options before index
      tableAfter labels options b (calls.take (k + 1)) = call.bindings
      ∧ before.toList <+: call.bindings.toList
      ∧ call.bindings.keys = before.keys ++ before.fresh (i.bound call.result))
    ∧ (tableAfter labels options b calls).keys = b.keys ++ b.fresh
      (calls.flatMap fun call => call.2.bound (call.2.lower labels options b call.1).result) := by
  refine ⟨fun k index i hi => ?_, ?_⟩
  · intro before call
    have hkeys : call.bindings.keys = before.keys ++ before.fresh (i.bound call.result) := by
      rw [bindings_lower, Bindings.keys_insertAll, bound_result]
    refine ⟨?_, ?_, hkeys⟩
    · rw [List.take_add_one, hi, tableAfter, List.foldl_append]
      rfl
    · rw [Bindings.toList_eq_of_keys hkeys]
      exact List.prefix_append _ _
  · rw [tableAfter_eq_insertAll, Bindings.keys_insertAll]
    simp only [bound_result]

/-- The destination is the first source too; the call after it fails at its second source, and the
one after that before its destination. -/
example : (tableAfter .empty .default .empty [(0, .ofTokens "ADD" "a" "#1" "@a"),
    (1, .ofTokens "LT" "b" "" "c"), (2, .ofTokens "ASSIGN" "d" "#5" "")]).keys
      = [.scratch .lhs, .scratch .rhs, .scratch .store, .value "a", .value "c", .value "b"] := by
  decide

end Lowering

end ThreeAddress
