import Mathlib.Data.List.Basic
import ThreeAddress.Lowering

/-!
# Which register a key has

Below `2 ^ 32` keys no two bound keys share a register (`register_inj`). What an instruction is
lowered to looks at the registers of the keys it touches and at no others (`lines_congr`), so the
lines stay what they are while the table grows (`lines_insertAll`).
-/

namespace ThreeAddress

open Assembly (Register Inst Line)

namespace Bindings

theorem get?_eq_some {b : Bindings} {k : Key} {r : Register} :
    b.get? k = some r ↔ k ∈ b.keys ∧ b.register k = r := by
  unfold get?
  split <;> simp [*]

theorem insertAll_append (b : Bindings) (ks js : List Key) :
    b.insertAll (ks ++ js) = (b.insertAll ks).insertAll js :=
  List.foldl_append

theorem mem_insertAll {b : Bindings} {ks : List Key} {j : Key} :
    j ∈ (b.insertAll ks).keys ↔ j ∈ b.keys ∨ j ∈ ks := by
  induction ks generalizing b with
  | nil => simp [insertAll]
  | cons k ks ih =>
    show j ∈ ((b.insert k).insertAll ks).keys ↔ _
    rw [ih, mem_insert, List.mem_cons, or_assoc]

theorem register_inj {b : Bindings} (hb : b.size ≤ UInt32.size) {j k : Key} (hj : j ∈ b.keys)
    (hk : k ∈ b.keys) : b.register j = b.register k ↔ j = k := by
  refine ⟨fun h => ?_, fun h => h ▸ rfl⟩
  have hj' := List.idxOf_lt_length_of_mem hj
  have hk' := List.idxOf_lt_length_of_mem hk
  unfold size at hb
  simp only [register, registerAt, Register.x.injEq] at h
  have h' := congrArg UInt32.toNat h
  rw [UInt32.toNat_ofNat_of_lt' (by omega), UInt32.toNat_ofNat_of_lt' (by omega)] at h'
  exact (List.idxOf_inj hj).1 h'

theorem register_ne {b : Bindings} (hb : b.size ≤ UInt32.size) {j k : Key} (hj : j ∈ b.keys)
    (hk : k ∈ b.keys) (h : j ≠ k) : b.register j ≠ b.register k :=
  (register_inj hb hj hk).not.2 h

end Bindings

namespace Lowering

theorem mem_keysBeforeFault {ts : List Touch} (h : fault? ts = none) {k : Key} :
    k ∈ keysBeforeFault ts ↔ .key k ∈ ts := by
  induction ts with
  | nil => simp [keysBeforeFault]
  | cons t ts ih =>
    cases t with
    | key j => simp [keysBeforeFault, ih h]
    | fault f => simp [fault?] at h

theorem key_mem_of_keysBeforeFault {ts : List Touch} {k : Key} (h : k ∈ keysBeforeFault ts) :
    .key k ∈ ts := by
  induction ts with
  | nil => cases h
  | cons t ts ih =>
    cases t with
    | key j =>
      rcases List.mem_cons.1 h with rfl | h
      · exact List.mem_cons_self
      · exact List.mem_cons_of_mem _ (ih h)
    | fault e => cases h

theorem fault?_reads {slot : Nat} {a : Operand} : fault? (reads slot a) = none ↔ a ≠ .empty := by
  cases a <;> simp [reads, fault?]

theorem fault?_writes {slot : Nat} {a : Operand} :
    fault? (writes slot a) = none ↔ (∃ v, a = .memory v) ∨ ∃ v, a = .symbol v := by
  cases a <;> simp [writes, fault?]

variable {r r' : Key → Register}

theorem load_congr (slot : Nat) {a : Operand} (rd : Register)
    (h : ∀ k, .key k ∈ reads slot a → r k = r' k) : load r rd a = load r' rd a := by
  cases a <;> simp_all [reads, load]

theorem result_congr {slot : Nat} {a : Operand} (hf : fault? (writes slot a) = none)
    (h : ∀ k, .key k ∈ writes slot a → r k = r' k) : result r a = result r' a := by
  rcases fault?_writes.1 hf with ⟨v, rfl⟩ | ⟨v, rfl⟩ <;> simp_all [writes, result]

theorem writeBack_congr (slot : Nat) {a : Operand}
    (h : ∀ k, .key k ∈ writes slot a → r k = r' k) : writeBack r a = writeBack r' a := by
  cases a <;> simp_all [writes, writeBack]

theorem loadBoth_congr {i : Instruction} (hl : r (.scratch .lhs) = r' (.scratch .lhs))
    (hr : r (.scratch .rhs) = r' (.scratch .rhs))
    (h1 : ∀ k, .key k ∈ reads 1 i.a1 → r k = r' k) (h2 : ∀ k, .key k ∈ reads 2 i.a2 → r k = r' k) :
    loadBoth r i = loadBoth r' i := by
  rw [loadBoth, loadBoth, hl, hr, load_congr 1 _ h1, load_congr 2 _ h2]

/-- The touches of the four operators that compute from two sources. -/
def computes (i : Instruction) : List Touch :=
  .key (.scratch .lhs) :: .key (.scratch .rhs) :: writes 3 i.a3 ++ reads 1 i.a1 ++ reads 2 i.a2

theorem faults_computes {i : Instruction} : fault? (computes i) = none
    ↔ fault? (writes 3 i.a3) = none ∧ fault? (reads 1 i.a1) = none
      ∧ fault? (reads 2 i.a2) = none := by
  simp only [computes, fault?, List.cons_append, fault?_append, Option.or_eq_none_iff, and_assoc]

theorem computes_congr {i : Instruction} (hf : fault? (computes i) = none)
    (h : ∀ k, .key k ∈ computes i → r k = r' k) :
    loadBoth r i = loadBoth r' i ∧ r (.scratch .lhs) = r' (.scratch .lhs)
      ∧ r (.scratch .rhs) = r' (.scratch .rhs) ∧ result r i.a3 = result r' i.a3
      ∧ writeBack r i.a3 = writeBack r' i.a3 := by
  have hl : r (.scratch .lhs) = r' (.scratch .lhs) := h _ (by simp [computes])
  have hr : r (.scratch .rhs) = r' (.scratch .rhs) := h _ (by simp [computes])
  refine ⟨loadBoth_congr hl hr (fun k hk => ?_) fun k hk => ?_, hl, hr, ?_, ?_⟩
  · exact h k (by simp [computes, hk])
  · exact h k (by simp [computes, hk])
  · exact result_congr (faults_computes.1 hf).1 fun k hk => h k (by simp [computes, hk])
  · exact writeBack_congr 3 fun k hk => h k (by simp [computes, hk])

/-- The registers of the keys that a faultless instruction touches decide its lines. -/
theorem lines_congr {labels : Labels} {strict : Bool} {i : Instruction}
    (hf : fault? (touches labels strict i) = none)
    (h : ∀ k, .key k ∈ touches labels strict i → r k = r' k) :
    lines r labels i = lines r' labels i := by
  obtain ⟨op, a1, a2, a3, place⟩ := i
  cases op with
  | assign =>
    cases a2 with
    | memory v =>
      simp only [touches] at h
      have hs : r (.scratch .store) = r' (.scratch .store) := h _ (by simp)
      have hl (rd : Register) : load r rd a1 = load r' rd a1 :=
        load_congr 1 rd fun k hk => h k (by simp [hk])
      have hv : r (.value v) = r' (.value v) := h _ (by simp)
      simp only [lines, insts, result, writeBack, hl, hs, hv]
    | symbol v =>
      simp only [touches] at h
      have hl (rd : Register) : load r rd a1 = load r' rd a1 :=
        load_congr 1 rd fun k hk => h k (by simp [hk])
      have hv : r (.value v) = r' (.value v) := h _ (by simp [writes])
      simp only [lines, insts, result, writeBack, hl, hv]
    | empty => simp [touches, writes, fault?] at hf
    | immediate l => simp [touches, writes, fault?] at hf
  | add | sub | mult | lessThan =>
    obtain ⟨h1, h2, h3, h4, h5⟩ := computes_congr  hf h
    simp only [lines, insts, h1, h2, h3, h4, h5]
  | jumpIfFalse =>
    simp only [touches] at h
    have hc : r (.scratch .cond) = r' (.scratch .cond) := h _ (by simp)
    have hl (rd : Register) : load r rd a1 = load r' rd a1 :=
        load_congr 1 rd fun k hk => h k (by simp [hk])
    simp only [lines, insts, hl, hc]
  | jump =>
    cases a1 with
    | memory v =>
      simp only [touches] at h
      have hp : r (.scratch .jumpPtr) = r' (.scratch .jumpPtr) := h _ (by simp)
      have hv : r (.value v) = r' (.value v) := h _ (by simp)
      simp only [lines, insts, hp, hv]
    | empty | immediate l | symbol v => rfl
  | print =>
    simp only [touches] at h
    have hp : r (.scratch .print) = r' (.scratch .print) := h _ (by simp)
    have hl (rd : Register) : load r rd a1 = load r' rd a1 :=
        load_congr 1 rd fun k hk => h k (by simp [hk])
    simp only [lines, insts, hl, hp]
  | unknown tag => rfl

/-- A table that has all keys of a faultless instruction gives its lines once and for all. -/
theorem lines_insertAll {labels : Labels} {strict : Bool} {i : Instruction} {b : Bindings}
    (hf : fault? (touches labels strict i) = none)
    (hb : ∀ k ∈ keysBeforeFault (touches labels strict i), k ∈ b.keys) (ks : List Key) :
    lines (b.insertAll ks).register labels i = lines b.register labels i :=
  lines_congr hf fun k hk =>
    Bindings.register_insertAll ks (hb k ((mem_keysBeforeFault hf).2 hk))

end Lowering

end ThreeAddress
