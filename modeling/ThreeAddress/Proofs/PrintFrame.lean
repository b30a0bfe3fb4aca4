import ThreeAddress.Proofs.Printing

/-!
# Which registers printing keeps

The registers of names begin at `x0`, and the print routine works in `x0` to `x8` with its return
address in `x30`. So a name keeps its word over a print only if its register is none of these
(`print_keeps_iff`); the first names of a stream lose theirs (`print_overwrites`).
-/

namespace ThreeAddress

open Assembly (Register Line Word Setting Machine numeral length_numeral_pos length_numeral_le)
open Assembly.Machine (Path Printed)
open Assembly.PrintInt (bufferSize)
open Lowering

namespace Assembly.Machine

variable {s : Setting} {lines : List Line} {m a b : Machine} {base : Word}

/-- The first machine at a return that a run comes to. -/
def Returns (s : Setting) (lines : List Line) (m after : Machine) : Prop :=
  (∃ way, Path s lines (fun q => lines[q.line]? ≠ some (.indented .ret)) way m after)
    ∧ lines[after.line]? = some (.indented .ret)

theorem Returns.unique (ha : Returns s lines m a) (hb : Returns s lines m b) : a = b := by
  obtain ⟨⟨way, hway⟩, hreta⟩ := ha
  obtain ⟨⟨way', hway'⟩, hretb⟩ := hb
  induction hway generalizing way' with
  | refl =>
    cases hway' with
    | refl => rfl
    | step hne _ _ => exact absurd hreta hne
  | step hne hstep _ ih =>
    cases hway' with
    | refl => exact absurd hretb hne
    | step _ hstep' hrest =>
      cases Option.some.inj (hstep.symm.trans hstep')
      exact ih hreta _ hrest

/-- For each register that the routine works in there is a word that it never leaves there. -/
theorem Printed.exists_ne (base : Word) {n : UInt32} (hn : n ≤ 8) :
    ∃ u, ∀ w q, Printed base w q → q.x n ≠ u := by
  have hpos (w : Word) := length_numeral_pos w
  have hle (w : Word) := length_numeral_le w
  have hcases : n = 0 ∨ n = 1 ∨ n = 2 ∨ n = 3 ∨ n = 4 ∨ n = 5 ∨ n = 6 ∨ n = 7 ∨ n = 8 := by
    have := UInt32.le_iff_toNat_le.1 hn
    simp only [← UInt32.toNat_inj]
    have h8 : (8 : UInt32).toNat = 8 := rfl
    rw [h8] at this
    show n.toNat = 0 ∨ n.toNat = 1 ∨ n.toNat = 2 ∨ n.toNat = 3 ∨ n.toNat = 4 ∨ n.toNat = 5
      ∨ n.toNat = 6 ∨ n.toNat = 7 ∨ n.toNat = 8
    omega
  have hcount (w : Word) : BitVec.ofNat 64 (numeral w).length ≠ 0 := by
    have := hpos w
    have := hle w
    bv_omega
  have hcursor (w : Word) : base + .ofNat 64 bufferSize - .ofNat 64 (numeral w).length
      ≠ base + .ofNat 64 bufferSize := by
    have := hcount w
    bv_omega
  rcases hcases with rfl | rfl | rfl | rfl | rfl | rfl | rfl | rfl | rfl
  · exact ⟨0, fun w q h => by rw [h.x0]; decide⟩
  · exact ⟨_, fun w q h => h.x1 ▸ hcursor w⟩
  · exact ⟨0, fun w q h => h.x2 ▸ hcount w⟩
  · exact ⟨0, fun w q h => by rw [h.x3]; decide⟩
  · exact ⟨_, fun w q h => h.x4 ▸ hcursor w⟩
  · exact ⟨0, fun w q h => h.x5 ▸ hcount w⟩
  · exact ⟨1, fun w q h => by rw [h.x6]; decide⟩
  · exact ⟨1, fun w q h => by rw [h.x7]; decide⟩
  · exact ⟨0, fun w q h => by rw [h.x8]; decide⟩

end Assembly.Machine

/-- A register that printing the operand keeps: the routine does not work in it, it is not the
link register, and the scratch register only if that is where the operand's own word stands. -/
def Lowering.Spared (register : Key → Register) (a : Operand) (r : Register) : Prop :=
  8 < r.number ∧ r.number ≠ 30
    ∧ (r = register (.scratch .print) → ∃ v, a = .symbol v ∧ register (.value v) = r)

namespace Program

open Assembly.Machine (Returns)

variable {options : Options} {stream : List Instruction} {s : Setting} {m : Machine} {base : Word}
  {index : Nat} {i : Instruction}

/-- What a print leaves in every register. -/
theorem print_returns (hf : Faultless (.ofStream stream) options.strict i) (hs : s.Faithful base)
    (hi : stream[index]? = some i) (hop : i.opcode = .print)
    (hm : m.line = (layout options stream).lineFor index) {c : UInt32}
    (hc : (layout options stream).bindings.register (.scratch .print) = .x c) :
    ∃ w after, valueIn? (layout options stream).bindings.register s m i.a1 = some w
      ∧ Returns s (layout options stream).lines m after ∧ Printed base w after
      ∧ after.x 30 = s.codeOf ((layout options stream).lineFor (index + 1))
      ∧ ∀ n, 8 < n → n ≠ 30 → after.x n = if n = c then w else m.x n := by
  have hr := routineAt_layout options stream
  obtain ⟨w, before, q, hw, hbefore, -, hblock, hline, hx1, hx, hlink⟩ :=
    print_enters hf hs hi hop hm hc
  obtain ⟨way, after, hpath, hkeeps, hret, -, hway, -, hprinted⟩ := Machine.routine_runs hr hs hline
  refine ⟨w, after, hw, ⟨⟨_, (hbefore.on_way.mono ?_).trans (hpath.on_way.mono ?_)⟩, ?_⟩,
    hx1 ▸ hprinted, (hkeeps.x 30 (by decide)).trans hlink, fun n hn h30 => ?_⟩
  · rintro q ⟨-, hk⟩ hl
    obtain ⟨l, hmem, hl'⟩ := getElem?_of_block options hi (hblock _ hk).1 (hblock _ hk).2
    cases Option.some.inj (hl.symm.trans hl')
    exact indented_notMem_block hmem
  · rintro q ⟨-, hk⟩ hl
    obtain ⟨d, hd⟩ := Nat.exists_eq_add_of_le (Nat.le_of_succ_le (hway _ hk).1)
    have hd21 : d < 21 := by
      have := (hway _ hk).2
      omega
    rw [hd, (placed_routine options stream).get (Nat.lt_trans hd21 (by decide))] at hl
    exact absurd hl ((by decide : ∀ d < 21, Assembly.PrintInt.routine[d]? ≠ some (.indented .ret))
      d hd21)
  · rw [hret]
    exact hr.write.get (j := 5) (by decide)
  · refine (hkeeps.x n hn).trans (hx n (UInt32.lt_trans (by decide) hn) h30)

/-- The print with this index leaves the register with the word it had, whatever the machine. -/
def PrintKeeps (p : Program) (s : Setting) (index : Nat) (r : Register) : Prop :=
  ∀ m : Machine, m.line = p.lineFor index
    → ∃ after, Returns s p.lines m after ∧ after.get r = m.get r

/-- The operand of which every machine has the word in one register is a name in that register. -/
theorem symbol_of_valueIn? {register : Key → Register} {line : Nat} {a : Operand}
    {n : UInt32}
    (hreg : ∀ k, ∃ j, register k = .x j)
    (h : ∀ x : UInt32 → Word, valueIn? register s (.fresh line x) a = some (x n)) :
    ∃ v, a = .symbol v ∧ register (.value v) = .x n := by
  cases a with
  | empty => cases h fun _ => 0
  | immediate l =>
    have := Option.some.inj (h fun _ => s.literal l + 1)
    bv_omega
  | memory u =>
    have := h fun _ => 1
    simp [valueIn?, Machine.fresh, Assembly.Memory.load] at this
  | symbol u =>
    refine ⟨u, rfl, ?_⟩
    obtain ⟨k, hk⟩ := hreg (.value u)
    by_contra hne
    have hkn : k ≠ n := fun h => hne (hk.trans (congrArg _ h))
    have := h fun j => if j = n then 1 else 0
    rw [valueIn?, hk] at this
    simp [Machine.fresh, Machine.get, hkn] at this

section Keeps

variable (hf : Faultless (.ofStream stream) options.strict i) (hs : s.Faithful base)
  (hi : stream[index]? = some i) (hop : i.opcode = .print) {n c : UInt32}
  (hc : (layout options stream).bindings.register (.scratch .print) = .x c)
include hf hs hi hop hc

theorem printKeeps_of_spared
    (h : Spared (layout options stream).bindings.register i.a1 (.x n)) :
    (layout options stream).PrintKeeps s index (.x n) := by
  obtain ⟨h8, h30, hscratch⟩ := h
  intro m hm
  obtain ⟨w, after, hw, hreturns, -, -, hx⟩ := print_returns hf hs hi hop hm hc
  refine ⟨after, hreturns, (hx n h8 h30).trans ?_⟩
  split
  · next hn =>
    obtain ⟨u, hu, hreg⟩ := hscratch (by rw [hc, hn])
    rw [hu, valueIn?, hreg] at hw
    exact (Option.some.inj hw).symm
  · rfl

/-- What a register that is kept holds at the return, whatever words the registers hold at first. -/
theorem PrintKeeps.returns (h : (layout options stream).PrintKeeps s index (.x n))
    (x : UInt32 → Word) : ∃ w after,
      valueIn? (layout options stream).bindings.register s
          (.fresh ((layout options stream).lineFor index) x) i.a1 = some w
        ∧ Printed base w after
        ∧ after.x 30 = s.codeOf ((layout options stream).lineFor (index + 1))
        ∧ (8 < n → n ≠ 30 → after.x n = if n = c then w else x n) ∧ after.x n = x n := by
  have hline : (Machine.fresh ((layout options stream).lineFor index) x).line
      = (layout options stream).lineFor index := rfl
  obtain ⟨after, hreturns, hget⟩ := h _ hline
  obtain ⟨w, after', hw, hreturns', hprinted, hlink, hx⟩ := print_returns hf hs hi hop hline hc
  cases hreturns.unique hreturns'
  exact ⟨w, after, hw, hprinted, hlink, hx n, hget⟩

theorem spared_of_printKeeps (h : (layout options stream).PrintKeeps s index (.x n)) :
    Spared (layout options stream).bindings.register i.a1 (.x n) := by
  have hreturns := h.returns hf hs hi hop hc
  have h8 : 8 < n := by
    by_contra hn
    obtain ⟨u, hu⟩ := Printed.exists_ne base (UInt32.not_lt.1 hn)
    obtain ⟨w, after, -, hprinted, -, -, hget⟩ := hreturns fun _ => u
    exact hu w after hprinted hget
  have h30 : n ≠ 30 := by
    rintro rfl
    obtain ⟨w, after, -, -, hlink, -, hget⟩ :=
      hreturns fun _ => s.codeOf ((layout options stream).lineFor (index + 1)) + 1
    rw [hlink] at hget
    bv_omega
  refine ⟨h8, h30, fun hscratch => ?_⟩
  cases Register.x.inj (hscratch.trans hc)
  have hword (x : UInt32 → Word) : valueIn? (layout options stream).bindings.register s
      (.fresh ((layout options stream).lineFor index) x) i.a1 = some (x n) := by
    obtain ⟨w, after, hw, -, -, hx, hget⟩ := hreturns x
    rw [hw, ← hget, hx h8 h30, if_pos rfl]
  exact symbol_of_valueIn? (fun _ => ⟨_, rfl⟩) hword

end Keeps

/-- A print keeps a name's word exactly when it spares the name's register. -/
theorem print_keeps_iff {p : Program} (hp : generate options stream = .ok p)
    (hs : s.Faithful base) (hi : stream[index]? = some i) (hop : i.opcode = .print) {v : String}
    {r : Register} (hv : p.bindings.get? (.value v) = some r) :
    p.PrintKeeps s index r ↔ Spared p.bindings.register i.a1 r := by
  obtain ⟨hf, rfl⟩ := generate_eq_ok_iff.1 hp
  have hf := hf i (List.mem_of_getElem? hi)
  obtain ⟨n, rfl⟩ : ∃ n, r = .x n := ⟨_, (Bindings.get?_eq_some.1 hv).2.symm⟩
  exact ⟨spared_of_printKeeps hf hs hi hop rfl, printKeeps_of_spared hf hs hi hop rfl⟩

/-- Ten names, the last of which is printed. -/
def tenNames : List Instruction :=
  (List.range 10).map (fun k => .ofTokens "ASSIGN" "#0" ("v" ++ toString k) "")
    ++ [.ofTokens "PRINT" "v9" "" ""]

/-- The tenth name has `x9` and keeps its word. -/
theorem print_keeps_tenth : ∃ p, generate .default tenNames = .ok p
    ∧ p.bindings.get? (.value "v9") = some (.x 9) ∧ p.PrintKeeps .sample 10 (.x 9) := by
  have hp : generate .default tenNames = .ok (layout .default tenNames) :=
    generate_of_faultless (by decide)
  have hi : tenNames[10]? = some (.ofTokens "PRINT" "v9" "" "") := rfl
  have hv : (layout .default tenNames).bindings.get? (.value "v9") = some (.x 9) := by decide
  refine ⟨_, hp, hv, (print_keeps_iff hp Assembly.Setting.sample_faithful hi rfl hv).2 ?_⟩
  exact ⟨by decide, by decide, fun h => absurd h (by decide)⟩

/-- The first name of a stream has `x0`, which a print leaves at one. -/
theorem print_overwrites : ∃ p, generate .default assignThenPrint = .ok p
    ∧ ¬ ∀ (m after : Machine) (v : String) (r : Register), m.line = p.lineFor 1
        → Returns .sample p.lines m after → p.bindings.get? (.value v) = some r
        → after.get r = m.get r := by
  have hf : ∀ i ∈ assignThenPrint, Faultless (.ofStream assignThenPrint) true i := by decide
  have hi : assignThenPrint[1]? = some (.ofTokens "PRINT" "a" "" "") := rfl
  have hv : (layout .default assignThenPrint).bindings.get? (.value "a") = some (.x 0) := by decide
  refine ⟨_, generate_of_faultless hf, fun h => ?_⟩
  have hline : (Machine.fresh ((layout .default assignThenPrint).lineFor 1) fun _ => 42).line
      = (layout .default assignThenPrint).lineFor 1 := rfl
  obtain ⟨w, after, -, hreturns, hprinted, -, -⟩ :=
    print_returns (hf _ (List.mem_of_getElem? hi)) Assembly.Setting.sample_faithful hi rfl hline rfl
  have := h _ after "a" (.x 0) hline hreturns hv
  rw [Machine.get, hprinted.x0] at this
  exact absurd this (by decide)

end Program

end ThreeAddress
