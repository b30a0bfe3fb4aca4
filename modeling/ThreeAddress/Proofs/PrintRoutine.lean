import ThreeAddress.Proofs.Numeral
import ThreeAddress.Proofs.Run

/-!
# The print routine runs

From its first label the routine comes to its return with one system call made, which writes the
numeral of the word in `x1` (`routine_runs`). All the way it keeps the registers above `x8` and the
memory outside its buffer. The loop is passed once for each digit: a round puts the last digit of
the word in `x2` before those already there (`round_runs`), and the quotient decides whether there
is another (`loop_runs`).
-/

namespace ThreeAddress.Assembly

open PrintInt (entryLabel loopLabel bufferSize)

/-- The parts of the routine where its first line is line `r`. -/
structure RoutineAt (lines : List Line) (r : Nat) : Prop where
  entry : lines[r + 1]? = some (.label entryLabel)
  start : Placed lines (r + 2) (PrintInt.start.map .indented)
  loop : lines[r + 6]? = some (.label loopLabel)
  round : Placed lines (r + 7) (PrintInt.round.map .indented)
  write : Placed lines (r + 16) (PrintInt.write.map .indented)
  loopLine : Machine.lineOf? lines loopLabel = some (r + 6)

theorem RoutineAt.of_placed {lines : List Line} {r : Nat} (h : Placed lines r PrintInt.routine)
    (hloop : Machine.lineOf? lines loopLabel = some (r + 6)) : RoutineAt lines r where
  entry := h.get (j := 1) (by decide)
  start := h.append_left.append_left.append_left.append_left.append_right
  loop := h.get (j := 6) (by decide)
  round := h.append_left.append_left.append_right
  write := h.append_left.append_right
  loopLine := hloop

/-- From the first machine to the second, registers above `x8` and memory outside the buffer are
kept. -/
structure Machine.Keeps (base : Word) (m q : Machine) : Prop where
  x : ∀ n, 8 < n → q.x n = m.x n
  memory : ∀ a, bufferSize ≤ (a - base).toNat → q.memory a = m.memory a

/-- As `Keeps`, and no call is made. -/
structure Machine.Quiet (base : Word) (m q : Machine) : Prop extends Machine.Keeps base m q where
  calls : q.calls = m.calls

/-- Writes none but the first nine registers. -/
def Inst.isLocal (i : Inst) : Bool :=
  !i.isStore && !i.isCall && i.target?.all fun r => r.number ≤ 8

namespace Machine

variable {s : Setting} {lines : List Line} {m q after : Machine} {base : Word} {i : Inst} {r : Nat}

theorem Quiet.refl (m : Machine) : Quiet base m m :=
  ⟨⟨fun _ _ => rfl, fun _ _ => rfl⟩, rfl⟩

theorem Keeps.trans (h : Keeps base m q) (h' : Keeps base q after) : Keeps base m after :=
  ⟨fun n hn => (h'.x n hn).trans (h.x n hn), fun a ha => (h'.memory a ha).trans (h.memory a ha)⟩

theorem Quiet.trans (h : Quiet base m q) (h' : Quiet base q after) : Quiet base m after :=
  ⟨h.toKeeps.trans h'.toKeeps, h'.calls.trans h.calls⟩

theorem Quiet.moved (h : Quiet base m q) (k : Nat) : Quiet base m { q with line := k } :=
  ⟨⟨h.x, h.memory⟩, h.calls⟩

theorem Quiet.exec (h : Quiet base m q) (hi : i.isLocal = true)
    (he : q.exec s lines i = some after) : Quiet base m after := by
  simp only [Inst.isLocal, Bool.and_eq_true, Bool.not_eq_true', Option.all_eq_true,
    decide_eq_true_eq] at hi
  obtain ⟨⟨hstore, hcall⟩, htarget⟩ := hi
  have hc := exec_changes he
  refine h.trans ⟨⟨fun n hn => hc.x n fun r hr hrn => ?_, fun a _ => ?_⟩, hc.calls hcall⟩
  · have := htarget r hr
    rw [hrn] at this
    exact absurd hn (by simpa using this)
  · rw [hc.memory hstore]

/-- Instructions that write none but the first nine registers run quietly. -/
theorem Path.of_local (base : Word) (is : List Inst)
    (hplaced : Placed lines m.line (is.map .indented)) (hstraight : ∀ i ∈ is, i.isStraight = true)
    (hlocal : ∀ i ∈ is, i.isLocal = true) (h : execAll s lines is m = some after) :
    Path s lines (Quiet base m) (List.range' m.line is.length) m after ∧ Quiet base m after
      ∧ after.line = m.line + is.length :=
  Path.of_execAll (fun _ => rfl) is m hplaced hstraight
    (fun i hi _ _ hq he => hq.exec (hlocal i hi) he) (Quiet.refl m) h

/-! ### A round -/

/-- The loop's state: the bytes `done` stand before the end of the buffer, `x4` points at them and
`x5` counts them. -/
structure Counted (base : Word) (done : List Byte) (m : Machine) : Prop where
  ten : m.x 3 = 10
  cursor : m.x 4 = base + .ofNat 64 bufferSize - .ofNat 64 done.length
  count : m.x 5 = .ofNat 64 done.length
  bytes : m.bytesAt (m.x 4) done.length = done

theorem bytesAt_succ (m : Machine) (a : Word) (n : Nat) :
    m.bytesAt a (n + 1) = m.memory a :: m.bytesAt (a + 1) n := by
  simp only [bytesAt, List.range_succ_eq_map, List.map_cons, List.map_map]
  congr 1
  · simp
  · refine List.map_congr_left fun i _ => ?_
    simp only [Function.comp_apply]
    congr 1
    rw [BitVec.add_assoc, Nat.succ_eq_add_one, BitVec.ofNat_add, BitVec.add_comm (1 : Word)]
    rfl

/-- A byte stored right before some others comes first among them. -/
theorem bytesAt_storeByte {m q : Machine} {a : Word} {b : Byte} {n : Nat} (hn : n < bufferSize)
    (h : q.memory = m.memory.storeByte (a - 1) b) :
    q.bytesAt (a - 1) (n + 1) = b :: m.bytesAt a n := by
  rw [bytesAt_succ, h, Memory.storeByte_self, BitVec.sub_add_cancel]
  congr 1
  refine List.map_congr_left fun i hi => ?_
  rw [h, Memory.storeByte_of_ne]
  have := List.mem_range.1 hi
  unfold bufferSize at hn
  bv_omega

/-- The digit byte that a round stores. -/
theorem lastDigit_eq (v : Word) :
    ((((v - v / 10 * 10 + 48).setWidth 32).setWidth 64).setWidth 8 : Byte) = lastDigit v := by
  have hlt := v.isLt
  have hmod : v - v / 10 * 10 = .ofNat 64 (v.toNat % 10) := by
    refine BitVec.eq_of_toNat_eq ?_
    have hdiv : (v / 10).toNat = v.toNat / 10 := by rw [BitVec.toNat_udiv]; rfl
    have hmul : (v / 10 * 10).toNat = v.toNat / 10 * 10 := by
      rw [BitVec.toNat_mul, hdiv, show (10 : Word).toNat = 10 from rfl]
      exact Nat.mod_eq_of_lt (by omega)
    rw [BitVec.toNat_sub_of_le (by rw [BitVec.le_def, hmul]; omega), hmul, BitVec.toNat_ofNat]
    omega
  rw [hmod, lastDigit]
  refine BitVec.eq_of_toNat_eq ?_
  simp only [BitVec.toNat_setWidth, BitVec.toNat_add, BitVec.toNat_ofNat,
    show (48 : Word).toNat = 48 from rfl]
  omega

/-- Dividing leaves the quotient in `x6`, the digit in `x8`, and `x4` at the digit's place. -/
theorem divide_runs (hr : RoutineAt lines r) (hs : s.Faithful base) (hm : m.line = r + 7)
    (hten : m.x 3 = 10) : ∃ q, Path s lines (Quiet base m) (List.range' (r + 7) 5) m q
      ∧ Quiet base m q ∧ q.line = r + 12 ∧ q.memory = m.memory ∧ q.x 3 = 10
      ∧ q.x 4 = m.x 4 - 1 ∧ q.x 5 = m.x 5 ∧ q.x 6 = m.x 2 / 10 ∧ q.x 7 = m.x 2 / 10 * 10
      ∧ q.x 8 = m.x 2 - m.x 2 / 10 * 10 + 48 := by
  have hplaced : Placed lines m.line ((PrintInt.round.take 5).map .indented) :=
    hm ▸ hr.round.slice 0 5 (by decide)
  have hrun : ∃ q, execAll s lines (PrintInt.round.take 5) m = some q ∧ q.memory = m.memory
      ∧ q.x 3 = 10 ∧ q.x 4 = m.x 4 - 1 ∧ q.x 5 = m.x 5 ∧ q.x 6 = m.x 2 / 10
      ∧ q.x 7 = m.x 2 / 10 * 10 ∧ q.x 8 = m.x 2 - m.x 2 / 10 * 10 + 48 := by
    have hone (q : Machine) : q.value? s (.int 1) = some 1 := hs.value?_int q 1
    simp only [PrintInt.round, List.take_succ_cons, List.take_zero, execAll, exec, hone,
      value?_register, value?_literal, hs.zero, Option.bind_some, Option.bind_eq_bind,
      Option.pure_def]
    refine ⟨_, rfl, ?_⟩
    simp [set, next, get, hten]
  obtain ⟨q, hq, hfacts⟩ := hrun
  obtain ⟨hpath, hquiet, hline⟩ := Path.of_local base _ hplaced (by decide) (by decide) hq
  rw [hm] at hpath hline
  exact ⟨q, hpath, hquiet, hline, hfacts⟩

/-- Storing the digit touches one byte of the buffer. -/
theorem store_runs (hr : RoutineAt lines r) (hm : m.line = r + 12) {n : Nat}
    (hn : n < bufferSize) (hcursor : m.x 4 = base + .ofNat 64 n) {v : Word}
    (hv : m.x 8 = v - v / 10 * 10 + 48) :
    ∃ q, m.step? s lines = some q ∧ Quiet base m q ∧ q.line = r + 13 ∧ q.x = m.x
      ∧ q.memory = m.memory.storeByte (m.x 4) (lastDigit v) := by
  have hl : lines[m.line]? = some (.indented (.strb (.w 8) (.cell (.x 4)))) :=
    hm ▸ hr.round.get (j := 5) (by decide)
  refine ⟨{ m.next with memory := m.memory.storeByte (m.x 4) (lastDigit v) }, ?_,
    ⟨⟨fun _ _ => rfl, fun a ha => Memory.storeByte_of_ne _ ?_⟩, rfl⟩, congrArg (· + 1) hm, rfl,
    rfl⟩
  · rw [step?_of_inst hl rfl, ← lastDigit_eq v, ← hv]
    rfl
  · rintro rfl
    rw [hcursor, BitVec.add_comm, BitVec.add_sub_cancel, BitVec.toNat_ofNat] at ha
    unfold bufferSize at *
    omega

/-- The quotient goes to `x2`, the digit is counted, and the loop is entered again unless the
quotient is zero. -/
theorem advance_runs (hr : RoutineAt lines r) (hs : s.Faithful base) (hm : m.line = r + 13) :
    ∃ q, Path s lines (Quiet base m) [r + 13, r + 14, r + 15] m q ∧ Quiet base m q
      ∧ q.memory = m.memory ∧ q.x 2 = m.x 6 ∧ q.x 3 = m.x 3 ∧ q.x 4 = m.x 4
      ∧ q.x 5 = m.x 5 + 1 ∧ q.x 6 = m.x 6 ∧ q.x 7 = m.x 7
      ∧ q.line = if m.x 6 = 0 then r + 16 else r + 6 := by
  have hplaced : Placed lines m.line
      ([.mov (.x 2) (.register (.x 6)), .add (.x 5) (.x 5) (.int 1)].map .indented) :=
    hm ▸ hr.round.slice 6 2 (by decide)
  have hone (q : Machine) : q.value? s (.int 1) = some 1 := hs.value?_int q 1
  have hrun : ∃ q, execAll s lines [.mov (.x 2) (.register (.x 6)), .add (.x 5) (.x 5) (.int 1)] m
      = some q ∧ q.memory = m.memory ∧ q.x 2 = m.x 6 ∧ q.x 3 = m.x 3 ∧ q.x 4 = m.x 4
        ∧ q.x 5 = m.x 5 + 1 ∧ q.x 6 = m.x 6 ∧ q.x 7 = m.x 7 := by
    simp only [execAll, exec, hone, value?_register, Option.bind_some, Option.bind_eq_bind,
      Option.pure_def]
    refine ⟨_, rfl, ?_⟩
    simp [set, next, get]
  obtain ⟨q, hq, hmem, h2, h3, h4, h5, h6, h7⟩ := hrun
  obtain ⟨hpath, hquiet, hline⟩ := Path.of_local base _ hplaced (by decide) (by decide) hq
  rw [hm] at hpath hline
  have hl : lines[q.line]? = some (.indented (.cbnz (.x 6) loopLabel)) :=
    hline ▸ hr.round.get (j := 8) (by decide)
  have hbranch : q.step? s lines = some { q with line := if m.x 6 = 0 then r + 16 else r + 6 } := by
    rw [step?_of_inst hl rfl]
    show (if q.x 6 = 0 then some q.next else q.jump lines loopLabel) = _
    rw [h6, jump, hr.loopLine, next, hline]
    split <;> rfl
  have hlast := Path.single hquiet hbranch
  rw [hline] at hlast
  exact ⟨_, hpath.trans hlast, hquiet.moved _, hmem, h2, h3, h4, h5, h6, h7, rfl⟩

/-- One round: the last digit of `x2` goes before those already there, the quotient to `x2`; the
loop is left when it is zero. -/
theorem round_runs (hr : RoutineAt lines r) (hs : s.Faithful base) (hm : m.line = r + 6)
    {done : List Byte} (hdone : done.length < bufferSize) (h : Counted base done m) :
    ∃ q, Path s lines (Quiet base m) (List.range' (r + 6) 10) m q ∧ Quiet base m q
      ∧ Counted base (lastDigit (m.x 2) :: done) q ∧ q.x 2 = m.x 2 / 10 ∧ q.x 6 = m.x 2 / 10
      ∧ q.x 7 = m.x 2 / 10 * 10 ∧ q.line = if m.x 2 / 10 = 0 then r + 16 else r + 6 := by
  have hlabel : Path s lines (Quiet base m) [r + 6] m m.next :=
    hm ▸ .single (.refl m) (step?_of_quiet (hm ▸ hr.loop) rfl)
  have hq₀ : Quiet base m m.next := (Quiet.refl m).moved _
  obtain ⟨q₁, hpath₁, hq₁, hline₁, hmem₁, hten₁, hcursor₁, hcount₁, h6₁, h7₁, h8₁⟩ :=
    divide_runs hr hs (m := m.next) (congrArg (· + 1) hm) h.ten
  have hcursor : q₁.x 4 = base + .ofNat 64 (bufferSize - 1 - done.length) := by
    rw [hcursor₁, next, h.cursor]
    unfold bufferSize at *
    bv_omega
  obtain ⟨q₂, hstep₂, hq₂, hline₂, hx₂, hmem₂⟩ :=
    store_runs (s := s) hr hline₁ (by omega) hcursor h8₁
  obtain ⟨q, hpath, hq, hmem, h2, h3, h4, h5, h6, h7, hline⟩ := advance_runs hr hs hline₂
  rw [hx₂] at h2 h3 h4 h5 h6 h7 hline
  have hq₀₁ := hq₀.trans hq₁
  have hq₀₂ := hq₀₁.trans hq₂
  have hstored : Path s lines (Quiet base m) [r + 12] q₁ q₂ := hline₁ ▸ .single hq₀₁ hstep₂
  refine ⟨q, ?_, hq₀₂.trans hq, ⟨h3.trans hten₁, ?_, ?_, ?_⟩, h2.trans h6₁, h6.trans h6₁,
    h7.trans h7₁, hline.trans (by rw [h6₁]; rfl)⟩
  · exact hlabel.trans ((hpath₁.mono fun _ => hq₀.trans).trans
      (hstored.trans (hpath.mono fun _ => hq₀₂.trans)))
  · rw [h4, hcursor, List.length_cons]
    unfold bufferSize at *
    bv_omega
  · rw [h5, hcount₁, next, h.count, List.length_cons, BitVec.ofNat_add]
    rfl
  · rw [h4, hcursor₁, List.length_cons]
    refine (bytesAt_storeByte hdone ?_).trans (congrArg _ h.bytes)
    rw [hmem, hmem₂, hmem₁, hcursor₁]
    rfl

theorem count_round (r : Nat) : (List.range' (r + 6) 10).count (r + 6) = 1 := by
  rw [List.range'_succ, List.count_cons_self, List.count_eq_zero_of_not_mem]
  simp only [List.mem_range'_1]
  omega

/-- The loop ends with the whole numeral of `x2` before the bytes that were there, after one round
for each of its digits. -/
theorem loop_runs (hr : RoutineAt lines r) (hs : s.Faithful base) {done : List Byte}
    (hm : m.line = r + 6) (h : Counted base done m)
    (hlen : (numeral (m.x 2)).length + done.length ≤ bufferSize) :
    ∃ way q, Path s lines (Quiet base m) way m q ∧ Quiet base m q ∧ q.line = r + 16
      ∧ Counted base (numeral (m.x 2) ++ done) q
      ∧ way.count (r + 6) = (numeral (m.x 2)).length ∧ (∀ k ∈ way, r + 6 ≤ k ∧ k < r + 16)
      ∧ q.x 6 = 0 ∧ q.x 7 = 0 := by
  induction hv : (m.x 2).toNat using Nat.strongRecOn generalizing m done with
  | _ v ih =>
    have hpos := length_numeral_pos (m.x 2)
    obtain ⟨q, hpath, hq, hcounted, h2, h6, h7, hline⟩ := round_runs hr hs hm (by omega) h
    have hnumeral := numeral_eq (m.x 2)
    have hway (k : Nat) (hk : k ∈ List.range' (r + 6) 10) : r + 6 ≤ k ∧ k < r + 16 :=
      List.mem_range'_1.1 hk
    split at hline
    · next h0 =>
      rw [if_pos h0, List.nil_append] at hnumeral
      rw [hnumeral]
      exact ⟨_, q, hpath, hq, hline, hcounted, count_round r, hway, h6.trans h0,
        by rw [h7, h0]; rfl⟩
    · next h0 =>
      rw [if_neg h0] at hnumeral
      have hlt : (q.x 2).toNat < v := by
        have hne := mt div_ten_eq_zero.2 h0
        have hdiv : (q.x 2).toNat = (m.x 2).toNat / 10 := by
          rw [h2, BitVec.toNat_udiv]
          rfl
        omega
      have hlen' : (numeral (q.x 2)).length + (lastDigit (m.x 2) :: done).length
          ≤ bufferSize := by
        rw [hnumeral, List.length_append, List.length_singleton] at hlen
        rw [h2, List.length_cons]
        omega
      obtain ⟨way, after, hpath', hafter, hline', hcounted', hcount, hway', h6', h7'⟩ :=
        ih _ hlt hline hcounted hlen' rfl
      refine ⟨_, after, hpath.trans (hpath'.mono fun _ => hq.trans), hq.trans hafter, hline', ?_,
        ?_, fun k hk => ?_, h6', h7'⟩
      · rwa [hnumeral, List.append_assoc, ← h2]
      · rw [List.count_append, count_round, hcount, hnumeral, List.length_append, h2,
          List.length_singleton, Nat.add_comm]
      · exact (List.mem_append.1 hk).elim (hway k) (hway' k)

/-- Up to the loop: the word goes to `x2`, and no digit is counted. -/
theorem start_runs (hr : RoutineAt lines r) (hs : s.Faithful base) (hm : m.line = r + 1) :
    ∃ q, Path s lines (Quiet base m) (List.range' (r + 1) 5) m q ∧ Quiet base m q
      ∧ q.line = r + 6 ∧ Counted base [] q ∧ q.x 2 = m.x 1 := by
  have hlabel : Path s lines (Quiet base m) [r + 1] m m.next :=
    hm ▸ .single (.refl m) (step?_of_quiet (hm ▸ hr.entry) rfl)
  have hq₀ : Quiet base m m.next := (Quiet.refl m).moved _
  have hline₀ : m.next.line = r + 2 := congrArg (· + 1) hm
  have hrun : ∃ q, execAll s lines PrintInt.start m.next = some q ∧ Counted base [] q
      ∧ q.x 2 = m.x 1 := by
    have hten (q : Machine) : q.value? s (.int 10) = some 10 := hs.value?_int q 10
    have hzero (q : Machine) : q.value? s (.int 0) = some 0 := hs.value?_int q 0
    simp only [PrintInt.start, execAll, exec, hten, hzero, value?_register, hs.bufferEnd,
      Option.bind_some, Option.bind_eq_bind, Option.pure_def]
    refine ⟨_, rfl, ⟨?_, ?_, ?_, rfl⟩, ?_⟩ <;> simp [set, next, get]
  obtain ⟨q, hq, hcounted, h2⟩ := hrun
  obtain ⟨hpath, hquiet, hline⟩ :=
    Path.of_local base _ (hline₀ ▸ hr.start) (by decide) (by decide) hq
  rw [hline₀] at hpath hline
  exact ⟨q, hlabel.trans (hpath.mono fun _ => hq₀.trans), hq₀.trans hquiet, hline, hcounted, h2⟩

/-- What the routine leaves in the registers that it works in. -/
structure Printed (base w : Word) (q : Machine) : Prop where
  x0 : q.x 0 = 1
  x1 : q.x 1 = base + .ofNat 64 bufferSize - .ofNat 64 (numeral w).length
  x2 : q.x 2 = .ofNat 64 (numeral w).length
  x3 : q.x 3 = 10
  x4 : q.x 4 = base + .ofNat 64 bufferSize - .ofNat 64 (numeral w).length
  x5 : q.x 5 = .ofNat 64 (numeral w).length
  x6 : q.x 6 = 0
  x7 : q.x 7 = 0
  x8 : q.x 8 = 64

/-- The digits are written with one call, and the routine stands at its return. -/
theorem write_runs (hr : RoutineAt lines r) (hs : s.Faithful base) (hm : m.line = r + 16)
    {w : Word} (h : Counted base (numeral w) m) (h6 : m.x 6 = 0) (h7 : m.x 7 = 0) :
    ∃ q, Path s lines (Quiet base m) (List.range' (r + 16) 5) m q ∧ Keeps base m q
      ∧ q.line = r + 21 ∧ q.calls = m.calls ++ [⟨64, 1, numeral w⟩] ∧ Printed base w q := by
  have hlen := length_numeral_le w
  have hplaced : Placed lines m.line ((PrintInt.write.take 4).map .indented) :=
    hm ▸ hr.write.slice 0 4 (by decide)
  have hrun : ∃ q, execAll s lines (PrintInt.write.take 4) m = some q ∧ q.memory = m.memory
      ∧ q.x 1 = m.x 4 ∧ Printed base w q := by
    have hone (q : Machine) : q.value? s (.int 1) = some 1 := hs.value?_int q 1
    have hwrite (q : Machine) : q.value? s (.int 64) = some 64 := hs.value?_int q 64
    simp only [PrintInt.write, List.take_succ_cons, List.take_zero, execAll, exec, hone, hwrite,
      value?_register, Option.bind_some, Option.bind_eq_bind, Option.pure_def]
    refine ⟨_, rfl, rfl, ?_, ?_, ?_, ?_, ?_, ?_, ?_, ?_, ?_, ?_⟩ <;>
      simp [set, next, get, h.ten, h.cursor, h.count, h6, h7]
  obtain ⟨q, hq, hmem, h1, hprinted⟩ := hrun
  obtain ⟨hpath, hquiet, hline⟩ := Path.of_local base _ hplaced (by decide) (by decide) hq
  rw [hm] at hpath hline
  have hl : lines[q.line]? = some (.indented (.svc 0)) :=
    hline ▸ hr.write.get (j := 4) (by decide)
  have hcall := Path.single hquiet (step?_of_inst (s := s) hl rfl)
  rw [hline] at hcall
  refine ⟨_, hpath.trans hcall, ⟨hquiet.x, hquiet.memory⟩, congrArg (· + 1) hline, ?_, ?_⟩
  · show q.calls ++ [⟨q.x 8, q.x 0, q.bytesAt (q.x 1) (q.x 2).toNat⟩] = _
    rw [hquiet.calls, hprinted.x8, hprinted.x0, hprinted.x2, BitVec.toNat_ofNat,
      Nat.mod_eq_of_lt (by omega), h1, bytesAt, hmem, ← bytesAt, h.bytes]
  · exact ⟨hprinted.x0, hprinted.x1, hprinted.x2, hprinted.x3, hprinted.x4, hprinted.x5,
      hprinted.x6, hprinted.x7, hprinted.x8⟩

/-- The routine, from its first label to its return. -/
theorem routine_runs (hr : RoutineAt lines r) (hs : s.Faithful base) (hm : m.line = r + 1) :
    ∃ way q, Path s lines (Quiet base m) way m q ∧ Keeps base m q ∧ q.line = r + 21
      ∧ way.count (r + 6) = (numeral (m.x 1)).length ∧ (∀ k ∈ way, r + 1 ≤ k ∧ k < r + 21)
      ∧ q.calls = m.calls ++ [⟨64, 1, numeral (m.x 1)⟩] ∧ Printed base (m.x 1) q := by
  obtain ⟨q₁, hpath₁, hq₁, hline₁, hcounted₁, h2⟩ := start_runs hr hs hm
  have hlen : (numeral (q₁.x 2)).length + ([] : List Byte).length ≤ bufferSize := by
    rw [List.length_nil, Nat.add_zero]
    exact length_numeral_le _
  obtain ⟨way, q₂, hpath₂, hq₂, hline₂, hcounted₂, hcount, hway, h6, h7⟩ :=
    loop_runs hr hs hline₁ hcounted₁ hlen
  rw [h2] at hcounted₂ hcount
  rw [List.append_nil] at hcounted₂
  have hq₁₂ := hq₁.trans hq₂
  obtain ⟨q, hpath, hq, hline, hcalls, hprinted⟩ := write_runs hr hs hline₂ hcounted₂ h6 h7
  refine ⟨_, q, hpath₁.trans ((hpath₂.mono fun _ => hq₁.trans).trans
    (hpath.mono fun _ => hq₁₂.trans)), hq₁₂.toKeeps.trans hq, hline, ?_, fun k hk => ?_,
    by rw [hcalls, hq₁₂.calls], hprinted⟩
  · have hbefore : r + 6 ∉ List.range' (r + 1) 5 := by simp
    have hafter : r + 6 ∉ List.range' (r + 16) 5 := by simp
    rw [List.count_append, List.count_append, hcount, List.count_eq_zero_of_not_mem hbefore,
      List.count_eq_zero_of_not_mem hafter, Nat.zero_add, Nat.add_zero]
  · rcases List.mem_append.1 hk with hk | hk
    · have := List.mem_range'_1.1 hk
      omega
    rcases List.mem_append.1 hk with hk | hk
    · have := hway k hk
      omega
    · have := List.mem_range'_1.1 hk
      omega

end Machine

end ThreeAddress.Assembly
