import ThreeAddress.Assembly.Inst
import ThreeAddress.Proofs.Pieces
import ThreeAddress.Text.Decimal

/-!
# Instructions as texts

A numeral and a register can be told from what comes behind them, as long as that does not begin
with a digit (`Register.text_append_inj`). The mnemonic of an instruction ends at the first blank
(`Inst.parts_of_text_eq`) and tells the constructor (`Inst.kindOf_mnemonic`), so what comes behind
it can be read operand by operand, the free text last. No two instructions have the same text
(`Inst.text_injective`).
-/

namespace ThreeAddress

namespace Text

theorem toString_append_inj {n n' : Nat} {s s' : String} (hs : HeadNot Char.isDigit s.toList)
    (hs' : HeadNot Char.isDigit s'.toList) (h : toString n ++ s = toString n' ++ s') :
    n = n' ∧ s = s' := by
  have hlists := congrArg String.toList h
  simp only [String.toList_append, Nat.toString_eq_ofList_toDigits, String.toList_ofList]
    at hlists
  obtain ⟨hdigits, hrest⟩ := append_inj_of_headNot (fun c => isDigit_of_mem_toDigits)
    (fun c => isDigit_of_mem_toDigits) hs hs' hlists
  exact ⟨toDigits_inj.1 hdigits, String.toList_inj.1 hrest⟩

end Text

namespace Assembly

open Text (HeadNot append_inj_of_headNot toString_append_inj)

variable {r r' : Register} {s s' : String}

namespace Register

theorem text_append_inj (hs : HeadNot Char.isDigit s.toList) (hs' : HeadNot Char.isDigit s'.toList)
    (h : r.text ++ s = r'.text ++ s') : r = r' ∧ s = s' := by
  cases r with
  | x n =>
    cases r' with
    | x n' =>
      rw [text, text, String.append_assoc, String.append_assoc, String.append_right_inj] at h
      obtain ⟨hn, hrest⟩ := toString_append_inj hs hs' h
      exact ⟨congrArg x (UInt32.toNat_inj.1 hn), hrest⟩
    | w n' =>
      have hhead := congrArg (·.toList.head?) h
      simp [text] at hhead
  | w n =>
    cases r' with
    | x n' =>
      have hhead := congrArg (·.toList.head?) h
      simp [text] at hhead
    | w n' =>
      rw [text, text, String.append_assoc, String.append_assoc, String.append_right_inj] at h
      obtain ⟨hn, hrest⟩ := toString_append_inj hs hs' h
      exact ⟨congrArg w (UInt32.toNat_inj.1 hn), hrest⟩

theorem text_comma_inj (h : r.text ++ (", " ++ s) = r'.text ++ (", " ++ s')) :
    r = r' ∧ s = s' := by
  obtain ⟨hr, hrest⟩ := text_append_inj (by simp [HeadNot]) (by simp [HeadNot]) h
  exact ⟨hr, (String.append_right_inj _).1 hrest⟩

theorem eq_of_text_eq (h : r.text = r'.text) : r = r' := by
  have hends : r.text ++ "" = r'.text ++ "" := by rw [h]
  exact (text_append_inj (by simp [HeadNot]) (by simp [HeadNot]) hends).1

end Register

theorem Argument.eq_of_text_eq {a b : Argument} (h : a.text = b.text) : a = b := by
  cases a with
  | register r =>
    cases b with
    | register r' => rw [Register.eq_of_text_eq h]
    | literal _ | cell _ =>
      have hhead := congrArg (·.toList.head?) h
      cases r <;> simp [text, Register.text] at hhead
  | literal t =>
    cases b with
    | literal t' => rw [(String.append_right_inj _).1 h]
    | register r' =>
      have hhead := congrArg (·.toList.head?) h
      cases r' <;> simp [text, Register.text] at hhead
    | cell r' =>
      have hhead := congrArg (·.toList.head?) h
      simp [text] at hhead
  | cell r =>
    cases b with
    | cell r' =>
      rw [text, text, String.append_assoc, String.append_assoc, String.append_right_inj] at h
      rw [(Register.text_append_inj (by simp [HeadNot]) (by simp [HeadNot]) h).1]
    | register r' =>
      have hhead := congrArg (·.toList.head?) h
      cases r' <;> simp [text, Register.text] at hhead
    | literal t =>
      have hhead := congrArg (·.toList.head?) h
      simp [text] at hhead

theorem Condition.eq_of_text_eq {c c' : Condition} (h : c.text = c'.text) : c = c' := by
  cases c <;> cases c' <;> first | rfl | simp [text] at h

namespace Inst

variable {i j : Inst}

/-- The text up to the first blank. That of a conditional branch has the condition in it. -/
def mnemonic : Inst → String
  | .mov _ _ => "MOV"
  | .ldr _ _ => "LDR"
  | .str _ _ => "STR"
  | .strb _ _ => "STRB"
  | .adr _ _ => "ADR"
  | .add _ _ _ => "ADD"
  | .sub _ _ _ => "SUB"
  | .mul _ _ _ => "MUL"
  | .udiv _ _ _ => "UDIV"
  | .cmp _ _ => "CMP"
  | .cset _ _ => "CSET"
  | .b _ => "B"
  | .bcond c _ => "B" ++ c.text
  | .br _ => "BR"
  | .bl _ => "BL"
  | .cbnz _ _ => "CBNZ"
  | .ret => "RET"
  | .svc _ => "SVC"

/-- The text behind the mnemonic. -/
def operands : Inst → String
  | .mov rd a | .ldr rd a | .str rd a | .strb rd a | .cmp rd a =>
    " " ++ (rd.text ++ (", " ++ a.text))
  | .add rd rn a | .sub rd rn a => " " ++ (rd.text ++ (", " ++ (rn.text ++ (", " ++ a.text))))
  | .mul rd rn rm | .udiv rd rn rm =>
    " " ++ (rd.text ++ (", " ++ (rn.text ++ (", " ++ rm.text))))
  | .adr rd label | .cbnz rd label => " " ++ (rd.text ++ (", " ++ label))
  | .cset rd c => " " ++ (rd.text ++ (", " ++ c.text))
  | .b label | .bcond _ label | .bl label => " " ++ label
  | .br rn => " " ++ rn.text
  | .ret => ""
  | .svc number => " #" ++ toString number.toNat

theorem text_eq_append (i : Inst) : i.text = i.mnemonic ++ i.operands := by
  cases i <;> simp [text, mnemonic, operands, ← String.append_assoc]

theorem ne_blank_of_mem_mnemonic {c : Char} (h : c ∈ i.mnemonic.toList) : (c != ' ') = true := by
  cases i with
  | bcond cond _ =>
    cases cond <;> revert c <;> simp [mnemonic, Condition.text]
  | _ => revert c; simp [mnemonic]

theorem headNot_operands (i : Inst) : HeadNot (· != ' ') i.operands.toList := by
  cases i <;> simp [operands, HeadNot]

/-- The constructor that a mnemonic belongs to, by its number. -/
def kindOf (mnemonic : String) : Nat :=
  match mnemonic with
  | "MOV" => 0
  | "LDR" => 1
  | "STR" => 2
  | "STRB" => 3
  | "ADR" => 4
  | "ADD" => 5
  | "SUB" => 6
  | "MUL" => 7
  | "UDIV" => 8
  | "CMP" => 9
  | "CSET" => 10
  | "B" => 11
  | "BEQ" => 12
  | "BLT" => 12
  | "BR" => 13
  | "BL" => 14
  | "CBNZ" => 15
  | "RET" => 16
  | _ => 17

theorem kindOf_mnemonic (i : Inst) : kindOf i.mnemonic = i.ctorIdx := by
  cases i with
  | bcond c _ => cases c <;> rfl
  | _ => rfl

theorem parts_of_text_eq (h : i.text = j.text) :
    i.mnemonic = j.mnemonic ∧ i.operands = j.operands := by
  have hlists := congrArg String.toList h
  rw [text_eq_append, text_eq_append, String.toList_append, String.toList_append] at hlists
  obtain ⟨hm, ho⟩ := append_inj_of_headNot (fun c => ne_blank_of_mem_mnemonic)
    (fun c => ne_blank_of_mem_mnemonic) (headNot_operands i) (headNot_operands j) hlists
  exact ⟨String.toList_inj.1 hm, String.toList_inj.1 ho⟩

/-- The text of an instruction tells all of it. -/
theorem text_injective : Function.Injective text := by
  intro i j h
  obtain ⟨hm, ho⟩ := parts_of_text_eq h
  have hkind : i.ctorIdx = j.ctorIdx := by rw [← kindOf_mnemonic, hm, kindOf_mnemonic]
  cases i with
  | mov rd a | ldr rd a | str rd a | strb rd a | cmp rd a =>
    cases j <;> cases hkind
    rw [operands, operands, String.append_right_inj] at ho
    obtain ⟨rfl, ha⟩ := Register.text_comma_inj ho
    rw [Argument.eq_of_text_eq ha]
  | add rd rn a | sub rd rn a =>
    cases j <;> cases hkind
    rw [operands, operands, String.append_right_inj] at ho
    obtain ⟨rfl, hrest⟩ := Register.text_comma_inj ho
    obtain ⟨rfl, ha⟩ := Register.text_comma_inj hrest
    rw [Argument.eq_of_text_eq ha]
  | mul rd rn rm | udiv rd rn rm =>
    cases j <;> cases hkind
    rw [operands, operands, String.append_right_inj] at ho
    obtain ⟨rfl, hrest⟩ := Register.text_comma_inj ho
    obtain ⟨rfl, hr⟩ := Register.text_comma_inj hrest
    rw [Register.eq_of_text_eq hr]
  | adr rd label | cbnz rd label =>
    cases j <;> cases hkind
    rw [operands, operands, String.append_right_inj] at ho
    obtain ⟨rfl, rfl⟩ := Register.text_comma_inj ho
    rfl
  | cset rd c =>
    cases j <;> cases hkind
    rw [operands, operands, String.append_right_inj] at ho
    obtain ⟨rfl, hc⟩ := Register.text_comma_inj ho
    rw [Condition.eq_of_text_eq hc]
  | b label | bl label =>
    cases j <;> cases hkind
    rw [operands, operands, String.append_right_inj] at ho
    rw [ho]
  | bcond c label =>
    cases j <;> cases hkind
    rw [operands, operands, String.append_right_inj] at ho
    rw [mnemonic, mnemonic, String.append_right_inj] at hm
    rw [Condition.eq_of_text_eq hm, ho]
  | br rn =>
    cases j <;> cases hkind
    rw [operands, operands, String.append_right_inj] at ho
    rw [Register.eq_of_text_eq ho]
  | ret =>
    cases j <;> cases hkind
    rfl
  | svc number =>
    cases j <;> cases hkind
    rw [operands, operands, String.append_right_inj] at ho
    rw [UInt16.toNat_inj.1 (Text.toString_inj.1 ho)]

end Inst

end Assembly

end ThreeAddress
