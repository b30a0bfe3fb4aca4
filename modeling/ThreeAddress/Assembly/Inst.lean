import ThreeAddress.Assembly.Register

/-!
# Machine instructions

The instructions that the compiler emits, with mnemonics in upper case and registers in lower case.
A literal is kept as text, so that the assembler's own spellings pass through.
-/

namespace ThreeAddress.Assembly

inductive Condition where
  | eq
  | lt
  deriving DecidableEq, Repr

def Condition.text : Condition → String
  | .eq => "EQ"
  | .lt => "LT"

/-- The flexible last operand of an instruction. -/
inductive Argument where
  | register (r : Register)
  | literal (text : String)
  /-- The memory cell whose address the register holds. -/
  | cell (base : Register)
  deriving DecidableEq, Repr

namespace Argument

def int (n : Int) : Argument := .literal (toString n)

def text : Argument → String
  | .register r => r.text
  | .literal text => "#" ++ text
  | .cell base => "[" ++ base.text ++ "]"

end Argument

inductive Inst where
  | mov (rd : Register) (a : Argument)
  | ldr (rd : Register) (a : Argument)
  | str (rs : Register) (a : Argument)
  | strb (rs : Register) (a : Argument)
  | adr (rd : Register) (address : String)
  | add (rd rn : Register) (a : Argument)
  | sub (rd rn : Register) (a : Argument)
  | mul (rd rn rm : Register)
  | udiv (rd rn rm : Register)
  | cmp (rn : Register) (a : Argument)
  | cset (rd : Register) (c : Condition)
  | b (label : String)
  | bcond (c : Condition) (label : String)
  | br (rn : Register)
  | bl (label : String)
  | cbnz (rn : Register) (label : String)
  | ret
  | svc (number : UInt16)
  deriving DecidableEq, Repr

namespace Inst

def text : Inst → String
  | .mov rd a => "MOV " ++ rd.text ++ ", " ++ a.text
  | .ldr rd a => "LDR " ++ rd.text ++ ", " ++ a.text
  | .str rs a => "STR " ++ rs.text ++ ", " ++ a.text
  | .strb rs a => "STRB " ++ rs.text ++ ", " ++ a.text
  | .adr rd address => "ADR " ++ rd.text ++ ", " ++ address
  | .add rd rn a => "ADD " ++ rd.text ++ ", " ++ rn.text ++ ", " ++ a.text
  | .sub rd rn a => "SUB " ++ rd.text ++ ", " ++ rn.text ++ ", " ++ a.text
  | .mul rd rn rm => "MUL " ++ rd.text ++ ", " ++ rn.text ++ ", " ++ rm.text
  | .udiv rd rn rm => "UDIV " ++ rd.text ++ ", " ++ rn.text ++ ", " ++ rm.text
  | .cmp rn a => "CMP " ++ rn.text ++ ", " ++ a.text
  | .cset rd c => "CSET " ++ rd.text ++ ", " ++ c.text
  | .b label => "B " ++ label
  | .bcond c label => "B" ++ c.text ++ " " ++ label
  | .br rn => "BR " ++ rn.text
  | .bl label => "BL " ++ label
  | .cbnz rn label => "CBNZ " ++ rn.text ++ ", " ++ label
  | .ret => "RET"
  | .svc number => "SVC #" ++ toString number.toNat

end Inst

end ThreeAddress.Assembly
