import ThreeAddress.Assembly.Line

/-!
# Printing a number

A leaf routine that every program ends with: it divides the unsigned value in `x1` by ten until
nothing is left, stores the digits backwards from the end of a buffer, and writes them with one
system call. It uses `x0` to `x8`.
-/

namespace ThreeAddress.Assembly.PrintInt

def entryLabel : String := "print_int"

def loopLabel : String := "print_loop"

def buffer : String := "int_buf"

/-- As many digits as the greatest 64-bit number has. -/
def bufferSize : Nat := 20

/-- The value goes to `x1` before `x0` is written, for it may stand in `x0`. -/
def call (value : Register) : List Inst :=
  [.mov (.x 1) (.register value), .mov (.x 0) (.int 1), .bl entryLabel]

/-- Start with the value in `x2`, the divisor in `x3`, the end of the buffer in `x4` and no
digits counted in `x5`. -/
def start : List Inst :=
  [.mov (.x 2) (.register (.x 1)),
    .mov (.x 3) (.int 10),
    .adr (.x 4) (buffer ++ "+" ++ toString bufferSize),
    .mov (.x 5) (.int 0)]

/-- Store one digit and go on with the quotient. -/
def round : List Inst :=
  [.udiv (.x 6) (.x 2) (.x 3),
    .mul (.x 7) (.x 6) (.x 3),
    .sub (.x 8) (.x 2) (.register (.x 7)),
    .add (.x 8) (.x 8) (.literal "'0'"),
    .sub (.x 4) (.x 4) (.int 1),
    .strb (.w 8) (.cell (.x 4)),
    .mov (.x 2) (.register (.x 6)),
    .add (.x 5) (.x 5) (.int 1),
    .cbnz (.x 6) loopLabel]

/-- Write the digits to standard output and return. -/
def write : List Inst :=
  [.mov (.x 0) (.int 1),
    .mov (.x 1) (.register (.x 4)),
    .mov (.x 2) (.register (.x 5)),
    .mov (.x 8) (.int 64),
    .svc 0,
    .ret]

def routine : List Line :=
  [.blank, .label entryLabel] ++ start.map .indented ++
    [.label loopLabel] ++ round.map .indented ++ write.map .indented ++
    [.blank, .segment ".bss", .skip buffer bufferSize]

end ThreeAddress.Assembly.PrintInt
