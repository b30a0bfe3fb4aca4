import ThreeAddress.Shell.Streams

/-!
# Setting variables

Some variables tell the shell something: where reading options is to begin, and where programs are
looked for.
-/

namespace ThreeAddress.Shell

open Files (Access)

variable {m : Type → Type} [Monad m] [Access m]

/-- Refuses a variable that is to stay as it is. -/
def checkWritable (name : Octets) : Eff m Unit := do
  if ((← context).lookup? name).any (·.readOnly) then fail (.readOnly name)

/-- A count. -/
def count (text : Octets) : Eff m Nat := do
  match Numeral.whole? (some 10) text with
  | some n => if n < 0 || 0x80000000 ≤ n then fail (.badNumber text) else return n.toNat
  | none => fail (.badNumber text)

/-- Does what the new value of a variable asks for. -/
def heed (name value : Octets) : Eff m Unit := do
  if name = "OPTIND".toList then
    let n ← count value
    change ({ · with scanning := ⟨max n 1, none⟩ })
  else if name = "PATH".toList then change ({ · with findings := [] })

/-- Sets a variable to a value that nothing is to be done about. -/
def assignQuietly (name value : Octets) : Eff m Unit := do
  if !isName name then fail (.badName name)
  checkWritable name
  change fun c =>
    let exported := c.has .allexport || (c.lookup? name).any (·.exported)
    c.putVariable name (some ⟨some value, exported, false⟩)

/-- Sets a variable to a value. -/
def assign (name value : Octets) : Eff m Unit := do
  if !isName name then fail (.badName name)
  checkWritable name
  heed name value
  assignQuietly name value

/-- Changes what is known of a variable, which need not have a value. -/
def mark (name : Octets) (f : Variable → Variable) : Eff m Unit := do
  if !isName name then fail (.badName name)
  change fun c => c.putVariable name (some (f ((c.lookup? name).getD ⟨none, false, false⟩)))

def unset (name : Octets) : Eff m Unit := do
  checkWritable name
  heed name []
  change (·.putVariable name none)

def setArguments (arguments : List Octets) : Eff m Unit :=
  change ({ · with arguments, scanning := .start })

/-! ### What functions make their own -/

/-- Changes what is kept for the end of the function that runs. -/
def changeFrame (f : Context → Frame → Frame) : Eff m Unit :=
  change fun c =>
    match c.frames with
    | [] => c
    | frame :: outer => { c with frames := f c frame :: outer }

/-- Keeps what a variable is for the function that runs, to be given back at its end. -/
def makeLocal (name : Octets) : Eff m Unit :=
  changeFrame fun c frame => { frame with vars := (name, c.lookup? name) :: frame.vars }

/-- Keeps the settings in the same way. -/
def makeSettingsLocal : Eff m Unit :=
  changeFrame fun c frame => { frame with settings := some (frame.settings.getD c.settings) }

/-- Begins to keep what is so. -/
def enterFrame : Eff m Unit := change fun c => { c with frames := ⟨[], none⟩ :: c.frames }

def leaveFrame (frame : Frame) : Eff m Unit := do
  for (name, v) in frame.vars do
    heed name ((v.bind (·.value)).getD ['1'])
    change (·.putVariable name v)
  change fun c => { c with settings := frame.settings.getD c.settings }

/-- Goes back to what was so, until so many functions are left. -/
def leaveFrames (depth : Nat) : Eff m Unit := do
  let c ← context
  let left := c.frames.length - depth
  (c.frames.take left).forM leaveFrame
  change fun c => { c with frames := c.frames.drop left }

end ThreeAddress.Shell
