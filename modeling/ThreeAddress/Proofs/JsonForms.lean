import ThreeAddress.Interchange
import ThreeAddress.Job.Config
import ThreeAddress.Job.Response
import ThreeAddress.Proofs.JsonObjects

/-!
# JSON forms read back

Every value of a type that has a JSON form is read back from both texts of its form, also after its
records were rearranged (`RoundTrip`), while a record whose field comes twice or is missing is not
read at all (`Strict`). What may be missing is the index of a place and any field of a job's
configuration (`forms_read_back`).
-/

namespace ThreeAddress

open Json (Value Quoted)
open Json.Value (Rearranged Edited dropping replacing fields?)

namespace Json

/-- Both texts of the value are read as this. -/
def ReadAs {α : Type} (ofJson? : Value → Option α) (w : Value) (answer : Option α) : Prop :=
  (Value.ofText? w.compact >>= ofJson?) = answer ∧ (Value.ofText? w.pretty >>= ofJson?) = answer

structure RoundTrip {α : Type} (toJson : α → Value) (ofJson? : Value → Option α) : Prop where
  written : ∀ a, ReadAs ofJson? (toJson a) (some a)
  rearranged : ∀ a w, Rearranged (toJson a) w → w.Valid → ReadAs ofJson? w (some a)

/-- A record with these known keys, of which some are required. -/
structure Strict {α : Type} (known required : List String) (ofJson? : Value → Option α) :
    Prop where
  repeated : ∀ members, ∀ name ∈ known, 2 ≤ members.countP (·.1 == some name) →
    (Value.object members).Valid → ReadAs ofJson? (.object members) none
  missing : ∀ members, ∀ name ∈ required, (∀ m ∈ members, m.1 ≠ some name) →
    (Value.object members).Valid → ReadAs ofJson? (.object members) none

variable {α : Type} {toJson : α → Value} {ofJson? : Value → Option α} {w : Value}
  {answer : Option α} {known required : List String}

theorem readAs (h : w.Valid) (hw : ofJson? w = answer) : ReadAs ofJson? w answer := by
  obtain ⟨hcompact, hpretty⟩ := h.ofText?_eq
  rw [ReadAs, hcompact, hpretty]
  exact ⟨hw, hw⟩

theorem RoundTrip.of_rearranged (hvalid : ∀ a, (toJson a).Valid)
    (h : ∀ a w, Rearranged (toJson a) w → ofJson? w = some a) : RoundTrip toJson ofJson? :=
  ⟨fun a => readAs (hvalid a) (h a _ (.same _)), fun a w hw hvalid => readAs hvalid (h a w hw)⟩

theorem RoundTrip.of_isFlat (hvalid : ∀ a, (toJson a).Valid)
    (hflat : ∀ a, (toJson a).isFlat = true) (h : ∀ a, ofJson? (toJson a) = some a) :
    RoundTrip toJson ofJson? :=
  .of_rearranged hvalid fun a w hw => by rw [hw.eq (hflat a), h a]

/-- What is read of an object has all required fields. -/
theorem Strict.of_some (h : ∀ members a, ofJson? (.object members) = some a →
      ∃ values, fields? known members = some values
        ∧ ∀ name ∈ required, ∃ v, (name, some v) ∈ known.zip values) :
    Strict known required ofJson? := by
  refine ⟨fun members name hname hcount hvalid => readAs hvalid ?_,
    fun members name hname hmissing hvalid => readAs hvalid ?_⟩
  · rcases hread : ofJson? (.object members) with _ | a
    · rfl
    obtain ⟨values, hvalues, -⟩ := h members a hread
    rw [Value.fields?_repeated hname hcount] at hvalues
    cases hvalues
  · rcases hread : ofJson? (.object members) with _ | a
    · rfl
    obtain ⟨values, hvalues, hrequired⟩ := h members a hread
    obtain ⟨v, hv⟩ := hrequired name hname
    have hmember := Value.member?_of_fields? hvalues hv
    rw [Value.member?_missing hmissing] at hmember
    cases hmember

namespace Value

theorem toList_toString (n : Nat) : (toString n).toList = Nat.toDigits 10 n := by
  rw [Nat.toString_eq_ofList_toDigits, String.toList_ofList]

theorem natBelow?_nat {n bound : Nat} (h : n < bound) : (nat n).natBelow? bound = some n := by
  rw [nat, natBelow?, toList_toString, Text.readNumeral?_toDigits, Option.filter_some,
    if_pos (by simpa using h)]

theorem valid_nat (n : Nat) : (nat n).Valid :=
  .number (toList_toString n ▸ isNumeral_toDigits n)

theorem valid_record {fields : List (String × Value)} (h : ∀ v ∈ fields.map Prod.snd, v.Valid) :
    (record fields).Valid := by
  refine .object fun m hm => ?_
  obtain ⟨field, hfield, rfl⟩ := List.mem_map.1 hm
  exact h _ (List.mem_map_of_mem hfield)

theorem valid_choice (name text : String) : (choice name (.text text)).Valid :=
  valid_record fun v hv => by
    rw [List.mem_singleton.1 hv]
    exact .string _

end Value

end Json

namespace Opcode

theorem valid_toJson (o : Opcode) : o.toJson.Valid := by
  cases o with
  | unknown tag => exact Json.Value.valid_choice _ tag
  | _ => exact .string _

theorem isFlat_toJson (o : Opcode) : o.toJson.isFlat = true := by
  cases o <;> rfl

theorem ofJson?_toJson (o : Opcode) : ofJson? o.toJson = some o := by
  cases o <;> rfl

theorem roundTrip : Json.RoundTrip toJson ofJson? :=
  .of_isFlat valid_toJson isFlat_toJson ofJson?_toJson

end Opcode

namespace Operand

theorem valid_toJson (a : Operand) : a.toJson.Valid := by
  cases a with
  | empty => exact .string _
  | _ => exact Json.Value.valid_choice _ _

theorem ofJson?_toJson (a : Operand) : ofJson? a.toJson = some a := by
  cases a <;> rfl

theorem roundTrip : Json.RoundTrip toJson ofJson? :=
  .of_isFlat valid_toJson (fun a => by cases a <;> rfl) ofJson?_toJson

end Operand

namespace Severity

theorem valid_toJson (s : Severity) : s.toJson.Valid := by
  cases s <;> exact .string _

theorem isFlat_toJson (s : Severity) : s.toJson.isFlat = true := by
  cases s <;> rfl

theorem ofJson?_toJson (s : Severity) : ofJson? s.toJson = some s := by
  cases s <;> rfl

theorem roundTrip : Json.RoundTrip toJson ofJson? :=
  .of_isFlat valid_toJson isFlat_toJson ofJson?_toJson

end Severity

namespace Location

def keys : List String := ["filename", "line", "index"]

variable {place : Location} {w : Value}

theorem valid_toJson (place : Location) : place.toJson.Valid := by
  refine Json.Value.valid_record (List.forall_mem_cons.2 ⟨.string _, List.forall_mem_cons.2
    ⟨Json.Value.valid_nat _, List.forall_mem_singleton.2 ?_⟩⟩)
  rcases place.index with _ | index
  · exact .null
  · exact Json.Value.valid_nat _

/-- An index that is absent is null. -/
theorem ofJson?_of_fields {members : List (Quoted × Value)} {index : Option Value}
    (h : fields? keys members
      = some [some (.text place.filename), some (.nat place.line.toNat), index])
    (hindex : index.getD .null = place.index.elim .null fun i => .nat i.toNat) :
    ofJson? (.object members) = some place := by
  obtain ⟨filename, line, i⟩ := place
  have hline := Json.Value.natBelow?_nat line.toNat_lt
  have hread : (index.getD .null).orNull? (Value.natBelow? UInt64.size)
      = some (i.map UInt64.toNat) := by
    rw [hindex]
    cases i with
    | none => rfl
    | some i => exact congrArg (·.map some) (Json.Value.natBelow?_nat i.toNat_lt)
  have hrecord : (Value.object members).record? keys
      = some [some (.text filename), some (.nat line.toNat), index] := h
  rw [ofJson?, ← keys, hrecord]
  simp only [hread, Option.bind_eq_bind, Option.bind_some, Option.pure_def]
  rw [hline]
  cases i <;> simp [Value.text, Value.text?]

theorem ofJson?_rearranged (h : Rearranged place.toJson w) : ofJson? w = some place := by
  obtain ⟨members, values, rfl, hfields, hvalues⟩ :=
    Rearranged.fields?_eq keys h rfl (by decide)
  have hsame := Json.Value.eq_of_rearranged hvalues
    (by rcases place with ⟨filename, line, _ | i⟩ <;> rfl)
  subst hsame
  exact ofJson?_of_fields hfields rfl

theorem roundTrip : Json.RoundTrip toJson ofJson? :=
  .of_rearranged valid_toJson fun _ _ => ofJson?_rearranged

theorem ofJson?_without_index (h : Edited (dropping ["index"]) place.toJson w) :
    ofJson? w = some { place with index := none } := by
  obtain ⟨members, rfl, hfields⟩ := Edited.fields?_eq keys h rfl
    (by decide) (Json.Value.dropping_sublist _ _)
  exact ofJson?_of_fields hfields rfl

theorem strict : Json.Strict keys ["filename", "line"] ofJson? := by
  refine .of_some fun members a h => ?_
  unfold ofJson? at h
  split at h
  · next heq => exact ⟨_, heq, by simp [keys]⟩
  · cases h

end Location

namespace Diagnostic

def keys : List String := ["severity", "message", "location"]

variable {d : Diagnostic} {l w : Value}

theorem ofJson?_of_fields {members : List (Quoted × Value)}
    (h : fields? keys members
      = some [some d.severity.toJson, some (.text d.message), some l]) :
    ofJson? (.object members)
      = (Location.ofJson? l).map fun place => { d with location := place } := by
  have hrecord : (Value.object members).record? keys
      = some [some d.severity.toJson, some (.text d.message), some l] := h
  rw [ofJson?, ← keys, hrecord]
  simp only [Severity.ofJson?_toJson, Value.text, Value.text?]
  cases Location.ofJson? l <;> rfl

theorem valid_toJson (d : Diagnostic) : d.toJson.Valid :=
  Json.Value.valid_record (List.forall_mem_cons.2 ⟨d.severity.valid_toJson,
    List.forall_mem_cons.2 ⟨.string _, List.forall_mem_singleton.2 d.location.valid_toJson⟩⟩)

theorem roundTrip : Json.RoundTrip toJson ofJson? := by
  refine .of_rearranged valid_toJson fun d w h => ?_
  obtain ⟨members, values, rfl, hfields, hvalues⟩ :=
    Rearranged.fields?_eq keys h rfl (by decide)
  obtain _ | ⟨hseverity, _ | ⟨hmessage, _ | ⟨hlocation, ⟨⟩⟩⟩⟩ := hvalues
  rw [hseverity.eq d.severity.isFlat_toJson, hmessage.eq rfl] at hfields
  rw [ofJson?_of_fields hfields, Location.ofJson?_rearranged hlocation]
  rfl

theorem ofJson?_replacing (h : Edited (replacing "location" l) d.toJson w) :
    ofJson? w = (Location.ofJson? l).map fun place => { d with location := place } := by
  obtain ⟨members, rfl, hfields⟩ := Edited.fields?_eq keys h rfl
    (by decide) (by rw [Json.Value.keys_replacing])
  exact ofJson?_of_fields hfields

theorem strict : Json.Strict keys
    keys ofJson? := by
  refine .of_some fun members a h => ?_
  unfold ofJson? at h
  split at h
  · next heq => exact ⟨_, heq, by simp [keys]⟩
  · cases h

end Diagnostic

namespace Instruction

def keys : List String := ["opcode", "operands", "location"]

variable {i : Instruction} {l w : Value}

theorem ofJson?_of_fields {members : List (Quoted × Value)}
    (h : fields? keys members
      = some [some i.opcode.toJson, some (.array [i.a1.toJson, i.a2.toJson, i.a3.toJson]),
        some l]) :
    ofJson? (.object members)
      = (Location.ofJson? l).map fun place => { i with location := place } := by
  have hrecord : (Value.object members).record? keys
      = some [some i.opcode.toJson, some (.array [i.a1.toJson, i.a2.toJson, i.a3.toJson]),
        some l] := h
  rw [ofJson?, ← keys, hrecord]
  simp only [Opcode.ofJson?_toJson, Operand.ofJson?_toJson]
  cases Location.ofJson? l <;> rfl

theorem valid_toJson (i : Instruction) : i.toJson.Valid := by
  refine Json.Value.valid_record (List.forall_mem_cons.2 ⟨i.opcode.valid_toJson,
    List.forall_mem_cons.2 ⟨.array ?_, List.forall_mem_singleton.2 i.location.valid_toJson⟩⟩)
  exact List.forall_mem_cons.2 ⟨i.a1.valid_toJson,
    List.forall_mem_cons.2 ⟨i.a2.valid_toJson, List.forall_mem_singleton.2 i.a3.valid_toJson⟩⟩

theorem roundTrip : Json.RoundTrip toJson ofJson? := by
  refine .of_rearranged valid_toJson fun i w h => ?_
  obtain ⟨members, values, rfl, hfields, hvalues⟩ :=
    Rearranged.fields?_eq keys h rfl (by decide)
  obtain _ | ⟨hopcode, _ | ⟨hoperands, _ | ⟨hlocation, ⟨⟩⟩⟩⟩ := hvalues
  rw [hopcode.eq i.opcode.isFlat_toJson, hoperands.eq rfl] at hfields
  rw [ofJson?_of_fields hfields, Location.ofJson?_rearranged hlocation]
  rfl

theorem ofJson?_replacing (h : Edited (replacing "location" l) i.toJson w) :
    ofJson? w = (Location.ofJson? l).map fun place => { i with location := place } := by
  obtain ⟨members, rfl, hfields⟩ := Edited.fields?_eq keys h rfl
    (by decide) (by rw [Json.Value.keys_replacing])
  exact ofJson?_of_fields hfields

theorem strict : Json.Strict keys
    keys ofJson? := by
  refine .of_some fun members a h => ?_
  unfold ofJson? at h
  split at h
  · next heq => exact ⟨_, heq, by simp [keys]⟩
  · cases h

end Instruction

namespace Job

namespace Response

def keys : List String := ["output", "success"]

theorem roundTrip : Json.RoundTrip toJson ofJson? := by
  refine .of_rearranged (fun r => ?_) fun r w h => ?_
  · exact Json.Value.valid_record
      (List.forall_mem_cons.2 ⟨.string _, List.forall_mem_singleton.2 (.bool _)⟩)
  · obtain ⟨members, values, rfl, hfields, hvalues⟩ :=
      Rearranged.fields?_eq keys h rfl (by decide)
    have hsame := Json.Value.eq_of_rearranged hvalues rfl
    subst hsame
    have hrecord : (Value.object members).record? keys
        = some [some (.text r.output), some (.bool r.success)] := hfields
    rw [ofJson?, ← keys, hrecord]
    rfl

theorem strict : Json.Strict keys keys ofJson? := by
  refine .of_some fun members a h => ?_
  unfold ofJson? at h
  split at h
  · next heq => exact ⟨_, heq, by simp [keys]⟩
  · cases h

end Response

namespace Config

/-- These fields have their defaults. -/
def without (removed : List String) (c : Config) : Config where
  frontEnd := if "frontend" ∈ removed then default.frontEnd else c.frontEnd
  inputDirectory := if "input_dir" ∈ removed then default.inputDirectory else c.inputDirectory
  irPath := if "ir_path" ∈ removed then default.irPath else c.irPath
  outputPath := if "output_path" ∈ removed then default.outputPath else c.outputPath
  strict := if "strict_branches" ∈ removed then default.strict else c.strict

variable {c : Config} {w : Value} {removed : List String}

theorem orDefault?_ite {α : Type} {p : Prop} [Decidable p] {absent a : α}
    {decode : Value → Option α} {v : Value} (h : decode v = some a) :
    orDefault? absent decode (if p then none else some v) = some (if p then absent else a) := by
  split
  · rfl
  · exact h

theorem list?_text (items : List String) :
    (Value.array (items.map .text)).list? Value.text? = some items := by
  rw [Value.list?]
  induction items with
  | nil => rfl
  | cons item items ih =>
    rw [List.map_cons, List.mapM_cons, ih]
    rfl

def keys : List String :=
  ["frontend", "input_dir", "ir_path", "output_path", "strict_branches"]

theorem ofJson?_of_fields {members : List (Quoted × Value)}
    (h : fields? keys members = some
      [if "frontend" ∈ removed then none else some (.array (c.frontEnd.map .text)),
        if "input_dir" ∈ removed then none else some (.text c.inputDirectory.text),
        if "ir_path" ∈ removed then none else some (.text c.irPath.text),
        if "output_path" ∈ removed then none else some (.text c.outputPath.text),
        if "strict_branches" ∈ removed then none else some (.bool c.strict)]) :
    ofJson? (.object members) = some (c.without removed) := by
  have hrecord : (Value.object members).partialRecord? keys = _ := h
  rw [ofJson?, ← keys, hrecord]
  simp only [orDefault?_ite (list?_text c.frontEnd)]
  rw [orDefault?_ite (a := c.inputDirectory) rfl, orDefault?_ite (a := c.irPath) rfl,
    orDefault?_ite (a := c.outputPath) rfl, orDefault?_ite (a := c.strict) rfl]
  rfl

theorem ofJson?_dropping (h : Edited (dropping removed) c.toJson w) :
    ofJson? w = some (c.without removed) := by
  obtain ⟨members, rfl, hfields⟩ := Edited.fields?_eq keys h rfl (by decide)
    (Json.Value.dropping_sublist _ _)
  simp only [Json.Value.lookup_dropping] at hfields
  exact ofJson?_of_fields hfields

theorem roundTrip : Json.RoundTrip toJson ofJson? := by
  refine .of_rearranged (fun c => ?_) fun c w h => ?_
  · refine Json.Value.valid_record (List.forall_mem_cons.2 ⟨.array fun v hv => ?_,
      List.forall_mem_cons.2 ⟨.string _, List.forall_mem_cons.2 ⟨.string _,
        List.forall_mem_cons.2 ⟨.string _, List.forall_mem_singleton.2 (.bool _)⟩⟩⟩⟩)
    obtain ⟨item, -, rfl⟩ := List.mem_map.1 hv
    exact .string _
  · obtain ⟨members, values, rfl, hfields, hvalues⟩ :=
      Rearranged.fields?_eq keys h rfl (by decide)
    have hsame := Json.Value.eq_of_rearranged hvalues rfl
    subst hsame
    have hread : ofJson? (.object members) = some (c.without []) := ofJson?_of_fields hfields
    exact hread

theorem strict_keys : Json.Strict keys [] ofJson? := by
  refine .of_some fun members a h => ?_
  unfold ofJson? at h
  split at h
  · next heq => exact ⟨_, heq, by simp [keys]⟩
  · cases h

end Config

end Job

/-- Every JSON form is read back from its texts, with its records rearranged or not. An index and
the fields of a configuration may be left out, no other field, and no field may come twice. -/
theorem forms_read_back :
    (Json.RoundTrip Opcode.toJson Opcode.ofJson?
      ∧ Json.RoundTrip Operand.toJson Operand.ofJson?
      ∧ Json.RoundTrip Instruction.toJson Instruction.ofJson?
      ∧ Json.RoundTrip Location.toJson Location.ofJson?
      ∧ Json.RoundTrip Severity.toJson Severity.ofJson?
      ∧ Json.RoundTrip Diagnostic.toJson Diagnostic.ofJson?
      ∧ Json.RoundTrip Job.Config.toJson Job.Config.ofJson?
      ∧ Json.RoundTrip Job.Response.toJson Job.Response.ofJson?)
    ∧ (Json.Strict Instruction.keys Instruction.keys Instruction.ofJson?
      ∧ Json.Strict Location.keys ["filename", "line"] Location.ofJson?
      ∧ Json.Strict Diagnostic.keys Diagnostic.keys Diagnostic.ofJson?
      ∧ Json.Strict Job.Config.keys [] Job.Config.ofJson?
      ∧ Json.Strict Job.Response.keys Job.Response.keys Job.Response.ofJson?)
    ∧ (∀ (place : Location) (w : Value), Edited (dropping ["index"]) place.toJson w → w.Valid →
      Json.ReadAs Location.ofJson? w (some { place with index := none }))
    ∧ (∀ (c : Job.Config) (removed : List String) (w : Value),
      Edited (dropping removed) c.toJson w → w.Valid →
        Json.ReadAs Job.Config.ofJson? w (some (c.without removed)))
    ∧ (∀ (i : Instruction) (l w : Value), Edited (replacing "location" l) i.toJson w → w.Valid →
      Json.ReadAs Instruction.ofJson? w
        ((Location.ofJson? l).map fun place => { i with location := place }))
    ∧ ∀ (d : Diagnostic) (l w : Value), Edited (replacing "location" l) d.toJson w → w.Valid →
      Json.ReadAs Diagnostic.ofJson? w
        ((Location.ofJson? l).map fun place => { d with location := place }) := by
  refine ⟨⟨Opcode.roundTrip, Operand.roundTrip, Instruction.roundTrip, Location.roundTrip,
    Severity.roundTrip, Diagnostic.roundTrip, Job.Config.roundTrip, Job.Response.roundTrip⟩,
    ⟨Instruction.strict, Location.strict, Diagnostic.strict, Job.Config.strict_keys,
      Job.Response.strict⟩, ?_, ?_, ?_, ?_⟩
  · exact fun place w h hvalid => Json.readAs hvalid (Location.ofJson?_without_index h)
  · exact fun c removed w h hvalid => Json.readAs hvalid (Job.Config.ofJson?_dropping h)
  · exact fun i l w h hvalid => Json.readAs hvalid (Instruction.ofJson?_replacing h)
  · exact fun d l w h hvalid => Json.readAs hvalid (Diagnostic.ofJson?_replacing h)

/-- A place with its fields the other way round, no index, and two fields of one unknown name. -/
def turnedPlace : Value :=
  .object [(some "x", .null), (some "line", .nat 7), (some "x", .array []),
    (some "filename", .text "a\"\x01")]

theorem forms_read_back_turnedPlace : Edited (dropping ["index"])
      (Location.toJson ⟨"a\"\x01", 7, some 3⟩) turnedPlace
    ∧ Json.ReadAs Location.ofJson? turnedPlace (some ⟨"a\"\x01", 7, none⟩) := by
  have hedited : Edited (dropping ["index"]) (Location.toJson ⟨"a\"\x01", 7, some 3⟩)
      turnedPlace := ⟨_, _, rfl, rfl, by decide, .swap _ _ _⟩
  have hvalid : turnedPlace.Valid := .object (List.forall_mem_cons.2 ⟨.null,
    List.forall_mem_cons.2 ⟨Json.Value.valid_nat 7, List.forall_mem_cons.2
      ⟨.array (List.forall_mem_nil _), List.forall_mem_singleton.2 (.string _)⟩⟩⟩)
  obtain ⟨-, -, hplace, -⟩ := forms_read_back
  exact ⟨hedited, hplace _ _ hedited hvalid⟩

end ThreeAddress
