import ThreeAddress.Assembly.Register

/-!
# Register bindings

Names and scratch roles get registers in the order in which they are first asked for: the keys stand
in one list without repeats, and a key's register has the key's position as its number. Inserting
keeps every position, so `register_insert` and `register_insertAll` say that a bound key never
changes its register.
-/

namespace ThreeAddress

open Assembly (Register)

/-- What a lowered instruction needs a register for besides the values of the stream. -/
inductive Scratch where
  | store
  | lhs
  | rhs
  | cond
  | jumpPtr
  | print
  deriving DecidableEq, Repr

def Scratch.text : Scratch → String
  | .store => "tmp"
  | .lhs => "tmp1"
  | .rhs => "tmp2"
  | .cond => "tmp_cond"
  | .jumpPtr => "jmp_ptr"
  | .print => "tmp_print"

/-- A value and a scratch role are different keys, also when they are spelled alike. -/
inductive Key where
  | value (name : String)
  | scratch (role : Scratch)
  deriving DecidableEq, Repr

def Key.text : Key → String
  | .value name => name
  | .scratch role => "<" ++ role.text ++ ">"

structure Bindings where
  keys : List Key
  nodup : keys.Nodup

namespace Bindings

def empty : Bindings := ⟨[], List.nodup_nil⟩

def size (b : Bindings) : Nat := b.keys.length

def isEmpty (b : Bindings) : Bool := b.keys.isEmpty

/-- Register numbers wrap at `2 ^ 32`. -/
def registerAt (position : Nat) : Register := .x (.ofNat position)

/-- The register of a bound key; for any other key, the one it would get next. -/
def register (b : Bindings) (k : Key) : Register :=
  registerAt (b.keys.idxOf k)

def get? (b : Bindings) (k : Key) : Option Register :=
  if k ∈ b.keys then some (b.register k) else none

def toList (b : Bindings) : List (Key × Register) :=
  b.keys.zipIdx.map fun (k, position) => (k, registerAt position)

def insert (b : Bindings) (k : Key) : Bindings :=
  if h : k ∈ b.keys then b
  else ⟨b.keys ++ [k], List.nodup_append.2 ⟨b.nodup, by simp, by
    intro a ha c hc hac
    exact h (List.mem_singleton.1 hc ▸ hac ▸ ha)⟩⟩

def insertAll (b : Bindings) (ks : List Key) : Bindings :=
  ks.foldl insert b

theorem keys_insert (b : Bindings) (k : Key) :
    (b.insert k).keys = if k ∈ b.keys then b.keys else b.keys ++ [k] := by
  unfold insert
  split <;> simp [*]

theorem keys_insert_of_notMem {b : Bindings} {k : Key} (h : k ∉ b.keys) :
    (b.insert k).keys = b.keys ++ [k] := by
  rw [keys_insert, if_neg h]

theorem mem_insert {b : Bindings} {k j : Key} : j ∈ (b.insert k).keys ↔ j ∈ b.keys ∨ j = k := by
  rw [keys_insert]
  split
  · exact ⟨.inl, fun h => h.elim id (· ▸ ‹k ∈ b.keys›)⟩
  · simp

theorem register_insert {b : Bindings} {k j : Key} (h : j ∈ b.keys) :
    (b.insert k).register j = b.register j := by
  rw [register, register, keys_insert]
  split
  · rfl
  · rw [List.idxOf_append, if_pos h]

theorem register_insert_of_notMem {b : Bindings} {k : Key} (h : k ∉ b.keys) :
    (b.insert k).register k = registerAt b.size := by
  rw [register, keys_insert_of_notMem h, List.idxOf_append, if_neg h, List.idxOf_cons_self,
    Nat.zero_add, size]

theorem register_insertAll {b : Bindings} (ks : List Key) {j : Key} (h : j ∈ b.keys) :
    (b.insertAll ks).register j = b.register j := by
  induction ks generalizing b with
  | nil => rfl
  | cons k ks ih => exact (ih (mem_insert.2 (.inl h))).trans (register_insert h)

/-- The bindings that `after` has past those of `b`. -/
def added (b after : Bindings) : List (Key × Register) :=
  after.toList.drop b.size

end Bindings

end ThreeAddress
