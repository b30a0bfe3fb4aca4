import ThreeAddress.Instruction

/-!
# Jump labels

The distinct indices that the jumps of a stream spell, in ascending order, together with the
stream's length. Each has one label. A target inside the stream is declared there; one past the end
is registered but never declared, and dangles.
-/

namespace ThreeAddress

namespace Labels

/-- Inserts into an ascending list; a number that it holds is not repeated. -/
def insertAscending (t : Nat) : List Nat → List Nat
  | [] => [t]
  | u :: us => if t < u then t :: u :: us else if t = u then u :: us else u :: insertAscending t us

theorem mem_insertAscending {t s : Nat} {us : List Nat} :
    s ∈ insertAscending t us ↔ s = t ∨ s ∈ us := by
  induction us with
  | nil => simp [insertAscending]
  | cons u us ih =>
    unfold insertAscending
    split
    · simp
    · split
      · subst_vars
        simp
      · simp only [List.mem_cons, ih]
        exact ⟨fun h => by rcases h with h | h | h <;> simp [h],
          fun h => by rcases h with h | h | h <;> simp [h]⟩

theorem pairwise_insertAscending {t : Nat} {us : List Nat} (h : us.Pairwise (· < ·)) :
    (insertAscending t us).Pairwise (· < ·) := by
  induction us with
  | nil => simp [insertAscending]
  | cons u us ih =>
    obtain ⟨hu, hus⟩ := List.pairwise_cons.1 h
    unfold insertAscending
    split
    · next htu =>
      refine List.pairwise_cons.2 ⟨fun s hs => ?_, h⟩
      rcases List.mem_cons.1 hs with rfl | hs
      · exact htu
      · exact Nat.lt_trans htu (hu s hs)
    · split
      · exact h
      · refine List.pairwise_cons.2 ⟨fun s hs => ?_, ih hus⟩
        rcases mem_insertAscending.1 hs with rfl | hs
        · omega
        · exact hu s hs

end Labels

structure Labels where
  targets : List Nat
  streamLength : Nat
  ascending : targets.Pairwise (· < ·)

namespace Labels

def empty : Labels := ⟨[], 0, .nil⟩

def insert (l : Labels) (target : Nat) : Labels :=
  ⟨insertAscending target l.targets, l.streamLength, pairwise_insertAscending l.ascending⟩

def ofStream (stream : List Instruction) : Labels :=
  (stream.filterMap Instruction.jumpAddress?).foldl insert ⟨[], stream.length, .nil⟩

def name (index : Nat) : String := "LABEL_" ++ toString index

/-- The label of a target, declared or not. -/
def registered? (l : Labels) (target : Nat) : Option String :=
  if target ∈ l.targets then some (name target) else none

/-- The label that stands before the instruction with this index. -/
def declared? (l : Labels) (index : Nat) : Option String :=
  if index < l.streamLength then l.registered? index else none

def dangling (l : Labels) : List Nat :=
  l.targets.filter (l.streamLength ≤ ·)

def size (l : Labels) : Nat := l.targets.length

def isEmpty (l : Labels) : Bool := l.targets.isEmpty

def toList (l : Labels) : List (Nat × String) :=
  l.targets.map fun t => (t, name t)

theorem mem_targets_foldl_insert {t : Nat} {ts : List Nat} {l : Labels} :
    t ∈ (ts.foldl insert l).targets ↔ t ∈ l.targets ∨ t ∈ ts := by
  induction ts generalizing l with
  | nil => simp
  | cons u us ih =>
    rw [List.foldl_cons, ih]
    simp only [insert, mem_insertAscending, List.mem_cons]
    exact ⟨fun h => by rcases h with (h | h) | h <;> simp [h],
      fun h => by rcases h with h | h | h <;> simp [h]⟩

theorem mem_targets_ofStream {t : Nat} {stream : List Instruction} :
    t ∈ (ofStream stream).targets ↔ ∃ i ∈ stream, i.jumpAddress? = some t := by
  simp [ofStream, mem_targets_foldl_insert, List.mem_filterMap]

theorem streamLength_foldl_insert (ts : List Nat) (l : Labels) :
    (ts.foldl insert l).streamLength = l.streamLength := by
  induction ts generalizing l with
  | nil => rfl
  | cons t ts ih => exact ih (l.insert t)

theorem streamLength_ofStream (stream : List Instruction) :
    (ofStream stream).streamLength = stream.length :=
  streamLength_foldl_insert _ _

end Labels

end ThreeAddress
