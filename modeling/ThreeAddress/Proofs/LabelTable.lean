import Mathlib.Data.List.Sort
import Mathlib.Data.Set.Card
import ThreeAddress.Proofs.Placement

/-!
# What a label table depends on

The jumps of a stream spell numbers in the slots of their targets, with or without leading zeros,
below `2 ^ 64` (`Instruction.Targets`). A table holds each of these numbers once, in ascending
order, and besides them only the length of the stream. So two streams with the same length and the
same set of numbers have the same table, however often and in which order their jumps spell them,
and all that a table answers can be read off that set and the length (`Labels.ofStream_determined`).
-/

namespace ThreeAddress

theorem Text.readNumeral?_eq_some {cs : List Char} {n : Nat} : readNumeral? cs = some n
    ↔ cs ≠ [] ∧ (∀ c ∈ cs, c.isDigit = true) ∧ Nat.ofDigitChars 10 cs 0 = n := by
  simp [readNumeral?, isNumeral, and_assoc]

namespace Operand

variable {a : Operand} {t : Nat}

/-- The operand is a name of digits with this value. -/
def Spells (a : Operand) (t : Nat) : Prop :=
  ∃ name : String, a = .symbol name ∧ name.toList ≠ [] ∧ (∀ c ∈ name.toList, c.isDigit = true)
    ∧ Nat.ofDigitChars 10 name.toList 0 = t ∧ t < UInt64.size

theorem address?_eq_some : a.address? = some t ↔ a.Spells t := by
  cases a with
  | symbol name =>
    rw [address?, Option.filter_eq_some_iff, Text.readNumeral?_eq_some, decide_eq_true_eq]
    simp [Spells, and_assoc]
  | empty | immediate l | memory name => simp [address?, Spells]

end Operand

/-- The instruction is a jump, and the slot of its target spells the number. -/
def Instruction.Targets (i : Instruction) (t : Nat) : Prop :=
  i.opcode = .jump ∧ i.a1.Spells t ∨ i.opcode = .jumpIfFalse ∧ i.a2.Spells t

theorem Instruction.jumpAddress?_eq_some {i : Instruction} {t : Nat} :
    i.jumpAddress? = some t ↔ i.Targets t := by
  obtain ⟨op, a1, a2, a3, place⟩ := i
  cases op <;> simp [jumpAddress?, Targets, Operand.address?_eq_some]

namespace Labels

variable {stream : List Instruction} {t : Nat}

/-- The numbers that the jumps of a stream spell. -/
def targetSet (stream : List Instruction) : Set Nat := {t | ∃ i ∈ stream, i.Targets t}

theorem mem_targets_iff : t ∈ (ofStream stream).targets ↔ t ∈ targetSet stream := by
  simp only [mem_targets_ofStream, Instruction.jumpAddress?_eq_some]
  rfl

theorem coe_toFinset_targets (stream : List Instruction) :
    ((ofStream stream).targets.toFinset : Set Nat) = targetSet stream := by
  ext t
  rw [List.coe_toFinset]
  exact mem_targets_iff

/-- A table is its targets and its length. -/
theorem ext_targets {l l' : Labels} (htargets : ∀ t, t ∈ l.targets ↔ t ∈ l'.targets)
    (hlength : l.streamLength = l'.streamLength) : l = l' := by
  obtain ⟨ts, n, h⟩ := l
  obtain ⟨ts', n', h'⟩ := l'
  obtain rfl : ts = ts' := h.eq_of_mem_iff h' htargets
  obtain rfl : n = n' := hlength
  rfl

theorem ofStream_congr {other : List Instruction} (hlength : other.length = stream.length)
    (htargets : targetSet other = targetSet stream) : ofStream other = ofStream stream := by
  refine ext_targets (fun t => ?_) ?_
  · rw [mem_targets_iff, mem_targets_iff, htargets]
  · rw [streamLength_ofStream, streamLength_ofStream, hlength]

theorem mem_dangling_ofStream :
    t ∈ (ofStream stream).dangling ↔ t ∈ targetSet stream ∧ stream.length ≤ t := by
  rw [dangling, List.mem_filter, decide_eq_true_eq, streamLength_ofStream, mem_targets_iff]

theorem mem_toList_ofStream {label : String} :
    (t, label) ∈ (ofStream stream).toList ↔ t ∈ targetSet stream ∧ label = name t := by
  simp only [toList, List.mem_map, Prod.mk.injEq, mem_targets_iff]
  exact ⟨by rintro ⟨u, hu, rfl, rfl⟩; exact ⟨hu, rfl⟩, fun ⟨ht, hl⟩ => ⟨t, ht, rfl, hl.symm⟩⟩

theorem size_ofStream (stream : List Instruction) :
    (ofStream stream).size = (targetSet stream).ncard := by
  rw [← coe_toFinset_targets, Set.ncard_coe_finset,
    List.toFinset_card_of_nodup ((ofStream stream).ascending.imp Nat.ne_of_lt), size]

/-- The table of a stream is that of every other stream with the same length and targets. It has
one label for each target, and answers with it for all indices, or for those in the stream. -/
theorem ofStream_determined (stream : List Instruction) :
    (∀ other : List Instruction, other.length = stream.length →
      targetSet other = targetSet stream → ofStream other = ofStream stream)
    ∧ (∀ q, (q ∈ targetSet stream → (ofStream stream).registered? q = some ("LABEL_" ++ toString q))
      ∧ (q ∉ targetSet stream → (ofStream stream).registered? q = none)
      ∧ (ofStream stream).declared? q
        = if q < stream.length then (ofStream stream).registered? q else none)
    ∧ ((ofStream stream).dangling.Pairwise (· < ·)
      ∧ ∀ t, t ∈ (ofStream stream).dangling ↔ t ∈ targetSet stream ∧ stream.length ≤ t)
    ∧ ((ofStream stream).toList.Pairwise (fun x y => x.1 < y.1)
      ∧ ∀ t label, (t, label) ∈ (ofStream stream).toList
        ↔ t ∈ targetSet stream ∧ label = "LABEL_" ++ toString t)
    ∧ (targetSet stream).Finite ∧ (ofStream stream).size = (targetSet stream).ncard
    ∧ ∀ t ∈ targetSet stream, ∀ u ∈ targetSet stream, t ≠ u →
      (ofStream stream).registered? t ≠ (ofStream stream).registered? u := by
  have hregistered {q : Nat} (hq : q ∈ targetSet stream) :
      (ofStream stream).registered? q = some (name q) := if_pos (mem_targets_iff.2 hq)
  refine ⟨fun other => ofStream_congr, fun q => ⟨hregistered, fun hq => ?_, ?_⟩, ⟨?_, fun t => ?_⟩,
    ⟨?_, fun t label => ?_⟩, ?_, size_ofStream stream, fun t ht u hu htu heq => ?_⟩
  · exact if_neg (mem_targets_iff.not.2 hq)
  · rw [declared?, streamLength_ofStream]
  · exact (ofStream stream).ascending.filter _
  · exact mem_dangling_ofStream
  · exact List.pairwise_map.2 (ofStream stream).ascending
  · exact mem_toList_ofStream
  · rw [← coe_toFinset_targets]
    exact Finset.finite_toSet _
  · rw [hregistered ht, hregistered hu] at heq
    exact htu (name_inj.1 (Option.some.inj heq))

/-- Targets are ordered as numbers, and one that is spelled twice is kept once. -/
example : (ofStream [.ofTokens "JP" "10" "" "", .ofTokens "JPF" "10" "9" "",
    .ofTokens "JP" "010" "" "", .ofTokens "JP" "@2" "" ""]).toList
      = [(9, "LABEL_9"), (10, "LABEL_10")] := by
  decide

end Labels

end ThreeAddress
