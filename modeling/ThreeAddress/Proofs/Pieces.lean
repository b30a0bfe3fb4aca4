import Mathlib.Data.List.DropRight
import ThreeAddress.Text.Blank
import ThreeAddress.Text.Lines

/-!
# Pieces of texts

What is left after stripping has no character to strip at either end (`stripped_strip`), and such a
text is left as it is (`Stripped.strip_eq`). Splitting a text at a character or into lines gives
pieces without that character, and lines that are written one after the other, each with a newline,
are read as they were written (`lines_flatMap`).
-/

namespace ThreeAddress.Text

variable {p : Char → Bool} {c : Char} {cs ds l : List Char}

/-- The text does not begin with a character that has the property. -/
def HeadNot (p : Char → Bool) (cs : List Char) : Prop := ∀ c ∈ cs.head?, p c = false

/-- The text does not end with a character that has the property. -/
def LastNot (p : Char → Bool) (cs : List Char) : Prop := ∀ c ∈ cs.getLast?, p c = false

def Stripped (p : Char → Bool) (cs : List Char) : Prop := HeadNot p cs ∧ LastNot p cs

instance (p : Char → Bool) (cs : List Char) : Decidable (HeadNot p cs) :=
  Option.decidableForallMem _

instance (p : Char → Bool) (cs : List Char) : Decidable (LastNot p cs) :=
  Option.decidableForallMem _

instance (p : Char → Bool) (cs : List Char) : Decidable (Stripped p cs) :=
  inferInstanceAs (Decidable (_ ∧ _))

theorem headNot_cons (h : p c = false) (cs : List Char) : HeadNot p (c :: cs) := by
  rintro b ⟨⟩
  exact h

section Strip

theorem stripEnd_isPrefix (p : Char → Bool) (cs : List Char) : stripEnd p cs <+: cs :=
  List.rdropWhile_prefix p cs

theorem strip_sublist (p : Char → Bool) (cs : List Char) : (strip p cs).Sublist cs :=
  (stripEnd_isPrefix p _).sublist.trans (List.dropWhile_suffix p).sublist

theorem dropWhile_eq_self (h : HeadNot p cs) : cs.dropWhile p = cs := by
  cases cs with
  | nil => rfl
  | cons c cs => rw [List.dropWhile_cons_of_neg (by simp [h c rfl])]

theorem takeWhile_append_of_headNot (hl : ∀ c ∈ l, p c = true) (hds : HeadNot p ds) :
    (l ++ ds).takeWhile p = l := by
  have hstop : ds.takeWhile p = [] := by
    cases ds with
    | nil => rfl
    | cons c ds => rw [List.takeWhile_cons_of_neg (by simp [hds c rfl])]
  rw [List.takeWhile_append_of_pos hl, hstop, List.append_nil]

/-- Where a run of characters ends can be told from what comes behind it. -/
theorem append_inj_of_headNot {l' ds' : List Char} (hl : ∀ c ∈ l, p c = true)
    (hl' : ∀ c ∈ l', p c = true) (hds : HeadNot p ds) (hds' : HeadNot p ds')
    (h : l ++ ds = l' ++ ds') : l = l' ∧ ds = ds' := by
  have hrun : l = l' := by
    rw [← takeWhile_append_of_headNot hl hds, h, takeWhile_append_of_headNot hl' hds']
  subst hrun
  exact ⟨rfl, List.append_cancel_left h⟩

theorem headNot_dropWhile (p : Char → Bool) (cs : List Char) : HeadNot p (cs.dropWhile p) := by
  intro c hc
  have hnot := List.head?_dropWhile_not p cs
  rw [Option.mem_def.1 hc] at hnot
  exact hnot

theorem stripEnd_eq_self (h : LastNot p cs) : stripEnd p cs = cs := by
  rw [stripEnd, dropWhile_eq_self, List.reverse_reverse]
  rwa [HeadNot, List.head?_reverse]

theorem lastNot_stripEnd (p : Char → Bool) (cs : List Char) : LastNot p (stripEnd p cs) := by
  intro c hc
  rw [stripEnd, List.getLast?_reverse] at hc
  exact headNot_dropWhile p _ c hc

theorem stripped_strip (p : Char → Bool) (cs : List Char) : Stripped p (strip p cs) := by
  refine ⟨fun c hc => ?_, lastNot_stripEnd p _⟩
  obtain ⟨rest, hrest⟩ := stripEnd_isPrefix p (cs.dropWhile p)
  have hhead : c ∈ (cs.dropWhile p).head? := by
    rw [← hrest, List.head?_append, ← strip, Option.mem_def.1 hc]
    rfl
  exact headNot_dropWhile p cs c hhead

theorem Stripped.strip_eq (h : Stripped p cs) : strip p cs = cs := by
  rw [strip, dropWhile_eq_self h.1, stripEnd_eq_self h.2]

/-- A part of a text that gives the text when it is stripped is all of it. -/
theorem eq_of_strip_eq (h : ds.Sublist cs) (heq : strip p ds = cs) : ds = cs :=
  h.antisymm (heq ▸ strip_sublist p ds)

theorem strip_cons (h : p c = true) (cs : List Char) : strip p (c :: cs) = strip p cs := by
  rw [strip, List.dropWhile_cons_of_pos h, strip]

/-- A character that stays keeps everything after it. -/
theorem dropWhile_append_cons (h : p c = false) (cs ds : List Char) :
    (cs ++ c :: ds).dropWhile p = cs.dropWhile p ++ c :: ds := by
  induction cs with
  | nil => exact List.dropWhile_cons_of_neg (by simp [h])
  | cons b cs ih =>
    rw [List.cons_append, List.dropWhile_cons, List.dropWhile_cons, ih]
    split <;> rfl

/-- A character that stays keeps everything before it. -/
theorem stripEnd_append_cons (h : p c = false) (cs ds : List Char) :
    stripEnd p (cs ++ c :: ds) = cs ++ c :: stripEnd p ds := by
  rw [stripEnd, List.reverse_append, List.reverse_cons, List.append_assoc, List.singleton_append,
    dropWhile_append_cons h]
  simp [stripEnd]

theorem stripEnd_cons (h : p c = false) (cs : List Char) :
    stripEnd p (c :: cs) = c :: stripEnd p cs :=
  stripEnd_append_cons h [] cs

theorem stripEnd_concat (h : p c = true) (cs : List Char) :
    stripEnd p (cs ++ [c]) = stripEnd p cs := by
  rw [stripEnd, List.reverse_append, List.reverse_singleton, List.singleton_append,
    List.dropWhile_cons_of_pos h, stripEnd]

end Strip

theorem of_mem_splitOn (h : l ∈ cs.splitOn c) : c ∉ l ∧ l ⊆ cs := by
  induction cs generalizing l with
  | nil =>
    rw [List.splitOn_nil, List.mem_singleton] at h
    subst h
    exact ⟨List.not_mem_nil, List.nil_subset _⟩
  | cons b cs ih =>
    rw [List.splitOn_cons_eq_if_modifyHead] at h
    split at h
    · rcases List.mem_cons.1 h with rfl | h
      · exact ⟨List.not_mem_nil, List.nil_subset _⟩
      · exact ⟨(ih h).1, List.subset_cons_of_subset b (ih h).2⟩
    · next hb =>
      rcases hs : cs.splitOn c with _ | ⟨first, rest⟩
      · exact absurd hs (List.splitOn_ne_nil c cs)
      rw [hs, List.modifyHead_cons] at h
      rw [hs] at ih
      rcases List.mem_cons.1 h with rfl | h
      · obtain ⟨hc, hsub⟩ := ih List.mem_cons_self
        have hbc : c ≠ b := fun hbc => hb (beq_iff_eq.2 hbc.symm)
        exact ⟨List.not_mem_cons_of_ne_of_not_mem hbc hc, List.cons_subset_cons b hsub⟩
      · obtain ⟨hc, hsub⟩ := ih (List.mem_cons_of_mem first h)
        exact ⟨hc, List.subset_cons_of_subset b hsub⟩

section Lines

/-- A text that is one line of whatever text it stands in. -/
def IsLine (l : List Char) : Prop := '\n' ∉ l ∧ l.getLast? ≠ some '\r'

instance (l : List Char) : Decidable (IsLine l) := inferInstanceAs (Decidable (_ ∧ _))

theorem IsLine.tail (h : IsLine (c :: l)) : IsLine l := by
  refine ⟨fun hl => h.1 (List.mem_cons_of_mem c hl), fun hl => h.2 ?_⟩
  rw [List.getLast?_cons, hl]
  rfl

theorem newline_notMem_of_mem_lines (h : l ∈ lines cs) : '\n' ∉ l := by
  fun_induction lines cs generalizing l with
  | case1 => cases h
  | case2 cs ih | case3 cs ih =>
    rcases List.mem_cons.1 h with rfl | h
    · exact List.not_mem_nil
    · exact ih h
  | case4 c cs hc hcr hlines ih =>
    rw [List.mem_singleton.1 h]
    simpa using fun h => hc h.symm
  | case5 c cs hc hcr line rest hlines ih =>
    rw [hlines] at ih
    rcases List.mem_cons.1 h with rfl | h
    · rintro (_ | ⟨_, hl⟩)
      · exact hc rfl
      · exact ih List.mem_cons_self hl
    · exact ih (List.mem_cons_of_mem line h)

theorem lines_append_newline (h : IsLine l) (cs : List Char) :
    lines (l ++ '\n' :: cs) = l :: lines cs := by
  induction l with
  | nil => rfl
  | cons c l ih =>
    have hc : c ≠ '\n' := fun hc => h.1 (hc ▸ List.mem_cons_self)
    rw [List.cons_append, Text.lines, ih h.tail]
    · exact hc
    · rintro rest rfl heq
      cases l with
      | nil => exact h.2 rfl
      | cons d l => exact h.tail.1 ((List.cons.inj heq).1 ▸ List.mem_cons_self)

theorem lines_flatMap {ls : List (List Char)} (h : ∀ l ∈ ls, IsLine l) :
    lines (ls.flatMap (· ++ ['\n'])) = ls := by
  induction ls with
  | nil => rfl
  | cons l ls ih =>
    rw [List.flatMap_cons, List.append_assoc, List.singleton_append,
      lines_append_newline (h l List.mem_cons_self),
      ih fun l hl => h l (List.mem_cons_of_mem _ hl)]

end Lines

end ThreeAddress.Text
