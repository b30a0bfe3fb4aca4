import ThreeAddress.Proofs.Keeping

/-!
# What operations leave alone

Whatever is written, removed or made somewhere else, the file at a place stays as it is, and the
directories that lead to it stay where they are (`Tree.Spares`). This is so step by step, and
therefore also from the beginning of a job to its end.
-/

namespace ThreeAddress

namespace Files

namespace Tree

variable {t t' t'' : Tree} {o q r : Place} {p : FilePath} {c : ByteArray}

/-- The content of the file at a place, if there is one. -/
def fileAt? (t : Tree) (q : Place) : Option ByteArray :=
  match t.get? q with
  | some (.file c) => some c
  | _ => none

theorem fileAt?_eq_some_iff : t.fileAt? q = some c ↔ t.get? q = some (.file c) := by
  unfold fileAt?
  split <;> simp_all

theorem fileAt?_congr (h : t.get? q = t'.get? q) : t.fileAt? q = t'.fileAt? q := by
  rw [fileAt?, fileAt?, h]

/-- From the first tree to the second no directory is lost, and the file at a place is neither
changed nor given another name. -/
structure Spares (o : Place) (t t' : Tree) : Prop where
  plain : t'.Plain
  directories : ∀ r, t.isDirectoryAt r = true → t'.isDirectoryAt r = true
  file : t'.fileAt? o = t.fileAt? o
  names : ∀ r, o ∈ t'.namesOf r → o ∈ t.namesOf r

namespace Spares

theorem refl (o : Place) (ht : t.Plain) : Spares o t t :=
  ⟨ht, fun _ h => h, rfl, fun _ h => h⟩

theorem trans (h : Spares o t t') (h' : Spares o t' t'') : Spares o t t'' :=
  ⟨h'.plain, fun r hr => h'.directories r (h.directories r hr), h'.file.trans h.file,
    fun r hr => h.names r (h'.names r hr)⟩

theorem overwrite (ht : t.Plain) (hq : q ≠ []) (hdir : t.isDirectoryAt q = false)
    (ho : o ∉ t.namesOf q) : Spares o t (t.overwrite q c) where
  plain := ht.overwrite hq c
  directories _ hr := ht.isDirectoryAt_overwrite hq hdir hr
  file := fileAt?_congr (by rw [ht.get?_overwrite hq, if_neg ho])
  names r hr := by rwa [namesOf_of_shared (shared_overwrite t q c)] at hr

theorem erase (ht : t.Plain) (hq : q ≠ []) (hfile : t.get? q = some (.file c)) (ho : o ≠ q) :
    Spares o t (t.erase q) where
  plain := ht.erase hq
  directories _ hr := isDirectoryAt_erase hq hfile hr
  file := fileAt?_congr (by rw [get?_erase_of_ne_nil hq, if_neg ho])
  names r hr := mem_of_mem_namesOf_erase hr

theorem made (ht : t.Plain) (hq : q ≠ []) (hnone : t.get? q = none) :
    Spares o t ((t.put q .directory).setChange q now) where
  plain := ht.made hq hnone
  directories _ hr := isDirectoryAt_made hq hr
  file := by
    by_cases ho : o = q
    · rw [fileAt?, fileAt?, get?_made hq, if_pos ho, ho, hnone]
    · exact fileAt?_congr (by rw [get?_made hq, if_neg ho])
  names r hr := hr

theorem write (h : Spares o t t') (ho : o ∉ t.namesOf p.place) (hw : t'.write p c = .ok t'') :
    Spares o t t'' := by
  obtain ⟨hleads, -, hdir, rfl⟩ := h.plain.write_eq_ok_iff.1 hw
  exact h.trans (overwrite h.plain hleads.place_ne_nil hdir fun hmem => ho (h.names _ hmem))

theorem remove (h : Spares o t t') (ho : o ≠ p.place) (hr : t'.remove p = .ok t'') :
    Spares o t t'' := by
  obtain ⟨hleads, -, ⟨c, hc⟩, rfl⟩ := h.plain.remove_eq_ok_iff.1 hr
  exact h.trans (erase h.plain hleads.place_ne_nil hc ho)

theorem makeDirectory (h : Spares o t t') (hm : t'.makeDirectory p = .ok t'') : Spares o t t'' := by
  obtain ⟨hne, hnone, rfl⟩ := h.plain.of_makeDirectory hm
  exact h.trans (made h.plain hne hnone)

end Spares

end Tree

section Sparing

variable {I : Tree → Prop} {t : Tree} {o : Place} {p : FilePath} {f : Tree → Except Error Tree}

theorem keeps_change_sole (h : ∀ t t', I t → f t = .ok t' → I t') :
    Keeps (Sole I) (Tree.change f) := by
  refine keeps_sole_iff.2 fun t ht => ?_
  unfold Tree.change
  cases hf : f t with
  | error e => exact ht
  | ok t' => exact h t t' ht hf

theorem keeps_isDirectory_sole (I : Tree → Prop) (p : FilePath) : Keeps (Sole I) (isDirectory p) :=
  keeps_sole_iff.2 fun _ ht => ht

theorem keeps_readText_sole (I : Tree → Prop) (p : FilePath) :
    Keeps (Sole I) (readText p : StateM Tree _) :=
  keeps_readText fun _ _ h => h.1 ▸ rfl

theorem keeps_writeText_spares (h : o ∉ t.namesOf p.place) (text : String) :
    Keeps (Sole (Tree.Spares o t)) (writeText p text : StateM Tree _) :=
  keeps_change_sole fun _ _ hs hw => hs.write h hw

theorem keeps_remove_spares (h : o ≠ p.place) :
    Keeps (Sole (Tree.Spares o t)) (Access.remove p : StateM Tree _) :=
  keeps_change_sole fun _ _ hs hr => hs.remove h hr

theorem keeps_makeDirectory_spares (o : Place) (t : Tree) (p : FilePath) :
    Keeps (Sole (Tree.Spares o t)) (Access.makeDirectory p : StateM Tree _) :=
  keeps_change_sole fun _ _ hs hm => hs.makeDirectory hm

end Sparing

end Files

end ThreeAddress
