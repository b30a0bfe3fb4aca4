import ThreeAddress.Json.Decode
import ThreeAddress.Proofs.JsonText
import Mathlib.Data.List.Forall2
import Mathlib.Data.List.Nodup

/-!
# Objects as records

The fields of a record are found in an object wherever they stand and whatever else it has
(`Arranged.fields?_eq`). So a value whose records were rearranged at any depth has the same fields
(`Rearranged.fields?_eq`), while a field that comes twice is never read (`fields?_repeated`).
-/

namespace ThreeAddress.Json

namespace Value

variable {fields members ms : List (Quoted × Value)} {names : List String} {name : String}
  {key : Quoted} {v w : Value}

section Members

theorem nodup_keys (h : names.Nodup) : (names.map some).Nodup :=
  List.Nodup.map (Option.some_injective String) h

theorem filter_eq_lookup (h : (fields.map Prod.fst).Nodup) (key : Quoted) :
    fields.filter (·.1 == key) = (fields.lookup key).toList.map (key, ·) := by
  induction fields with
  | nil => rfl
  | cons m fields ih =>
    obtain ⟨key', v⟩ := m
    rw [List.map_cons, List.nodup_cons] at h
    rw [List.filter_cons, List.lookup_cons]
    by_cases hkey : key' = key
    · subst hkey
      have hrest : fields.filter (·.1 == key') = [] := List.filter_eq_nil_iff.2 fun m hm hkey =>
        h.1 (List.mem_map.2 ⟨m, hm, beq_iff_eq.1 hkey⟩)
      rw [if_pos (beq_self_eq_true key'), hrest, beq_self_eq_true]
      rfl
    · rw [if_neg (by simpa using hkey), ih h.2, beq_false_of_ne (Ne.symm hkey)]

theorem lookup_of_mem (h : (fields.map Prod.fst).Nodup) {m : Quoted × Value} (hm : m ∈ fields) :
    fields.lookup m.1 = some m.2 := by
  have hfilter : m ∈ fields.filter (·.1 == m.1) := List.mem_filter.2 ⟨hm, beq_self_eq_true m.1⟩
  rw [filter_eq_lookup h] at hfilter
  obtain ⟨v, hv, hm'⟩ := List.mem_map.1 hfilter
  rw [Option.mem_toList.1 hv, ← congrArg Prod.snd hm']

/-- The members with a known key are these fields, in some order. -/
structure Arranged (known : List Quoted) (fields members : List (Quoted × Value)) : Prop where
  keys : ∀ m ∈ members, m.1.isSome = true
  perm : (members.filter fun m => m.1 ∈ known).Perm fields

theorem Arranged.member?_eq (h : Arranged (names.map some) fields members)
    (hnodup : (fields.map Prod.fst).Nodup) (hname : name ∈ names) :
    member? members name = some (fields.lookup (some name)) := by
  have hfilter : (members.filter fun m => m.1 ∈ names.map some).filter (·.1 == some name)
      = members.filter (·.1 == some name) := by
    rw [List.filter_filter]
    refine List.filter_congr fun m _ => ?_
    by_cases hm : m.1 = some name <;> simp [hm, hname]
  have hperm := h.perm.filter (·.1 == some name)
  rw [hfilter, filter_eq_lookup hnodup] at hperm
  rw [member?]
  rcases hlookup : fields.lookup (some name) with _ | v
  · rw [hlookup] at hperm
    rw [hperm.eq_nil]
  · rw [hlookup] at hperm
    rw [List.perm_singleton.1 hperm]

theorem mapM_eq_some_map {α β : Type} {f : α → Option β} {g : α → β} {l : List α}
    (h : ∀ a ∈ l, f a = some (g a)) : l.mapM f = some (l.map g) := by
  induction l with
  | nil => rfl
  | cons a l ih =>
    rw [List.mapM_cons, h a List.mem_cons_self, ih fun b hb => h b (List.mem_cons_of_mem a hb)]
    rfl

theorem Arranged.fields?_eq (h : Arranged (names.map some) fields members)
    (hnodup : (fields.map Prod.fst).Nodup) :
    fields? names members = some (names.map fun name => fields.lookup (some name)) := by
  rw [fields?, if_pos (List.all_eq_true.2 h.keys)]
  exact mapM_eq_some_map fun name hname => h.member?_eq hnodup hname

/-- What is read of a record is what its members say. -/
theorem member?_of_fields? {values : List (Option Value)} {value : Option Value}
    (h : fields? names members = some values) (hmem : (name, value) ∈ names.zip values) :
    member? members name = some value := by
  rw [fields?] at h
  split at h
  · induction names generalizing values with
    | nil => cases hmem
    | cons name' names ih =>
      rw [List.mapM_cons] at h
      obtain ⟨value', hvalue, h⟩ := Option.bind_eq_some_iff.1 h
      obtain ⟨values', hvalues, h⟩ := Option.bind_eq_some_iff.1 h
      cases h
      rw [List.zip_cons_cons] at hmem
      rcases List.mem_cons.1 hmem with hmem | hmem
      · cases hmem
        exact hvalue
      · exact ih hmem hvalues
  · cases h

theorem member?_repeated (h : 2 ≤ members.countP (·.1 == some name)) :
    member? members name = none := by
  rw [List.countP_eq_length_filter] at h
  rw [member?]
  split
  · next hfilter =>
    rw [hfilter] at h
    cases h
  · next hfilter =>
    rw [hfilter, List.length_singleton] at h
    omega
  · rfl

theorem mapM_eq_none {α β : Type} {f : α → Option β} {l : List α} {a : α} (ha : a ∈ l)
    (h : f a = none) : l.mapM f = none := by
  induction l with
  | nil => cases ha
  | cons b l ih =>
    rw [List.mapM_cons]
    rcases List.mem_cons.1 ha with rfl | ha
    · rw [h]
      rfl
    · rw [ih ha]
      cases f b <;> rfl

theorem fields?_repeated (hname : name ∈ names) (h : 2 ≤ members.countP (·.1 == some name)) :
    fields? names members = none := by
  rw [fields?]
  split
  · exact mapM_eq_none hname (member?_repeated h)
  · rfl

theorem member?_missing (h : ∀ m ∈ members, m.1 ≠ some name) :
    member? members name = some none := by
  have hfilter : members.filter (·.1 == some name) = [] :=
    List.filter_eq_nil_iff.2 fun m hm hkey => h m hm (beq_iff_eq.1 hkey)
  rw [member?, hfilter]

end Members

section Rearranged

/-- The value, but for objects of more than one member at any depth of such objects, which may have
their members in another order among members with other keys. -/
inductive Rearranged : Value → Value → Prop
  | same (v : Value) : Rearranged v v
  | object {ms fields members : List (Quoted × Value)} (hlength : 2 ≤ ms.length)
    (hkeys : fields.map Prod.fst = ms.map Prod.fst)
    (hvalues : List.Forall₂ Rearranged (ms.map Prod.snd) (fields.map Prod.snd))
    (hmembers : Arranged (ms.map Prod.fst) fields members) :
    Rearranged (.object ms) (.object members)

/-- Whether the value is no object or one with a single member, as a choice is. -/
def isFlat : Value → Bool
  | .object ms => ms.length < 2
  | _ => true

theorem Rearranged.eq (h : Rearranged v w) (hv : v.isFlat = true) : w = v := by
  cases h with
  | same => rfl
  | object hlength =>
    rw [isFlat, decide_eq_true_eq] at hv
    omega

theorem eq_of_rearranged {vs values : List Value} (h : List.Forall₂ Rearranged vs values)
    (hflat : vs.all isFlat = true) : values = vs := by
  induction h with
  | nil => rfl
  | cons hvw _ ih =>
    rw [List.all_cons, Bool.and_eq_true] at hflat
    rw [hvw.eq hflat.1, ih hflat.2]

theorem arranged_self (h : ∀ m ∈ ms, m.1.isSome = true) : Arranged (ms.map Prod.fst) ms ms := by
  refine ⟨h, .of_eq (List.filter_eq_self.2 fun m hm => ?_)⟩
  simpa using ⟨m.2, hm⟩

/-- A rearranged record has its fields, themselves rearranged. -/
theorem Rearranged.fields?_eq (names : List String) (h : Rearranged (.object ms) w)
    (hnames : ms.map Prod.fst = names.map some) (hnodup : names.Nodup) :
    ∃ members values, w = .object members
      ∧ fields? names members = some (values.map some)
      ∧ List.Forall₂ Rearranged (ms.map Prod.snd) values := by
  have htext : ∀ m ∈ ms, m.1.isSome = true := fun m hm => by
    have hkey : m.1 ∈ names.map some := hnames ▸ List.mem_map_of_mem hm
    obtain ⟨name, -, hname⟩ := List.mem_map.1 hkey
    rw [← hname]
    rfl
  obtain ⟨fields, members, rfl, hkeys, hvalues, hmembers⟩ : ∃ fields members, w = .object members
      ∧ fields.map Prod.fst = names.map some
      ∧ List.Forall₂ Rearranged (ms.map Prod.snd) (fields.map Prod.snd)
      ∧ Arranged (names.map some) fields members := by
    rw [← hnames]
    cases h with
    | same =>
      exact ⟨ms, ms, rfl, rfl, List.forall₂_same.2 fun v _ => .same v, arranged_self htext⟩
    | object hlength hkeys hvalues hmembers => exact ⟨_, _, rfl, hkeys, hvalues, hmembers⟩
  have hfields : (fields.map Prod.fst).Nodup := by
    rw [hkeys]
    exact nodup_keys hnodup
  refine ⟨members, fields.map Prod.snd, rfl, ?_, hvalues⟩
  have hlookup : (fields.map Prod.fst).map (fields.lookup ·) = fields.map fun m => some m.2 := by
    rw [List.map_map]
    exact List.map_congr_left fun m hm => lookup_of_mem hfields hm
  rw [hkeys, List.map_map] at hlookup
  rw [hmembers.fields?_eq hfields, List.map_map]
  exact congrArg some hlookup

end Rearranged

section Edited

variable {edit : List (Quoted × Value) → List (Quoted × Value)} {removed : List String}

/-- The value is an object, and the other one has its members after this edit, in any order among
members with keys that the value does not have. -/
def Edited (edit : List (Quoted × Value) → List (Quoted × Value)) (v w : Value) : Prop :=
  ∃ ms members, v = .object ms ∧ w = .object members
    ∧ Arranged (ms.map Prod.fst) (edit ms) members

theorem Edited.fields?_eq (names : List String) (h : Edited edit (.object ms) w)
    (hnames : ms.map Prod.fst = names.map some) (hnodup : names.Nodup)
    (hedit : ((edit ms).map Prod.fst).Sublist (ms.map Prod.fst)) :
    ∃ members, w = .object members
      ∧ fields? names members = some (names.map fun name => (edit ms).lookup (some name)) := by
  obtain ⟨_, members, hms, rfl, hmembers⟩ := h
  cases hms
  rw [hnames] at hmembers hedit
  exact ⟨members, rfl, hmembers.fields?_eq (hedit.nodup (nodup_keys hnodup))⟩

/-- Leaves members out. -/
def dropping (removed : List String) (ms : List (Quoted × Value)) : List (Quoted × Value) :=
  ms.filter fun m => m.1 ∉ removed.map some

/-- Puts this content under a key. -/
def replacing (name : String) (content : Value) (ms : List (Quoted × Value)) :
    List (Quoted × Value) :=
  ms.map fun m => if m.1 = some name then (m.1, content) else m

theorem dropping_sublist (removed : List String) (ms : List (Quoted × Value)) :
    ((dropping removed ms).map Prod.fst).Sublist (ms.map Prod.fst) :=
  List.filter_sublist.map Prod.fst

theorem keys_replacing (name : String) (content : Value) (ms : List (Quoted × Value)) :
    (replacing name content ms).map Prod.fst = ms.map Prod.fst := by
  rw [replacing, List.map_map]
  refine List.map_congr_left fun m _ => ?_
  rw [Function.comp_apply]
  split <;> rfl

theorem lookup_dropping (removed : List String) (ms : List (Quoted × Value)) (name : String) :
    (dropping removed ms).lookup (some name)
      = if name ∈ removed then none else ms.lookup (some name) := by
  induction ms with
  | nil => split <;> rfl
  | cons m ms ih =>
    obtain ⟨key, v⟩ := m
    rw [dropping] at ih ⊢
    by_cases hkey : key ∈ removed.map some
    · rw [List.filter_cons_of_neg (by simpa using hkey), ih, List.lookup_cons]
      split
      · rfl
      · next hname =>
        have hne : some name ≠ key := fun heq => hname (by simpa [← heq] using hkey)
        rw [beq_false_of_ne hne]
    · rw [List.filter_cons_of_pos (by simpa using hkey), List.lookup_cons, List.lookup_cons, ih]
      split
      · next heq =>
        have hname : name ∉ removed := fun hmem => hkey (by simpa [← eq_of_beq heq] using hmem)
        rw [if_neg hname]
      · rfl

end Edited

end Value

end ThreeAddress.Json
