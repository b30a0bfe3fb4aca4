import Mathlib.Data.Finmap
import ThreeAddress.Proofs.References

/-!
# Binding tables in use

A table can be stored as a map from keys to registers beside the list of the keys, where a new key
gets the register that has the length of the list as its number (`StoredBindings`). Whatever is
asked of it, it stands for the table that has the same keys and says the same
(`Stores.afterAll`). So the map has a register for each key of the list and for no other, and the
place at which a key was bound first decides its register for good (`StoredBindings.settled`).
-/

namespace ThreeAddress

open Assembly (Register)

namespace Bindings

/-- What a table can be asked. -/
inductive Use where
  | bind (k : Key)
  | value (name : String)
  | scratch (role : Scratch)
  | get (k : Key)
  | getValue (name : String)
  | size
  | list
  deriving DecidableEq, Repr

/-- The key that gets a register if it has none. -/
def Use.key? : Use → Option Key
  | .bind k => some k
  | .value name => some (.value name)
  | .scratch role => some (.scratch role)
  | .get _ | .getValue _ | .size | .list => none

inductive Reply where
  | register (r : Register)
  | lookup (r : Option Register)
  | count (n : Nat)
  /-- A key that is listed without a register is missing where registers are looked up. -/
  | listing (entries : List (Key × Option Register))
  deriving DecidableEq, Repr

def bind (b : Bindings) (k : Key) : Bindings × Reply :=
  (b.insert k, .register ((b.insert k).register k))

def perform (b : Bindings) : Use → Bindings × Reply
  | .bind k => b.bind k
  | .value name => b.bind (.value name)
  | .scratch role => b.bind (.scratch role)
  | .get k => (b, .lookup (b.get? k))
  | .getValue name => (b, .lookup (b.get? (.value name)))
  | .size => (b, .count b.size)
  | .list => (b, .listing (b.toList.map fun (k, r) => (k, some r)))

def afterAll (b : Bindings) (uses : List Use) : Bindings :=
  uses.foldl (fun b u => (b.perform u).1) b

def replies (b : Bindings) : List Use → List Reply
  | [] => []
  | u :: us => (b.perform u).2 :: (b.perform u).1.replies us

variable {b : Bindings} {j k : Key} {r : Register}

theorem afterAll_eq_insertAll (b : Bindings) (uses : List Use) :
    b.afterAll uses = b.insertAll (uses.filterMap Use.key?) := by
  induction uses generalizing b with
  | nil => rfl
  | cons u us ih =>
    rw [afterAll, List.foldl_cons, ← afterAll, ih]
    cases u <;> rfl

/-- The keys of a table that was empty are those that were bound, each where it was bound first. -/
theorem keys_afterAll_empty (uses : List Use) :
    (empty.afterAll uses).keys = (uses.filterMap Use.key?).eraseDups := by
  rw [afterAll_eq_insertAll, keys_insertAll, fresh, List.filter_eq_self.2]
  · exact List.nil_append _
  · exact fun k _ => decide_eq_true List.not_mem_nil

theorem register_eq_registerAt {n : Nat} (h : b.keys[n]? = some k) :
    b.register k = registerAt n := by
  obtain ⟨hn, rfl⟩ := List.getElem?_eq_some_iff.1 h
  rw [register, b.nodup.idxOf_getElem]

theorem register_afterAll (uses : List Use) (h : k ∈ b.keys) :
    (b.afterAll uses).get? k = some (b.register k) := by
  rw [afterAll_eq_insertAll, get?_eq_some]
  exact ⟨mem_insertAll.2 (.inl h), register_insertAll _ h⟩

theorem toList_eq_map (b : Bindings) : b.toList = b.keys.map fun k => (k, b.register k) := by
  refine List.ext_getElem (by simp [toList]) fun n hn hn' => ?_
  rw [List.length_map] at hn'
  have hregister := register_eq_registerAt (List.getElem?_eq_getElem hn')
  simp [toList, hregister]

theorem get?_insert_self (b : Bindings) (k : Key) :
    (b.insert k).get? k = some ((b.insert k).register k) :=
  get?_eq_some.2 ⟨mem_insert.2 (.inr rfl), rfl⟩

theorem get?_insert_of_ne (h : j ≠ k) : (b.insert k).get? j = b.get? j := by
  have hmem : j ∈ (b.insert k).keys ↔ j ∈ b.keys := by simp [mem_insert, h]
  by_cases hj : j ∈ b.keys
  · rw [get?, get?, if_pos hj, if_pos (hmem.2 hj), register_insert hj]
  · rw [get?, get?, if_neg hj, if_neg (hmem.not.2 hj)]

/-- The registers of a table are numbered without a gap. -/
theorem exists_get?_iff (hb : b.size ≤ UInt32.size) :
    (∃ k, b.get? k = some r) ↔ ∃ m : UInt32, r = .x m ∧ m.toNat < b.size := by
  refine ⟨fun ⟨k, hk⟩ => ?_, fun ⟨m, hr, hm⟩ => ?_⟩
  · obtain ⟨hmem, rfl⟩ := get?_eq_some.1 hk
    have hlt : b.keys.idxOf k < b.size := List.idxOf_lt_length_of_mem hmem
    exact ⟨_, rfl, by rwa [UInt32.toNat_ofNat_of_lt' (by omega)]⟩
  · have hregister := register_eq_registerAt (List.getElem?_eq_getElem hm)
    refine ⟨b.keys[m.toNat], get?_eq_some.2 ⟨List.getElem_mem hm, ?_⟩⟩
    rw [hregister, hr, registerAt, UInt32.ofNat_toNat]

end Bindings

open Bindings (Use Reply registerAt)

/-- A table as it is stored: the registers by their keys, and the keys in order. -/
structure StoredBindings where
  registers : Finmap fun _ : Key => Register
  order : List Key

namespace StoredBindings

def empty : StoredBindings := ⟨∅, []⟩

def bind (t : StoredBindings) (k : Key) : StoredBindings × Reply :=
  match t.registers.lookup k with
  | some r => (t, .register r)
  | none =>
    let r := registerAt t.order.length
    (⟨t.registers.insert k r, t.order ++ [k]⟩, .register r)

def entries (t : StoredBindings) : List (Key × Option Register) :=
  t.order.map fun k => (k, t.registers.lookup k)

def perform (t : StoredBindings) : Use → StoredBindings × Reply
  | .bind k => t.bind k
  | .value name => t.bind (.value name)
  | .scratch role => t.bind (.scratch role)
  | .get k => (t, .lookup (t.registers.lookup k))
  | .getValue name => (t, .lookup (t.registers.lookup (.value name)))
  | .size => (t, .count t.order.length)
  | .list => (t, .listing t.entries)

def afterAll (t : StoredBindings) (uses : List Use) : StoredBindings :=
  uses.foldl (fun t u => (t.perform u).1) t

def replies (t : StoredBindings) : List Use → List Reply
  | [] => []
  | u :: us => (t.perform u).2 :: (t.perform u).1.replies us

end StoredBindings

/-- What is stored stands for the table. -/
structure Stores (t : StoredBindings) (b : Bindings) : Prop where
  order : t.order = b.keys
  lookup : ∀ k, t.registers.lookup k = b.get? k

namespace Stores

variable {t : StoredBindings} {b : Bindings} {j k : Key} {r : Register}

theorem empty : Stores .empty .empty := ⟨rfl, fun _ => rfl⟩

theorem lookup_eq_none (h : Stores t b) : t.registers.lookup k = none ↔ k ∉ b.keys := by
  rw [h.lookup, Bindings.get?, ite_eq_right_iff]
  simp

theorem mem_registers (h : Stores t b) : k ∈ t.registers ↔ k ∈ b.keys := by
  rw [← not_iff_not, ← h.lookup_eq_none, Finmap.lookup_eq_none]

theorem entries_eq (h : Stores t b) : t.entries = b.toList.map fun (k, r) => (k, some r) := by
  rw [StoredBindings.entries, h.order, Bindings.toList_eq_map, List.map_map]
  refine List.map_congr_left fun k hk => ?_
  rw [h.lookup, Bindings.get?, if_pos hk]
  rfl

theorem mem_entries (h : Stores t b) :
    (k, some r) ∈ t.entries ↔ t.registers.lookup k = some r := by
  refine ⟨fun hk => ?_, fun hk => ?_⟩
  · obtain ⟨j, -, heq⟩ := List.mem_map.1 hk
    obtain ⟨rfl, hlookup⟩ := Prod.mk.inj heq
    exact hlookup
  · have hmem : k ∈ t.order := by
      rw [h.order]
      exact (Bindings.get?_eq_some.1 ((h.lookup k).symm.trans hk)).1
    exact List.mem_map.2 ⟨k, hmem, by rw [hk]⟩

theorem notMem_entries (h : Stores t b) (k : Key) : (k, none) ∉ t.entries := fun hk => by
  obtain ⟨j, hj, heq⟩ := List.mem_map.1 hk
  obtain ⟨rfl, hlookup⟩ := Prod.mk.inj heq
  exact h.lookup_eq_none.1 hlookup (h.order ▸ hj)

theorem lookup_inj (h : Stores t b) (hsize : t.order.length ≤ UInt32.size)
    (hj : j ∈ t.registers) (hk : k ∈ t.registers) :
    t.registers.lookup j = t.registers.lookup k ↔ j = k := by
  rw [h.mem_registers] at hj hk
  rw [h.order] at hsize
  rw [h.lookup, h.lookup, Bindings.get?, Bindings.get?, if_pos hj, if_pos hk, Option.some.injEq]
  exact Bindings.register_inj hsize hj hk

theorem exists_lookup_iff (h : Stores t b) (hsize : t.order.length ≤ UInt32.size) :
    (∃ k, t.registers.lookup k = some r) ↔ ∃ m : UInt32, r = .x m ∧ m.toNat < t.order.length := by
  rw [h.order] at hsize ⊢
  simp only [h.lookup]
  exact Bindings.exists_get?_iff hsize

/-- A key that is bound already changes nothing; a new one comes behind the others. -/
theorem bind (h : Stores t b) (k : Key) :
    Stores (t.bind k).1 (b.bind k).1 ∧ (t.bind k).2 = (b.bind k).2 := by
  rcases hlookup : t.registers.lookup k with _ | r
  · have hnew : k ∉ b.keys := fun hk => by
      rw [h.lookup, Bindings.get?, if_pos hk] at hlookup
      cases hlookup
    have hkeys := Bindings.keys_insert_of_notMem hnew
    have hregister : (b.insert k).register k = registerAt b.keys.length :=
      Bindings.register_insert_of_notMem hnew
    simp only [StoredBindings.bind, hlookup, Bindings.bind, h.order, hregister]
    refine ⟨⟨hkeys.symm, fun j => ?_⟩, trivial⟩
    by_cases hj : j = k
    · subst hj
      rw [Finmap.lookup_insert, Bindings.get?_insert_self, hregister]
    · rw [Finmap.lookup_insert_of_ne _ hj, h.lookup, Bindings.get?_insert_of_ne hj]
  · obtain ⟨hk, rfl⟩ := Bindings.get?_eq_some.1 ((h.lookup k).symm.trans hlookup)
    have hsame : b.insert k = b := dif_pos hk
    simp only [StoredBindings.bind, hlookup, Bindings.bind, hsame]
    exact ⟨h, trivial⟩

theorem perform (h : Stores t b) (u : Use) :
    Stores (t.perform u).1 (b.perform u).1 ∧ (t.perform u).2 = (b.perform u).2 := by
  cases u with
  | bind k => exact h.bind k
  | value name => exact h.bind _
  | scratch role => exact h.bind _
  | get k => exact ⟨h, congrArg Reply.lookup (h.lookup k)⟩
  | getValue name => exact ⟨h, congrArg Reply.lookup (h.lookup _)⟩
  | size => exact ⟨h, congrArg (fun ks : List Key => Reply.count ks.length) h.order⟩
  | list => exact ⟨h, congrArg Reply.listing h.entries_eq⟩

theorem afterAll (h : Stores t b) (uses : List Use) :
    Stores (t.afterAll uses) (b.afterAll uses) ∧ t.replies uses = b.replies uses := by
  induction uses generalizing t b with
  | nil => exact ⟨h, rfl⟩
  | cons u us ih =>
    obtain ⟨hnext, hreply⟩ := h.perform u
    obtain ⟨hrest, hreplies⟩ := ih hnext
    exact ⟨hrest, congrArg₂ List.cons hreply hreplies⟩

end Stores

namespace StoredBindings

/-- A stored table says what the table says that it stands for. Its list has the keys that were
bound, each once and in the order of their first uses, and its map has the same keys. The register
of a key has the key's place as its number, whatever is bound later. Only binding changes the table,
and no key of the map is missed when it is listed. Up to `2 ^ 32` keys, no register is shared or
left out. -/
theorem settled (uses : List Use) :
    let t := empty.afterAll uses
    let b := Bindings.empty.afterAll uses
    let bound := uses.filterMap Use.key?
    (t.order = b.keys ∧ (∀ k, t.registers.lookup k = b.get? k)
      ∧ empty.replies uses = Bindings.empty.replies uses)
    ∧ (t.order = bound.eraseDups ∧ t.order.Nodup)
    ∧ (∀ k, k ∈ t.registers ↔ k ∈ bound)
    ∧ (∀ n k, t.order[n]? = some k → ∀ later, ∃ m : UInt32, m.toNat = n % 2 ^ 32
      ∧ (t.afterAll later).registers.lookup k = some (.x m))
    ∧ (∀ u, u.key? = none → (t.perform u).1 = t)
    ∧ (∀ k, (t.perform (.get k)).2 = .lookup none ↔ k ∉ bound)
    ∧ ((∀ k r, (k, some r) ∈ t.entries ↔ t.registers.lookup k = some r)
      ∧ ∀ k, (k, none) ∉ t.entries)
    ∧ (t.order.length ≤ 2 ^ 32 →
      (∀ j k, j ∈ t.registers → k ∈ t.registers →
        (t.registers.lookup j = t.registers.lookup k ↔ j = k))
      ∧ ∀ r, (∃ k, t.registers.lookup k = some r)
        ↔ ∃ m : UInt32, r = .x m ∧ m.toNat < t.order.length) := by
  intro t b bound
  obtain ⟨hstores, hreplies⟩ := Stores.empty.afterAll uses
  have hkeys : b.keys = bound.eraseDups := Bindings.keys_afterAll_empty uses
  have hmem (k : Key) : k ∈ b.keys ↔ k ∈ bound := by rw [hkeys, List.mem_eraseDups]
  refine ⟨⟨hstores.order, hstores.lookup, hreplies⟩, ⟨hstores.order.trans hkeys, ?_⟩,
    fun k => hstores.mem_registers.trans (hmem k), fun n k hn later => ?_, fun u hu => ?_,
    fun k => ?_, ⟨fun k r => hstores.mem_entries, hstores.notMem_entries⟩,
    fun hsize => ⟨fun j k => hstores.lookup_inj hsize, fun r => hstores.exists_lookup_iff hsize⟩⟩
  · rw [hstores.order]
    exact b.nodup
  · rw [hstores.order] at hn
    refine ⟨.ofNat n, UInt32.toNat_ofNat', ?_⟩
    rw [(hstores.afterAll later).1.lookup,
      Bindings.register_afterAll later (List.mem_of_getElem? hn),
      Bindings.register_eq_registerAt hn, registerAt]
  · cases u with
    | bind k | value name | scratch role => cases hu
    | get k | getValue name | size | list => rfl
  · rw [← hmem k, ← hstores.lookup_eq_none]
    exact ⟨Reply.lookup.inj, congrArg Reply.lookup⟩

/-- A scratch role and a value of the same spelling are told apart, and looking up binds nothing. -/
example : empty.replies [.value "tmp", .scratch .store, .getValue "ghost", .bind (.value "tmp"),
      .size, .list]
    = [.register (.x 0), .register (.x 1), .lookup none, .register (.x 0), .count 2,
      .listing [(.value "tmp", some (.x 0)), (.scratch .store, some (.x 1))]] := by
  decide

end StoredBindings

end ThreeAddress
