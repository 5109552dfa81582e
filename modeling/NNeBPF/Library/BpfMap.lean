import Mathlib.Data.Finset.Card

/-!
# BPF maps

The two map types that the kernel offers to a program and to user space: a hash map of bounded
size and an array map of fixed size.  A hash map is a finite partial function together with the
set of its keys; its size never passes `maxEntries`, so a full map cannot be over-filled.
-/

namespace BpfMap

/-- A `BPF_MAP_TYPE_HASH` map: a partial function on a finite set of at most `maxEntries` keys. -/
structure HashMap (Key Value : Type*) (maxEntries : ℕ) where
  keys : Finset Key
  lookup : Key → Option Value
  mem_keys : ∀ key, key ∈ keys ↔ (lookup key).isSome
  card_keys_le : keys.card ≤ maxEntries

namespace HashMap

variable {Key Value : Type*} {maxEntries : ℕ}

/-- A map is determined by its lookups. -/
theorem ext_lookup {left right : HashMap Key Value maxEntries}
    (h : ∀ key, left.lookup key = right.lookup key) : left = right := by
  have hlookup : left.lookup = right.lookup := funext h
  have hkeys : left.keys = right.keys := by
    ext key
    rw [left.mem_keys, right.mem_keys, h]
  cases left
  cases right
  simp only at hlookup hkeys
  subst hlookup hkeys
  rfl

theorem mem_keys_iff (map : HashMap Key Value maxEntries) (key : Key) :
    key ∈ map.keys ↔ ∃ value, map.lookup key = some value := by
  rw [map.mem_keys, Option.isSome_iff_exists]

theorem lookup_eq_none_iff (map : HashMap Key Value maxEntries) (key : Key) :
    map.lookup key = none ↔ key ∉ map.keys := by
  rw [map.mem_keys, Option.not_isSome_iff_eq_none]

/-- The map as it is created. -/
def empty : HashMap Key Value maxEntries where
  keys := ∅
  lookup _ := none
  mem_keys key := by simp
  card_keys_le := by simp

@[simp]
theorem lookup_empty (key : Key) :
    (empty : HashMap Key Value maxEntries).lookup key = none := rfl

/-- `bpf_map_update_elem` with `BPF_NOEXIST` succeeds when the key is absent and the map is not
full. -/
def CanCreate (map : HashMap Key Value maxEntries) (key : Key) : Prop :=
  key ∉ map.keys ∧ map.keys.card < maxEntries

theorem canCreate_empty (h : 0 < maxEntries) (key : Key) :
    (empty : HashMap Key Value maxEntries).CanCreate key :=
  ⟨Finset.notMem_empty key, h⟩

variable [DecidableEq Key]

/-- Writes through the pointer that a lookup of `key` returned: the value changes in place.  Without
an entry there is no pointer and nothing changes. -/
def modify (map : HashMap Key Value maxEntries) (key : Key) (change : Value → Value) :
    HashMap Key Value maxEntries where
  keys := map.keys
  lookup := Function.update map.lookup key ((map.lookup key).map change)
  mem_keys other := by
    by_cases h : other = key
    · subst h
      simp [map.mem_keys]
    · simp [h, map.mem_keys]
  card_keys_le := map.card_keys_le

@[simp]
theorem keys_modify (map : HashMap Key Value maxEntries) (key : Key) (change : Value → Value) :
    (map.modify key change).keys = map.keys := rfl

@[simp]
theorem lookup_modify_self (map : HashMap Key Value maxEntries) (key : Key)
    (change : Value → Value) :
    (map.modify key change).lookup key = (map.lookup key).map change := by
  simp [modify]

@[simp]
theorem lookup_modify_of_ne (map : HashMap Key Value maxEntries) {key other : Key}
    (change : Value → Value) (h : other ≠ key) :
    (map.modify key change).lookup other = map.lookup other := by
  simp [modify, h]

/-- Two writes through the same pointer are one write. -/
theorem modify_modify (map : HashMap Key Value maxEntries) (key : Key)
    (first second : Value → Value) :
    (map.modify key first).modify key second = map.modify key (second ∘ first) := by
  apply ext_lookup
  intro other
  by_cases h : other = key
  · subst h
    simp
  · simp [h]

instance (map : HashMap Key Value maxEntries) (key : Key) : Decidable (map.CanCreate key) :=
  inferInstanceAs (Decidable (_ ∧ _))

/-- `bpf_map_update_elem` with `BPF_NOEXIST`; a failed call changes nothing. -/
def updateNoExist (map : HashMap Key Value maxEntries) (key : Key) (value : Value) :
    HashMap Key Value maxEntries :=
  if h : map.CanCreate key then
    { keys := insert key map.keys
      lookup := Function.update map.lookup key (some value)
      mem_keys := by
        intro other
        by_cases hother : other = key
        · subst hother
          simp
        · simp [hother, map.mem_keys]
      card_keys_le := by
        rw [Finset.card_insert_of_notMem h.1]
        exact h.2 }
  else map

theorem updateNoExist_of_not_canCreate {map : HashMap Key Value maxEntries} {key : Key}
    (h : ¬ map.CanCreate key) (value : Value) : map.updateNoExist key value = map :=
  dif_neg h

theorem lookup_updateNoExist_self_of_canCreate {map : HashMap Key Value maxEntries} {key : Key}
    (h : map.CanCreate key) (value : Value) :
    (map.updateNoExist key value).lookup key = some value := by
  simp [updateNoExist, h]

@[simp]
theorem lookup_updateNoExist_of_ne (map : HashMap Key Value maxEntries) {key other : Key}
    (value : Value) (h : other ≠ key) :
    (map.updateNoExist key value).lookup other = map.lookup other := by
  unfold updateNoExist
  split
  · simp [h]
  · rfl

/-- An entry is never replaced by `BPF_NOEXIST`. -/
theorem lookup_updateNoExist_of_lookup_eq_some {map : HashMap Key Value maxEntries}
    {key other : Key} {old : Value} (hold : map.lookup other = some old) (value : Value) :
    (map.updateNoExist key value).lookup other = some old := by
  by_cases h : other = key
  · subst h
    have hmem : other ∈ map.keys := (map.mem_keys_iff other).mpr ⟨old, hold⟩
    rw [updateNoExist_of_not_canCreate (fun hcreate ↦ hcreate.1 hmem), hold]
  · rw [lookup_updateNoExist_of_ne map value h, hold]

/-- If the key is still absent after `BPF_NOEXIST`, the map is full. -/
theorem full_of_lookup_updateNoExist_eq_none {map : HashMap Key Value maxEntries} {key : Key}
    {value : Value} (h : (map.updateNoExist key value).lookup key = none) :
    map.keys.card = maxEntries ∧ map.lookup key = none := by
  by_cases hcreate : map.CanCreate key
  · rw [lookup_updateNoExist_self_of_canCreate hcreate] at h
    cases h
  · rw [updateNoExist_of_not_canCreate hcreate] at h
    refine ⟨le_antisymm map.card_keys_le ?_, h⟩
    by_contra hroom
    exact hcreate ⟨(map.lookup_eq_none_iff key).mp h, not_le.mp hroom⟩

end HashMap

/-! ## Array maps -/

/-- A `BPF_MAP_TYPE_ARRAY` map: all entries exist from the creation on, zero-filled. -/
abbrev ArrayMap (Value : Type*) (maxEntries : ℕ) := Vector Value maxEntries

namespace ArrayMap

variable {Value : Type*} {maxEntries : ℕ}

/-- `bpf_map_lookup_elem`: the kernel reads the key as an unsigned index. -/
def lookup (map : ArrayMap Value maxEntries) (key : BitVec 32) : Option Value := map[key.toNat]?

/-- `bpf_map_update_elem` with `BPF_ANY`: an index past the end is refused. -/
def update (map : ArrayMap Value maxEntries) (key : BitVec 32) (value : Value) :
    ArrayMap Value maxEntries := map.setIfInBounds key.toNat value

theorem lookup_eq_some_of_lt (map : ArrayMap Value maxEntries) {key : BitVec 32}
    (h : key.toNat < maxEntries) : lookup map key = some map[key.toNat] := by
  simp [lookup, h]

theorem lookup_update_self (map : ArrayMap Value maxEntries) {key : BitVec 32}
    (h : key.toNat < maxEntries) (value : Value) :
    lookup (update map key value) key = some value := by
  simp [lookup, update, h]

theorem lookup_update_of_ne (map : ArrayMap Value maxEntries) {key other : BitVec 32}
    (h : other ≠ key) (value : Value) : lookup (update map key value) other = lookup map other := by
  have hne : key.toNat ≠ other.toNat := fun heq ↦ h (BitVec.eq_of_toNat_eq heq.symm)
  simp [lookup, update, hne]

end ArrayMap

end BpfMap
