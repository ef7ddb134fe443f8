import Mathlib.Data.Finmap
import Mathlib.Data.UInt
import Aura.Lib.System
import Aura.Lib.Probing

/-!
# The buffer size map

The hash table of `adaptive_buffer.c` from buffer addresses to size classes, with open addressing,
deletion by backward shift and growth. Sizes and indices are natural numbers, and the subtractions
of `size_t` wrap around. The table of a map is a function; only its first `capacity` slots are used.

The `while` loop of `buf_map_grow` has no bound of its own: it gets the capacity as fuel, and a
result `none` would mean that it ran longer. The refinement (`sizeMap_refines`) excludes that. -/

namespace Aura

/-- `BUFFER_SIZE_CLASSES`. -/
abbrev BUFFER_SIZE_CLASSES : ℕ := 16
/-- `BUF_MAP_MAX_CAPACITY`. -/
abbrev BUF_MAP_MAX_CAPACITY : ℕ := 2 ^ 20
/-- `BUF_MAP_INITIAL_CAPACITY`. -/
abbrev BUF_MAP_INITIAL_CAPACITY : ℕ := 1024
/-- `BUF_MAP_LOAD_FACTOR_NUM`. -/
abbrev BUF_MAP_LOAD_FACTOR_NUM : ℕ := 3
/-- `BUF_MAP_LOAD_FACTOR_DEN`. -/
abbrev BUF_MAP_LOAD_FACTOR_DEN : ℕ := 4

/-- `buf_map_entry_t`. The key 0 marks an empty slot. -/
structure BufMapEntry where
  key : UInt64 := 0
  classIdx : UInt8 := 0
deriving DecidableEq

/-- `buf_size_map_t`. -/
structure BufSizeMap where
  entries : ℕ → BufMapEntry
  capacity : ℕ
  count : ℕ

/-- `buf_map_hash`. -/
def bufMapHash (key : UInt64) (mask : ℕ) : ℕ :=
  let key := key ^^^ (key >>> 16)
  let key := key * 0x9E3779B97F4A7C15
  let key := key ^^^ (key >>> 16)
  (key &&& UInt64.ofNat mask).toNat

/-- The difference of two values of type `size_t`, masked. -/
def maskedSub (a b mask : ℕ) : ℕ := (a + 2 ^ 64 - b) % 2 ^ 64 &&& mask

/-- `buf_size_map_init`, when its allocation succeeds. -/
def bufSizeMapInit : BufSizeMap where
  entries _ := {}
  capacity := BUF_MAP_INITIAL_CAPACITY
  count := 0

/-! ## Growth -/

/-- The `while` loop of `buf_map_grow`: the first empty slot from `idx` on. -/
def bufMapFreeSlot (entries : ℕ → BufMapEntry) (mask : ℕ) : ℕ → ℕ → Option ℕ
  | 0, _ => none
  | fuel + 1, idx =>
      if (entries idx).key ≠ 0 then bufMapFreeSlot entries mask fuel ((idx + 1) &&& mask)
      else some idx

/-- The `for` loop of `buf_map_grow`: the new table after the first `i` slots of the old one. -/
def bufMapRehash (old : ℕ → BufMapEntry) (newCap : ℕ) : ℕ → Option (ℕ → BufMapEntry)
  | 0 => some fun _ => {}
  | i + 1 =>
      (bufMapRehash old newCap i).bind fun newEntries =>
        if (old i).key ≠ 0 then
          (bufMapFreeSlot newEntries (newCap - 1) newCap
            (bufMapHash (old i).key (newCap - 1))).map fun idx =>
              Function.update newEntries idx (old i)
        else some newEntries

namespace BufSizeMap

variable (map : BufSizeMap)

/-- `buf_map_grow`. `calloc` says whether the allocation of the new table succeeds. -/
def grow (calloc : Bool) : Option (ℤ × BufSizeMap) :=
  let newCap := map.capacity * 2
  if newCap > BUF_MAP_MAX_CAPACITY then some (-1, map)
  else if !calloc then some (-1, map)
  else (bufMapRehash map.entries newCap map.capacity).map fun newEntries =>
    (0, { map with entries := newEntries, capacity := newCap })

/-! ## Search -/

/-- The search loop of `buf_size_map_insert` and `buf_size_map_remove`: whether it found the key,
and where it stopped. -/
def probe (key : UInt64) : ℕ → ℕ → Bool × ℕ
  | 0, idx => (false, idx)
  | n + 1, idx =>
      if (map.entries idx).key = 0 then (false, idx)
      else if (map.entries idx).key = key then (true, idx)
      else probe key n ((idx + 1) &&& (map.capacity - 1))

/-- The search for a key, from its natural slot. -/
def search (key : UInt64) : Bool × ℕ :=
  map.probe key map.capacity (bufMapHash key (map.capacity - 1))

/-! ## Insertion -/

/-- `buf_size_map_insert` after the check of the load. -/
def insertSlot (key : UInt64) (classIdx : ℤ) : ℤ × BufSizeMap :=
  let (found, idx) := map.search key
  if found then
    (0, { map with
      entries := Function.update map.entries idx
        { map.entries idx with classIdx := UInt8.ofInt classIdx } })
  else if (map.entries idx).key ≠ 0 then (-1, map)
  else
    (0, { map with
      entries := Function.update map.entries idx { key, classIdx := UInt8.ofInt classIdx }
      count := map.count + 1 })

/-- `buf_size_map_insert`. -/
def insert (calloc : Bool) (ptr : UInt64) (classIdx : ℤ) : Option (ℤ × BufSizeMap) :=
  if ptr = 0 then some (-1, map)
  else if map.count * BUF_MAP_LOAD_FACTOR_DEN ≥ map.capacity * BUF_MAP_LOAD_FACTOR_NUM then
    if map.capacity ≥ BUF_MAP_MAX_CAPACITY then
      if map.count ≥ map.capacity then some (-1, map) else some (map.insertSlot ptr classIdx)
    else
      (map.grow calloc).bind fun (result, map) =>
        if result ≠ 0 then some (-1, map) else some (map.insertSlot ptr classIdx)
  else some (map.insertSlot ptr classIdx)

/-! ## Deletion -/

/-- The backward shift of `buf_size_map_remove`, with the hole in slot `hole`, for at most `n` slots
from `next` on: the table and the hole at the end. -/
def shift (mask : ℕ) : ℕ → (ℕ → BufMapEntry) → ℕ → ℕ → (ℕ → BufMapEntry) × ℕ
  | 0, entries, hole, _ => (entries, hole)
  | n + 1, entries, hole, next =>
      if (entries next).key = 0 then (entries, hole)
      else
        if maskedSub hole (bufMapHash (entries next).key mask) mask ≤
            maskedSub next (bufMapHash (entries next).key mask) mask then
          shift mask n (Function.update entries hole (entries next)) next ((next + 1) &&& mask)
        else shift mask n entries hole ((next + 1) &&& mask)

/-- `buf_size_map_remove`. -/
def remove (ptr : UInt64) : ℤ × BufSizeMap :=
  let (found, idx) := map.search ptr
  if found then
    let (entries, hole) :=
      shift (map.capacity - 1) map.capacity map.entries idx ((idx + 1) &&& (map.capacity - 1))
    ((map.entries idx).classIdx.toNat,
      { map with
        entries := Function.update entries hole { entries hole with key := 0 }
        count := map.count - 1 })
  else (-1, map)

end BufSizeMap

/-! ## The map as a transition system, and its reference -/

/-- An operation on the map. `calloc` says whether an allocation made in it succeeds. -/
inductive SizeMapOp
  | insert (ptr : UInt64) (classIdx : Fin BUFFER_SIZE_CLASSES) (calloc : Bool)
  | remove (ptr : UInt64)

/-- An operation with its result. -/
def BufSizeMap.apply (map : BufSizeMap) : SizeMapOp → Option (ℤ × BufSizeMap)
  | .insert ptr classIdx calloc => map.insert calloc ptr classIdx
  | .remove ptr => some (map.remove ptr)

/-- The map from its initialisation on. A step is labelled with the operation and its result. -/
def sizeMapSystem : Lib.System BufSizeMap (SizeMapOp × ℤ) where
  init map := map = bufSizeMapInit
  step map l map' := map.apply l.1 = some (l.2, map')

/-- The reference: a finite map from addresses to size classes. -/
abbrev SizeMap := Finmap fun _ : UInt64 => Fin BUFFER_SIZE_CLASSES

/-- What the operations mean. An insertion adds its key or fails without effect, and it only fails
for a null pointer, without memory, or with the largest number of keys. A removal returns the class
that was inserted last, and deletes the key. -/
def SizeMap.Step (m : SizeMap) (l : SizeMapOp × ℤ) (m' : SizeMap) : Prop :=
  match l.1 with
  | .insert ptr classIdx calloc =>
      (ptr ≠ 0 ∧ l.2 = 0 ∧ m' = m.insert ptr classIdx) ∨
        ((ptr = 0 ∨ calloc = false ∨ BUF_MAP_MAX_CAPACITY ≤ m.keys.card) ∧ l.2 = -1 ∧ m' = m)
  | .remove ptr => l.2 = ((m.lookup ptr).elim (-1) fun c => (c : ℤ)) ∧ m' = m.erase ptr

/-- The reference as a transition system. -/
def referenceSystem : Lib.System SizeMap (SizeMapOp × ℤ) where
  init m := m = ∅
  step := SizeMap.Step

end Aura
