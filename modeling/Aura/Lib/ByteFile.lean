import Mathlib.Algebra.Group.Nat.Defs
import Mathlib.Logic.Function.Basic
import Mathlib.Tactic.SplitIfs

/-!
# Files as bytes

A regular file is a size and a byte at every position, zero from the end on. Positional writes,
truncation and extension are total functions; a write beyond the end leaves a hole of zeros.

* `ByteFile.ext_of_lt`: files of one size with the same bytes below it are equal.
* `ByteFile.byte_write_of_mem`, `ByteFile.size_write`, and the same for `truncate` and `extend`.
* `ByteFile.take_toList_add`: the bytes of a file in order, part after part.
-/

namespace Aura.Lib

/-- A file with bytes in `β`. -/
structure ByteFile (β : Type*) [Zero β] where
  size : ℕ
  byte : ℕ → β
  /-- Nothing is kept beyond the end. -/
  beyond : ∀ p, size ≤ p → byte p = 0

namespace ByteFile

variable {β : Type*} [Zero β] {f g : ByteFile β} {data : ℕ → β} {off len n p : ℕ}

/-- Only the bytes below the size count. -/
theorem ext_of_lt (hsize : f.size = g.size) (hbyte : ∀ p < f.size, f.byte p = g.byte p) :
    f = g := by
  obtain ⟨m, byte, hbeyond⟩ := f
  obtain ⟨n, byte', hbeyond'⟩ := g
  obtain rfl : m = n := hsize
  have heq : byte = byte' := by
    funext p
    rcases Nat.lt_or_ge p m with hp | hp
    · exact hbyte p hp
    · rw [hbeyond p hp, hbeyond' p hp]
  subst heq
  rfl

/-- A file without bytes. -/
def empty : ByteFile β where
  size := 0
  byte := fun _ => 0
  beyond := fun _ _ => rfl

instance : Inhabited (ByteFile β) := ⟨empty⟩

/-- The first `len` bytes of `data` at `off`. -/
def write (f : ByteFile β) (off : ℕ) (data : ℕ → β) (len : ℕ) : ByteFile β where
  size := if len = 0 then f.size else max f.size (off + len)
  byte p := if off ≤ p ∧ p < off + len then data (p - off) else f.byte p
  beyond p hp := by
    split_ifs at hp with hlen
    · rw [if_neg (by omega)]
      exact f.beyond p hp
    · rw [if_neg (by omega)]
      exact f.beyond p (by omega)

/-- Cut to `n` bytes, or filled up with zeros to them. -/
def truncate (f : ByteFile β) (n : ℕ) : ByteFile β where
  size := n
  byte p := if p < n then f.byte p else 0
  beyond p hp := if_neg (by omega)

/-- Filled up with zeros to `n` bytes, never cut. -/
def extend (f : ByteFile β) (n : ℕ) : ByteFile β where
  size := max f.size n
  byte := f.byte
  beyond p hp := f.beyond p (by omega)

theorem byte_write_of_mem (hle : off ≤ p) (hlt : p < off + len) :
    (f.write off data len).byte p = data (p - off) := if_pos ⟨hle, hlt⟩

theorem byte_write_of_not_mem (h : ¬ (off ≤ p ∧ p < off + len)) :
    (f.write off data len).byte p = f.byte p := if_neg h

theorem size_write (hlen : len ≠ 0) :
    (f.write off data len).size = max f.size (off + len) := if_neg hlen

theorem byte_truncate (hp : p < n) : (f.truncate n).byte p = f.byte p := if_pos hp

@[simp] theorem size_truncate : (f.truncate n).size = n := rfl

@[simp] theorem byte_extend : (f.extend n).byte p = f.byte p := rfl

@[simp] theorem size_extend : (f.extend n).size = max f.size n := rfl

/-- The bytes of a file in order. -/
def toList (f : ByteFile β) : List β := (List.range f.size).map f.byte

/-- A longer part of a file is a shorter one and the bytes that follow it. -/
theorem take_toList_add (h : off + len ≤ f.size) :
    f.toList.take (off + len) =
      f.toList.take off ++ (List.range len).map fun p => f.byte (off + p) := by
  unfold toList
  rw [← List.map_take, ← List.map_take, List.take_range, List.take_range, Nat.min_eq_left h,
    Nat.min_eq_left (by omega), List.range_add, List.map_append, List.map_map]
  rfl

theorem take_toList_size : f.toList.take f.size = f.toList := by
  have hlen : f.toList.length = f.size := (List.length_map _).trans List.length_range
  exact List.take_of_length_le (Nat.le_of_eq hlen)

end ByteFile

end Aura.Lib
