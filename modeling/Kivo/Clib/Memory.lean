import Mathlib.Data.List.Basic
import Mathlib.Data.List.GetD
import Mathlib.Data.List.TakeWhile
import Mathlib.Tactic

/-!
# Flat byte memory and fixed-width integers

A C program that scans a buffer through raw pointers may look at any byte of
the allocation that holds the buffer: bytes in front of the window it was
handed, and bytes behind it.  Memory is therefore a finite list of bytes, an
address is an integer index into it, and a read outside the list yields the
zero byte.

The two integer conversions are those of a platform with 32-bit `int` and
64-bit `long`: a value is reduced to the representative of its residue class
in the signed range.
-/

namespace Kivo.Clib.Memory

/-- A byte string, and also the content of an allocation. -/
abbrev Bytes := List UInt8

instance : LawfulBEq Bytes := inferInstance

/-- The byte stored at an address; addresses outside the memory read as zero. -/
def byteAt (mem : Bytes) (address : Int) : UInt8 :=
  if 0 ≤ address then mem.getD address.toNat 0 else 0

/-- The bytes from an address to the end of the memory. -/
def bytesFrom (mem : Bytes) (address : Int) : Bytes :=
  mem.drop address.toNat

/-- The `length` bytes that start at an address. -/
def slice (mem : Bytes) (address length : Int) : Bytes :=
  (bytesFrom mem address).take length.toNat

/-- The bytes of a plain ASCII string literal. -/
def ascii (text : String) : Bytes :=
  text.toList.map (fun char => UInt8.ofNat char.toNat)

/-- The bytes of a NUL-terminated string, without the terminator. -/
def cString (text : Bytes) : Bytes :=
  text.takeWhile (fun byte => byte ≠ 0)

/-- Conversion to a 32-bit signed integer. -/
def toInt32 (value : Int) : Int :=
  value.bmod (2 ^ 32)

/-- Conversion to a 64-bit signed integer. -/
def toInt64 (value : Int) : Int :=
  value.bmod (2 ^ 64)

theorem toInt32_of_range {value : Int}
    (lower : -2 ^ 31 ≤ value) (upper : value < 2 ^ 31) :
    toInt32 value = value := by
  apply Int.bmod_eq_of_le_mul_two
  · push_cast
    omega
  · push_cast
    omega

theorem toInt64_of_range {value : Int}
    (lower : -2 ^ 63 ≤ value) (upper : value < 2 ^ 63) :
    toInt64 value = value := by
  apply Int.bmod_eq_of_le_mul_two
  · push_cast
    omega
  · push_cast
    omega

theorem toInt32_bounds (value : Int) :
    -2 ^ 31 ≤ toInt32 value ∧ toInt32 value < 2 ^ 31 := by
  have lower := Int.le_bmod (x := value) (m := 2 ^ 32) (by decide)
  have upper := Int.bmod_lt (x := value) (m := 2 ^ 32) (by decide)
  unfold toInt32
  push_cast at lower upper ⊢
  omega

theorem toInt64_bounds (value : Int) :
    -2 ^ 63 ≤ toInt64 value ∧ toInt64 value < 2 ^ 63 := by
  have lower := Int.le_bmod (x := value) (m := 2 ^ 64) (by decide)
  have upper := Int.bmod_lt (x := value) (m := 2 ^ 64) (by decide)
  unfold toInt64
  push_cast at lower upper ⊢
  omega

/-- A counter of 32 bits is the conversion of the number it counts. -/
theorem toInt32_add (value step : Int) :
    toInt32 (toInt32 value + step) = toInt32 (value + step) :=
  Int.bmod_add_bmod

/-- The conversion keeps the lower half, with the sign of its highest bit. -/
theorem toInt32_cases (value : Int) :
    toInt32 value = value % 2 ^ 32 ∧ value % 2 ^ 32 < 2 ^ 31 ∨
      toInt32 value < 0 ∧ 2 ^ 31 ≤ value % 2 ^ 32 := by
  have below : value % 2 ^ 32 < 2 ^ 32 := Int.emod_lt_of_pos _ (by decide)
  rw [toInt32, Int.bmod_eq_emod]
  push_cast
  split_ifs with high
  · right
    omega
  · left
    omega

/-- The first values beyond the range become negative. -/
theorem toInt32_of_wrapped {value : Int}
    (lower : 2 ^ 31 ≤ value) (upper : value < 2 ^ 31 + 2 ^ 32) :
    toInt32 value = value - 2 ^ 32 := by
  have bounds := toInt32_bounds value
  obtain ⟨turns, same⟩ : ((2 ^ 32 : Nat) : Int) ∣ value - toInt32 value :=
    Int.dvd_self_sub_bmod
  push_cast at same
  omega

theorem cString_of_nulFree {text : Bytes} (nulFree : (0 : UInt8) ∉ text) :
    cString text = text := by
  rw [cString, List.takeWhile_eq_self_iff]
  intro byte member
  have nonzero : byte ≠ 0 := fun zero => nulFree (zero ▸ member)
  simpa using nonzero

/-! ## Reading a memory that is given in pieces -/

theorem byteAt_append (before after : Bytes) (offset : Nat) :
    byteAt (before ++ after) (before.length + offset) =
      after.getD offset 0 := by
  have nonnegative : (0 : Int) ≤ before.length + offset := by omega
  have index : ((before.length : Int) + offset).toNat =
      before.length + offset := by omega
  rw [byteAt, if_pos nonnegative, index,
    List.getD_append_right _ _ _ _ (by omega)]
  congr 1
  omega

theorem bytesFrom_append (before after : Bytes) (offset : Nat) :
    bytesFrom (before ++ after) (before.length + offset) =
      after.drop offset := by
  have index : ((before.length : Int) + offset).toNat =
      before.length + offset := by omega
  rw [bytesFrom, index, List.drop_append]
  simp

/-- A nonzero byte was read inside the memory. -/
theorem byteAt_ne_zero_bounds {mem : Bytes} {address : Int}
    (nonzero : byteAt mem address ≠ 0) :
    0 ≤ address ∧ address < mem.length := by
  rw [byteAt] at nonzero
  split_ifs at nonzero with nonnegative
  · refine ⟨nonnegative, ?_⟩
    by_contra outside
    have beyond : mem.length ≤ address.toNat := by omega
    rw [List.getD_eq_getElem?_getD,
      List.getElem?_eq_none beyond] at nonzero
    exact nonzero rfl
  · exact (nonzero rfl).elim

/-! ## Texts stored at an address -/

/-- The memory holds `text` from `address` on. -/
def Holds (mem : Bytes) (address : Int) (text : Bytes) : Prop :=
  0 ≤ address ∧ text <+: bytesFrom mem address

theorem Holds.of_append (before text after : Bytes) :
    Holds (before ++ (text ++ after)) before.length text := by
  refine ⟨by omega, ?_⟩
  have view := bytesFrom_append before (text ++ after) 0
  simp only [Nat.cast_zero, add_zero, List.drop_zero] at view
  rw [view]
  exact List.prefix_append _ _

theorem holds_self (text : Bytes) : Holds text 0 text :=
  ⟨le_rfl, List.prefix_rfl⟩

theorem bytesFrom_add (mem : Bytes) {address : Int}
    (nonnegative : 0 ≤ address) (count : Nat) :
    bytesFrom mem (address + count) =
      (bytesFrom mem address).drop count := by
  have index : (address + count).toNat = address.toNat + count := by omega
  rw [bytesFrom, bytesFrom, index, List.drop_drop]

theorem byteAt_eq_head (mem : Bytes) {address : Int}
    (nonnegative : 0 ≤ address) :
    byteAt mem address = (bytesFrom mem address).headD 0 := by
  rw [byteAt, if_pos nonnegative, bytesFrom,
    List.getD_eq_getElem?_getD, List.headD_eq_head?_getD,
    List.head?_drop]

theorem Holds.cons {mem : Bytes} {address : Int} {byte : UInt8}
    {text : Bytes} (stored : Holds mem address (byte :: text)) :
    byteAt mem address = byte ∧ Holds mem (address + 1) text := by
  obtain ⟨nonnegative, rest, shape⟩ := stored
  refine ⟨?_, by omega, rest, ?_⟩
  · rw [byteAt_eq_head mem nonnegative, ← shape]
    rfl
  · have shifted := bytesFrom_add mem nonnegative 1
    rw [← shape] at shifted
    simpa using shifted.symm

theorem Holds.left {mem : Bytes} {address : Int} {first second : Bytes}
    (stored : Holds mem address (first ++ second)) :
    Holds mem address first :=
  ⟨stored.1, (List.prefix_append first second).trans stored.2⟩

theorem Holds.right {mem : Bytes} {address : Int} {first second : Bytes}
    (stored : Holds mem address (first ++ second)) :
    Holds mem (address + first.length) second := by
  obtain ⟨nonnegative, rest, shape⟩ := stored
  refine ⟨by omega, rest, ?_⟩
  rw [bytesFrom_add mem nonnegative, ← shape]
  simp

theorem Holds.byteAt {mem : Bytes} {address : Int} {text : Bytes}
    (stored : Holds mem address text) {index : Nat}
    (inside : index < text.length) :
    byteAt mem (address + index) = text.getD index 0 := by
  have split : text.take index ++ text.drop index = text :=
    List.take_append_drop index text
  rw [← split] at stored
  have behind := stored.right
  have lengthTake : (text.take index).length = index := by
    rw [List.length_take]
    omega
  rw [lengthTake, List.drop_eq_getElem_cons inside] at behind
  rw [behind.cons.1, List.getD_eq_getElem _ _ inside]

theorem Holds.slice {mem : Bytes} {address : Int} {text : Bytes}
    (stored : Holds mem address text) :
    slice mem address text.length = text := by
  obtain ⟨nonnegative, rest, shape⟩ := stored
  rw [Memory.slice, ← shape]
  simp

end Kivo.Clib.Memory
