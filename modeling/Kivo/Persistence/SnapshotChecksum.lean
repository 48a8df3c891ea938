import Kivo.Clib.Mixing
import Kivo.Persistence.Snapshot

/-!
# What the checksum of a snapshot detects

The checksum takes one byte after the other into a word of 64 bits, with an
exclusive or and a multiplication by an odd constant.  Both can be undone, so
no step forgets anything, and a file in which a single byte has changed, in the
records or in the checksum itself, is not loaded.
-/

namespace Kivo.Persistence.SnapshotChecksum

open Kivo.Clib.Memory
open Kivo.Clib.Mixing
open Kivo.Clib.Wire
open Kivo.Engine.SkipRuns (Level)
open Kivo.Engine.Store
open Kivo.Persistence.Snapshot

/-! ## The checksum -/

/-- One byte of `kvs_crc64`. -/
def crcStep (crc : UInt64) (byte : UInt8) : UInt64 :=
  (crc ^^^ byte.toUInt64) * 1099511628211

/-- The multiplication can be undone. -/
theorem prime_mul_inverse (word : UInt64) :
    word * 1099511628211 * 14886173955864302971 = word := by
  have one : (1099511628211 : UInt64) * 14886173955864302971 = 1 := by decide
  rw [UInt64.mul_assoc, one, UInt64.mul_one]

theorem mul_prime_injective :
    Function.Injective (fun word : UInt64 => word * 1099511628211) :=
  @Function.LeftInverse.injective _ _
    (fun word => word * 14886173955864302971) _ prime_mul_inverse

theorem crcStep_mixes : Mixes crcStep where
  state := by
    intro byte crc crc' same
    exact (UInt64.xor_left_inj _).mp (mul_prime_injective same)
  letter := by
    intro crc byte byte' same
    have wide := (UInt64.xor_right_inj _).mp (mul_prime_injective same)
    exact UInt8.toUInt64_inj.mp wide

/-- A stream with one byte changed has another checksum. -/
theorem kvsCrc64_set_ne {stream : Bytes} {index : Nat} {byte : UInt8}
    (inside : index < stream.length) (changed : byte ≠ stream[index]) :
    kvsCrc64 0 (stream.set index byte) ≠ kvsCrc64 0 stream :=
  crcStep_mixes.foldl_set_ne _ inside changed

/-- Numbers of the same width have different bytes. -/
theorem leValue_injective {left right : Bytes}
    (same : left.length = right.length)
    (value : leValue left = leValue right) :
    left = right := by
  induction left generalizing right with
  | nil => exact (List.eq_nil_of_length_eq_zero same.symm).symm
  | cons byte rest induction =>
      cases right with
      | nil => cases same
      | cons byte' rest' =>
          have small := byte.toNat_lt
          have small' := byte'.toNat_lt
          rw [leValue, leValue] at value
          have bytes : byte.toNat = byte'.toNat := by omega
          have others : leValue rest = leValue rest' := by omega
          rw [UInt8.toNat_inj.mp bytes,
            induction (Nat.succ.inj same) others]

/-! ## Loading -/

/-- A file whose checksum does not fit is not loaded. -/
theorem kvsSnapshotLoad_mismatch (mapped : Bool) (draw : Nat → Level)
    (now : Int) {stream checksum : Bytes} (width : checksum.length = 8)
    (mismatch : (kvsCrc64 0 stream).toNat ≠ leValue checksum)
    (tables : Tables) :
    kvsSnapshotLoad mapped draw now (some (stream ++ checksum)) tables =
      (tables, -1) := by
  have length : (stream ++ checksum).length - 8 = stream.length := by
    rw [List.length_append, width, Nat.add_sub_cancel]
  have long : ¬ (stream ++ checksum).length < 8 := by
    rw [List.length_append, width]
    omega
  rw [kvsSnapshotLoad]
  dsimp only
  rw [if_neg long, length, List.take_left' rfl, List.drop_left' rfl,
    if_pos mismatch]
  split_ifs <;> rfl

/-- The checksum in the file is the one that was written. -/
theorem leValue_checksum (crc : UInt64) :
    leValue (leBytes 8 crc.toNat) = crc.toNat := by
  rw [leValue_leBytes]
  exact Nat.mod_eq_of_lt crc.toNat_lt

/-- No file in which a single byte has changed is loaded. -/
theorem corrupted_not_loaded (mapped : Bool) (draw : Nat → Level) (now : Int)
    (stream : Bytes) {index : Nat} {byte : UInt8}
    (inside : index < (sealed stream).length)
    (changed : byte ≠ (sealed stream)[index]) (tables : Tables) :
    kvsSnapshotLoad mapped draw now (some ((sealed stream).set index byte))
        tables =
      (tables, -1) := by
  have width := leBytes_length 8 (kvsCrc64 0 stream).toNat
  have length : (sealed stream).length = stream.length + 8 := by
    rw [sealed, List.length_append, width]
  by_cases body : index < stream.length
  · have there : (sealed stream)[index] = stream[index] :=
      List.getElem_append_left body
    have split : (sealed stream).set index byte =
        stream.set index byte ++ leBytes 8 (kvsCrc64 0 stream).toNat := by
      rw [sealed, List.set_append_left _ _ body]
    rw [split]
    apply kvsSnapshotLoad_mismatch mapped draw now width
    rw [leValue_checksum]
    rw [there] at changed
    exact fun same =>
      kvsCrc64_set_ne body changed (UInt64.toNat_inj.mp same)
  · have there : (sealed stream)[index] =
        (leBytes 8 (kvsCrc64 0 stream).toNat)[index - stream.length] :=
      List.getElem_append_right (Nat.le_of_not_lt body)
    have split : (sealed stream).set index byte =
        stream ++ (leBytes 8 (kvsCrc64 0 stream).toNat).set
          (index - stream.length) byte := by
      rw [sealed, List.set_append_right _ _ (Nat.le_of_not_lt body)]
    rw [split]
    apply kvsSnapshotLoad_mismatch mapped draw now
    · rw [List.length_set, width]
    · intro same
      have bytes := leValue_injective List.length_set.symm
        ((leValue_checksum (kvsCrc64 0 stream)).trans same)
      rw [there] at changed
      apply changed
      have here := congrArg (fun bytes => bytes[index - stream.length]?) bytes
      rw [List.getElem?_set_self (by omega),
        List.getElem?_eq_getElem (by omega)] at here
      exact (Option.some.inj here).symm

/-- A snapshot of a key in the tree and one in a hash table. -/
def twoRecords : Bytes :=
  recordsBytes
    [{ table := .rbtree
       entry := { key := ascii "a", value := ascii "b", expireTime := 0 } },
      { table := .hash .hash1
        entry := { key := ascii "c", value := ascii "d", expireTime := 9 } }]

/-- Tables in which the key of the tree has another value. -/
def oldTables : Tables :=
  Tables.create.set 0 .rbtree
    { key := ascii "a", value := ascii "old", expireTime := 0 }

/-- The whole file replaces the value of a key; with one bit of that value
flipped nothing is loaded. -/
theorem corrupted_not_loaded_value :
    (kvsSnapshotLoad true (fun _ => 0) 5 (some (sealed twoRecords))
        oldTables).1.entries .rbtree =
      [{ key := ascii "a", value := ascii "b", expireTime := 0 }] ∧
    kvsSnapshotLoad true (fun _ => 0) 5
        (some ((sealed twoRecords).set 21 99)) oldTables =
      (oldTables, -1) :=
  ⟨by decide +kernel,
    corrupted_not_loaded true (fun _ => 0) 5 twoRecords
      (by decide +kernel : 21 < (sealed twoRecords).length)
      (by decide +kernel) oldTables⟩

end Kivo.Persistence.SnapshotChecksum
