import Kivo.Clib.PaddedNumeral
import Kivo.Engine.SkipEngine

/-!
# Composite keys of the sorted set

A member of the sorted set is stored under its timestamp, padded to fifteen
digits, a colon and its id.  The reader of a key takes what stands behind the
sixteenth byte, and the skip list compares keys byte by byte.  Both are right
as long as the timestamp has no more than fifteen digits.
-/

namespace Kivo.Engine.TimeKeys

open Kivo.Clib.Memory
open Kivo.Clib.Numeral
open Kivo.Clib.PaddedNumeral
open Kivo.Engine.Data
open Kivo.Engine.SkipEngine

/-! ## Comparison in parts -/

/-- Fronts of the same length are compared first. -/
theorem kvDataCompare_append {left right : Bytes}
    (same : left.length = right.length) (lefts rights : Bytes) :
    kvDataCompare (left ++ lefts) (right ++ rights) =
      (kvDataCompare left right).then (kvDataCompare lefts rights) := by
  induction left generalizing right with
  | nil =>
      rw [List.eq_nil_of_length_eq_zero same.symm]
      rfl
  | cons byte rest induction =>
      cases right with
      | nil => cases same
      | cons byte' rest' =>
          rw [List.cons_append, List.cons_append, kvDataCompare_cons_cons,
            kvDataCompare_cons_cons]
          split_ifs with below above
          · rfl
          · rfl
          · exact induction (Nat.succ.inj same)

/-- The part with the greater weight decides. -/
theorem compare_weighted {weight high high' low low' : Nat}
    (small : low < weight) (small' : low' < weight) :
    compare (high * weight + low) (high' * weight + low') =
      if high < high' then .lt
      else if high' < high then .gt
      else compare low low' := by
  split_ifs with below above
  · have step : (high + 1) * weight ≤ high' * weight :=
      Nat.mul_le_mul_right _ below
    rw [Nat.add_mul, Nat.one_mul] at step
    exact Nat.compare_eq_lt.mpr (by omega)
  · have step : (high' + 1) * weight ≤ high * weight :=
      Nat.mul_le_mul_right _ above
    rw [Nat.add_mul, Nat.one_mul] at step
    exact Nat.compare_eq_gt.mpr (by omega)
  · have same : high = high' := by omega
    subst same
    rw [Nat.compare_eq_ite_lt, Nat.compare_eq_ite_lt]
    split_ifs <;> first | rfl | omega

/-- A digit and the number it stands for. -/
theorem digit_lt_iff {left right : UInt8} (digit : isDigit left = true)
    (digit' : isDigit right = true) :
    left.toNat - 48 < right.toNat - 48 ↔ left < right := by
  simp only [isDigit, Bool.and_eq_true, decide_eq_true_eq,
    UInt8.le_iff_toNat_le] at digit digit'
  have lower : (48 : UInt8).toNat = 48 := rfl
  rw [UInt8.lt_iff_toNat_lt]
  omega

/-- Digits of the same number are compared by what they stand for. -/
theorem kvDataCompare_digits {left right : Bytes}
    (same : left.length = right.length)
    (digits : ∀ byte ∈ left, isDigit byte = true)
    (digits' : ∀ byte ∈ right, isDigit byte = true) :
    kvDataCompare left right =
      compare (digitsValue left) (digitsValue right) := by
  induction left generalizing right with
  | nil =>
      rw [List.eq_nil_of_length_eq_zero same.symm]
      rfl
  | cons byte rest induction =>
      cases right with
      | nil => cases same
      | cons byte' rest' =>
          have lengths : rest.length = rest'.length := Nat.succ.inj same
          have proper : ∀ other ∈ rest, isDigit other = true :=
            fun other member => digits other (List.mem_cons_of_mem _ member)
          have proper' : ∀ other ∈ rest', isDigit other = true :=
            fun other member => digits' other (List.mem_cons_of_mem _ member)
          have below := digitsValue_lt proper
          have below' := digitsValue_lt proper'
          rw [kvDataCompare_cons_cons, digitsValue_cons, digitsValue_cons,
            induction lengths proper proper']
          have order := digit_lt_iff (digits byte List.mem_cons_self)
            (digits' byte' List.mem_cons_self)
          have order' := digit_lt_iff (digits' byte' List.mem_cons_self)
            (digits byte List.mem_cons_self)
          rw [← lengths] at below' ⊢
          rw [compare_weighted below below']
          simp only [order, order']

/-! ## Timestamps -/

/-- The stamp of a key is the padded timestamp and a colon. -/
theorem zsetStamp_eq (ts : Int) :
    zsetStamp ts = padded 15 ts.toNat ++ [58] :=
  rfl

theorem padded_length_ge (width number : Nat) :
    width ≤ (padded width number).length := by
  rw [padded, List.length_append, List.length_replicate]
  omega

/-- What `zset_make_key` writes. -/
theorem zsetMakeKey_some {ts : Int} {id key : Bytes}
    (made : zsetMakeKey ts id = some key) :
    key = padded 15 ts.toNat ++ 58 :: id := by
  rw [zsetMakeKey, zsetStamp_eq] at made
  split_ifs at made with long
  rw [← Option.some.inj made, List.append_assoc, List.singleton_append]

/-- The id is found behind the sixteenth byte exactly when the timestamp has
fifteen digits. -/
theorem zsetExtractId_iff {ts : Int} {id key : Bytes}
    (made : zsetMakeKey ts id = some key) :
    zsetExtractId key = some id ↔ ts < 10 ^ 15 := by
  rw [zsetMakeKey_some made]
  have least := padded_length_ge 15 ts.toNat
  have long : ¬ (padded 15 ts.toNat ++ 58 :: id).length < 16 := by
    rw [List.length_append, List.length_cons]
    omega
  rw [zsetExtractId, if_neg long, Option.some_inj]
  constructor
  · intro found
    by_contra wide
    have lengths := congrArg List.length found
    have wider := @padded_length_gt 15 ts.toNat (by decide) (by omega)
    rw [List.length_drop, List.length_append, List.length_cons] at lengths
    omega
  · intro narrow
    have width := @padded_length 15 ts.toNat (by decide) (by omega)
    rw [List.drop_append, List.drop_eq_nil_of_le (by omega), width]
    rfl

/-- Keys with timestamps of fifteen digits are in the order of the timestamps,
and keys with the same timestamp in the order of the ids. -/
theorem kvDataCompare_stamps {ts ts' : Int} (id id' : Bytes)
    (positive : 0 < ts) (positive' : 0 < ts')
    (narrow : ts < 10 ^ 15) (narrow' : ts' < 10 ^ 15) :
    kvDataCompare (padded 15 ts.toNat ++ 58 :: id)
        (padded 15 ts'.toNat ++ 58 :: id') =
      (compare ts ts').then (kvDataCompare id id') := by
  have width := @padded_length 15 ts.toNat (by decide) (by omega)
  have width' := @padded_length 15 ts'.toNat (by decide) (by omega)
  have same := width.trans width'.symm
  have times : compare ts.toNat ts'.toNat = compare ts ts' := by
    rw [Nat.compare_eq_ite_lt, Int.compare_eq_ite_lt]
    split_ifs <;> first | rfl | omega
  rw [kvDataCompare_append same,
    kvDataCompare_digits same (fun _ => isDigit_of_mem_padded)
      (fun _ => isDigit_of_mem_padded),
    digitsValue_padded, digitsValue_padded, times, kvDataCompare_cons_cons,
    if_neg (UInt8.lt_irrefl 58), if_neg (UInt8.lt_irrefl 58)]

/-! ## Two keys -/

/-- The ids come back, and the keys are in the order of their timestamps and
then of their ids. -/
structure Faithful (ts ts' : Int) (id id' key key' : Bytes) : Prop where
  extracted : zsetExtractId key = some id
  extracted' : zsetExtractId key' = some id'
  order : kvDataCompare key key' = (compare ts ts').then (kvDataCompare id id')
  distinct : key = key' → ts = ts' ∧ id = id'

/-- Composite keys stand for their timestamps and ids exactly when both
timestamps have at most fifteen digits. -/
theorem zsetKeys_faithful_iff {ts ts' : Int} {id id' key key' : Bytes}
    (positive : 0 < ts) (positive' : 0 < ts')
    (made : zsetMakeKey ts id = some key)
    (made' : zsetMakeKey ts' id' = some key') :
    Faithful ts ts' id id' key key' ↔ ts < 10 ^ 15 ∧ ts' < 10 ^ 15 := by
  constructor
  · intro faithful
    exact ⟨(zsetExtractId_iff made).mp faithful.extracted,
      (zsetExtractId_iff made').mp faithful.extracted'⟩
  · rintro ⟨narrow, narrow'⟩
    have order := kvDataCompare_stamps id id' positive positive' narrow
      narrow'
    rw [← zsetMakeKey_some made, ← zsetMakeKey_some made'] at order
    refine
      { extracted := (zsetExtractId_iff made).mpr narrow
        extracted' := (zsetExtractId_iff made').mpr narrow'
        order := order
        distinct := ?_ }
    intro same
    rw [same, kvDataCompare_self] at order
    obtain ⟨times, ids⟩ := Ordering.then_eq_eq.mp order.symm
    exact ⟨Int.compare_eq_eq.mp times, kvDataCompare_eq_iff.mp ids⟩

/-- Two members of the year 2026. -/
theorem zsetKeys_faithful_thirteen :
    Faithful 1767225600000 1767225600001 (ascii "b") (ascii "a")
      (ascii "001767225600000:b") (ascii "001767225600001:a") :=
  (zsetKeys_faithful_iff (by decide) (by decide) (by decide +kernel)
    (by decide +kernel)).mpr (by decide)

/-- A timestamp of sixteen digits moves the colon, and its key is below that of
an earlier timestamp. -/
theorem zsetKeys_unfaithful :
    zsetMakeKey 1000000000000000 (ascii "a") =
        some (ascii "1000000000000000:a") ∧
      zsetMakeKey 200000000000000 (ascii "a") =
        some (ascii "200000000000000:a") ∧
      zsetExtractId (ascii "1000000000000000:a") = some (ascii ":a") ∧
      kvDataCompare (ascii "1000000000000000:a")
        (ascii "200000000000000:a") = .lt := by
  decide +kernel

end Kivo.Engine.TimeKeys
