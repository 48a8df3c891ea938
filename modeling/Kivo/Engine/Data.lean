import Kivo.Clib.Memory

/-!
# Binary keys and values

`kv_data_t` is a pointer with a length.  The engines copy keys and values, so
what matters of them is their bytes.  Two functions look at the bytes: the
comparison that the array, the hash table, the red-black tree and the skip
list share, and the hash of the hash table.
-/

namespace Kivo.Engine.Data

open Kivo.Clib.Memory

/-! ## Comparison -/

/-- The sign of `memcmp` over the length of the shorter argument. -/
def memcmp : Bytes → Bytes → Ordering
  | left :: lefts, right :: rights =>
      if left < right then .lt
      else if right < left then .gt
      else memcmp lefts rights
  | _, _ => .eq

/-- The sign of `kv_data_compare`; `kv_data_compare_safe` agrees with it. -/
def kvDataCompare (left right : Bytes) : Ordering :=
  match memcmp left right with
  | .eq => compare left.length right.length
  | order => order

@[simp]
theorem kvDataCompare_nil_nil : kvDataCompare [] [] = .eq :=
  rfl

@[simp]
theorem kvDataCompare_nil_cons (byte : UInt8) (rest : Bytes) :
    kvDataCompare [] (byte :: rest) = .lt := by
  simp [kvDataCompare, memcmp, Nat.compare_eq_lt]

@[simp]
theorem kvDataCompare_cons_nil (byte : UInt8) (rest : Bytes) :
    kvDataCompare (byte :: rest) [] = .gt := by
  simp [kvDataCompare, memcmp, Nat.compare_eq_gt]

theorem kvDataCompare_cons_cons (left right : UInt8) (lefts rights : Bytes) :
    kvDataCompare (left :: lefts) (right :: rights) =
      if left < right then .lt
      else if right < left then .gt
      else kvDataCompare lefts rights := by
  rw [kvDataCompare, memcmp]
  split_ifs with below above
  · rfl
  · rfl
  · have lengths : compare (left :: lefts).length (right :: rights).length =
        compare lefts.length rights.length := by
      simp only [List.length_cons, Nat.compare_eq_ite_lt]
      split_ifs <;> first | rfl | omega
    rw [lengths]
    rfl

@[simp]
theorem kvDataCompare_self (key : Bytes) : kvDataCompare key key = .eq := by
  induction key with
  | nil => rfl
  | cons byte rest induction =>
      rw [kvDataCompare_cons_cons, if_neg (UInt8.lt_irrefl byte),
        if_neg (UInt8.lt_irrefl byte), induction]

theorem eq_of_kvDataCompare_eq {left right : Bytes}
    (equal : kvDataCompare left right = .eq) :
    left = right := by
  induction left generalizing right with
  | nil =>
      cases right with
      | nil => rfl
      | cons byte rest => simp at equal
  | cons byte rest induction =>
      cases right with
      | nil => simp at equal
      | cons byte' rest' =>
          rw [kvDataCompare_cons_cons] at equal
          split_ifs at equal with below above
          have bytes : byte = byte' :=
            UInt8.le_antisymm (UInt8.not_lt.mp above) (UInt8.not_lt.mp below)
          rw [bytes, induction equal]

@[simp]
theorem kvDataCompare_eq_iff {left right : Bytes} :
    kvDataCompare left right = .eq ↔ left = right :=
  ⟨eq_of_kvDataCompare_eq, fun equal => by rw [equal, kvDataCompare_self]⟩

theorem kvDataCompare_swap (left right : Bytes) :
    (kvDataCompare left right).swap = kvDataCompare right left := by
  induction left generalizing right with
  | nil => cases right <;> simp
  | cons byte rest induction =>
      cases right with
      | nil => simp
      | cons byte' rest' =>
          rw [kvDataCompare_cons_cons, kvDataCompare_cons_cons]
          split_ifs with below above
          · exact absurd above (UInt8.lt_asymm below)
          · rfl
          · rfl
          · exact induction rest'

theorem kvDataCompare_gt_iff {left right : Bytes} :
    kvDataCompare left right = .gt ↔ kvDataCompare right left = .lt := by
  rw [← kvDataCompare_swap right left, Ordering.swap_eq_gt]

theorem kvDataCompare_lt_trans {first second third : Bytes}
    (below : kvDataCompare first second = .lt)
    (above : kvDataCompare second third = .lt) :
    kvDataCompare first third = .lt := by
  induction first generalizing second third with
  | nil =>
      cases third with
      | nil => cases second <;> simp at above
      | cons byte rest => simp
  | cons byte rest induction =>
      cases second with
      | nil => simp at below
      | cons byte' rest' =>
          cases third with
          | nil => simp at above
          | cons byte'' rest'' =>
              rw [kvDataCompare_cons_cons] at below above ⊢
              simp only [UInt8.lt_iff_toNat_lt] at below above ⊢
              split_ifs at below above ⊢ <;>
                first
                | rfl
                | omega
                | exact induction below above

theorem kvDataCompare_lt_irrefl (key : Bytes) :
    kvDataCompare key key ≠ .lt := by
  simp

instance : Std.LawfulEqCmp kvDataCompare where
  compare_self := kvDataCompare_self _
  eq_of_compare := eq_of_kvDataCompare_eq

instance : Std.TransCmp kvDataCompare where
  eq_swap := (kvDataCompare_swap _ _).symm
  isLE_trans := by
    intro first second third below above
    rw [Ordering.isLE_iff_eq_lt_or_eq_eq] at below above ⊢
    rcases below with below | below
    · rcases above with above | above
      · exact Or.inl (kvDataCompare_lt_trans below above)
      · rw [← kvDataCompare_eq_iff.mp above]
        exact Or.inl below
    · rw [kvDataCompare_eq_iff.mp below]
      exact above

/-! ## Entries -/

/-- What a node of an ordered engine stores. -/
structure Entry where
  key : Bytes
  value : Bytes
  expireTime : Int
deriving DecidableEq, Repr

/-- The test for an entry whose time has passed. -/
abbrev Expired (enableTtl : Bool) (now expireTime : Int) : Prop :=
  enableTtl ∧ 0 < expireTime ∧ expireTime < now

/-! ## The hash -/

/-- Little-endian load of at most eight bytes. -/
def loadLe (bytes : Bytes) : UInt64 :=
  bytes.foldr (fun byte value => value <<< 8 ||| byte.toUInt64) 0

/-- The finaliser of the short path. -/
def mixShort (start : UInt64) : UInt64 :=
  let h := start ^^^ (start >>> 33)
  let h := h * 0xff51afd7ed558ccd
  let h := h ^^^ (h >>> 33)
  let h := h * 0xc4ceb9fe1a85ec53
  h ^^^ (h >>> 33)

/-- The block loop of the long path over the remaining whole blocks. -/
def mixBlocks (m : UInt64) : Nat → Bytes → UInt64 → UInt64
  | 0, _, h => h
  | blocks + 1, rest, h =>
      let k := loadLe (rest.take 8) * m
      let k := (k ^^^ (k >>> 47)) * m
      mixBlocks m blocks (rest.drop 8) ((h ^^^ k) * m)

/-- `kv_hash_short`. -/
def kvHashShort (key : Bytes) : UInt64 :=
  let len := key.length
  if len ≤ 16 then
    if len ≤ 8 then mixShort (loadLe key * 0x9e3779b97f4a7c15)
    else
      mixShort
        ((loadLe (key.take 8) * 0x9e3779b97f4a7c15) ^^^
          (loadLe (key.drop (len - 8)) * 0x85ebca6b3a6b3f4e))
  else
    let m : UInt64 := 0xc6a4a7935bd1e995
    let start := 0x9e3779b97f4a7c15 ^^^ (UInt64.ofNat len * m)
    let h := mixBlocks m (len / 8) key start
    let tail := key.drop (len / 8 * 8)
    let h := if tail.length = 0 then h else (h ^^^ loadLe tail) * m
    let h := (h ^^^ (h >>> 47)) * m
    h ^^^ (h >>> 47)

/-- `kv_data_hash_calc`: a cached hash of zero counts as not computed. -/
def kvDataHashCalc (key : Bytes) (hashCache : UInt64) : UInt64 :=
  if hashCache ≠ 0 then hashCache else kvHashShort key

/-- `kv_data_hash` for a key with a data pointer and a positive size. -/
def kvDataHash (key : Bytes) (hashCache : UInt64) (size : Nat) : Nat :=
  (kvDataHashCalc key hashCache).toNat &&& (size - 1)

theorem kvDataHash_lt (key : Bytes) (hashCache : UInt64) {size : Nat}
    (positive : 0 < size) :
    kvDataHash key hashCache size < size := by
  have limit := @Nat.and_le_right (kvDataHashCalc key hashCache).toNat (size - 1)
  rw [kvDataHash]
  omega

end Kivo.Engine.Data
