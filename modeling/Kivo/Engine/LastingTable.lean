import Kivo.Clib.Separated
import Kivo.Engine.Maps

/-!
# Hash tables whose entries never expire

The tables of records and of id lists are written with the expiry time zero
only.  Such a table is a map from keys to values: a search finds the value
whatever the clock shows and deletes nothing, and a write either puts the value
in its place or is refused and leaves the table alone.
-/

namespace Kivo.Engine.LastingTable

open Kivo.Clib.Memory
open Kivo.Clib.Separated
open Kivo.Engine.Data
open Kivo.Engine.KeyMap
open Kivo.Engine.HashEngine
open Kivo.Engine.HashTable (HashOk entries nodes slotLimit)

/-- An entry that never expires. -/
def lasting (value : Bytes) : Item :=
  { value := value, expireTime := 0 }

/-- The table holds these values, and none of them expires. -/
structure Lasting (hash : KvsHash) (values : Bytes → Option Bytes) :
    Prop where
  ok : HashOk hash
  held : contents (entries hash) = fun key => (values key).map lasting

theorem lasting_create : Lasting kvsHashCreate (fun _ => none) :=
  ⟨HashTable.hashOk_create, rfl⟩

variable {hash : KvsHash} {values : Bytes → Option Bytes}

/-- A search finds the value and changes nothing. -/
theorem Lasting.get (table : Lasting hash values) (enableTtl : Bool)
    (now : Int) (key : Bytes) :
    kvsHashGet enableTtl now hash key 0 = (hash, values key) := by
  have search := HashTable.hashFind_contents table.ok
    (Or.inl rfl : HashTable.CacheOk key 0)
  rw [table.held] at search
  rw [kvsHashGet]
  cases found : hashFind hash key 0 with
  | none =>
      rw [found, Option.map_none, eq_comm, Option.map_eq_none_iff] at search
      rw [search]
  | some node =>
      rw [found, Option.map_some, eq_comm, Option.map_eq_some_iff] at search
      obtain ⟨value, held, same⟩ := search
      have time : node.expireTime = 0 :=
        (congrArg Item.expireTime same).symm
      have text : node.value = value := (congrArg Item.value same).symm
      dsimp only
      rw [if_neg (by omega), held, text]

/-- What a write can come to. -/
def Written (key value : Bytes) (hash : KvsHash)
    (values : Bytes → Option Bytes) (result : KvsHash × Int) : Prop :=
  result = (hash, -1) ∨
    result.2 = 0 ∧ Lasting result.1 (Function.update values key (some value))

/-- A write puts the value in its place, or is refused. -/
theorem Lasting.set (table : Lasting hash values) (key value : Bytes) :
    Written key value hash values (kvsHashSet hash key 0 value 0) := by
  by_cases room : (nodes hash).length < slotLimit
  · right
    obtain ⟨after, held, status⟩ := HashTable.kvsHashSet_contents table.ok room
      (Or.inl rfl : HashTable.CacheOk key 0) value 0
    refine ⟨status, after, ?_⟩
    rw [held, table.held]
    funext other
    by_cases same : other = key
    · rw [same, Function.update_self]
      exact if_pos rfl
    · rw [Function.update_of_ne same]
      exact if_neg same
  · left
    exact HashTable.kvsHashSet_full table.ok
      (Nat.le_antisymm (table.ok.load.trans table.ok.most)
        (Nat.le_of_not_lt room)) key 0 value 0

/-- A table with few keys refuses no write. -/
theorem Lasting.accepts (table : Lasting hash values) {keys : Finset Bytes}
    (within : ∀ key, values key ≠ none → key ∈ keys)
    (few : keys.card < slotLimit) (key value : Bytes) :
    (kvsHashSet hash key 0 value 0).2 = 0 := by
  have held : ∀ other, contents (entries hash) other ≠ none →
      other ∈ keys := by
    intro other present
    rw [table.held, ne_eq, Option.map_eq_none_iff] at present
    exact within other present
  have size := size_le_card held
  rw [contents_size table.ok.distinct_entries, entries,
    List.length_map] at size
  exact (HashTable.kvsHashSet_contents table.ok (size.trans_lt few)
    (Or.inl rfl : HashTable.CacheOk key 0) value 0).2.2

/-! ## Lists of ids -/

/-- The pieces between commas are the parts of the text. -/
theorem splitComma_eq (text : Bytes) : splitComma text = pieces 44 text := by
  induction text with
  | nil => rfl
  | cons byte rest induction =>
      rw [splitComma, pieces, induction]
      split_ifs
      · rfl
      · cases pieces 44 rest <;> rfl

/-- The text that an addition writes. -/
def appended (old id : Bytes) : Bytes :=
  if old = [] then id else old ++ 44 :: id

theorem Lasting.append_eq (table : Lasting hash values) (enableTtl : Bool)
    (now : Int) (key : Bytes) {id : Bytes} (proper : id ≠ []) :
    kvsHashAppend enableTtl now hash key 0 id =
      if (values key).getD [] ≠ [] ∧ id ∈ pieces 44 ((values key).getD []) then
        (hash, 0)
      else kvsHashSet hash key 0 (appended ((values key).getD []) id) 0 := by
  have nonempty : ¬ id.length = 0 := by simpa using proper
  rw [kvsHashAppend, if_neg nonempty, table.get, appended]
  dsimp only
  generalize (values key).getD [] = old
  by_cases fresh : old = []
  · rw [if_pos (by simpa using fresh), if_neg (fun both => both.1 fresh),
      if_pos fresh]
  · rw [if_neg (by simpa using fresh), if_neg fresh, splitComma_eq]
    by_cases listed : id ∈ pieces 44 old
    · rw [if_pos listed, if_pos ⟨fresh, listed⟩]
    · rw [if_neg listed, if_neg (fun both => listed both.2),
        List.append_assoc]
      rfl

/-- An id that is listed is left alone, and any other is written behind the
list. -/
theorem Lasting.append (table : Lasting hash values) (enableTtl : Bool)
    (now : Int) (key : Bytes) {id : Bytes} (proper : id ≠ []) :
    (values key).getD [] ≠ [] ∧ id ∈ pieces 44 ((values key).getD []) ∧
        kvsHashAppend enableTtl now hash key 0 id = (hash, 0) ∨
      ¬ ((values key).getD [] ≠ [] ∧
          id ∈ pieces 44 ((values key).getD [])) ∧
        Written key (appended ((values key).getD []) id) hash values
          (kvsHashAppend enableTtl now hash key 0 id) := by
  rw [table.append_eq enableTtl now key proper]
  by_cases listed : (values key).getD [] ≠ [] ∧
      id ∈ pieces 44 ((values key).getD [])
  · left
    exact ⟨listed.1, listed.2, if_pos listed⟩
  · right
    rw [if_neg listed]
    exact ⟨listed, table.set key _⟩

/-- An empty id is refused. -/
theorem kvsHashAppend_empty (enableTtl : Bool) (now : Int) (hash : KvsHash)
    (key : Bytes) :
    kvsHashAppend enableTtl now hash key 0 [] = (hash, -1) :=
  if_pos rfl

end Kivo.Engine.LastingTable
