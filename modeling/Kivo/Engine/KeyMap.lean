import Kivo.Clib.Simulation
import Kivo.Clib.SortedList
import Kivo.Engine.Data
import Mathlib.Data.Set.Card

/-!
# What a storage engine is for

Every engine stands for a map from keys to values with an expiry time.  Its
calls are stated here on the map alone: setting and deleting touch one key, a
reading call first removes the entry it would read when the time of that entry
has passed, and the deletion of the expiry timer fires only at the entry with
the expected time.

The array engine stands for a map with a capacity.  Two engines keep their
entries in key order.  For them the same calls are
stated on the sorted list of entries, which carries out the map.
-/

namespace Kivo.Engine.KeyMap

open Kivo.Clib.Memory
open Kivo.Clib.SortedList
open Kivo.Clib.Simulation
open Kivo.Engine.Data

/-! ## Maps -/

/-- What is stored at a key. -/
structure Item where
  value : Bytes
  expireTime : Int
deriving DecidableEq, Repr

/-- The contents of an engine. -/
def Contents : Type :=
  Bytes → Option Item

/-- Nothing stored. -/
def Contents.empty : Contents :=
  fun _ => none

/-- Store an item at a key. -/
def Contents.set (map : Contents) (key : Bytes) (item : Item) : Contents :=
  fun other => if other = key then some item else map other

/-- Remove a key. -/
def Contents.erase (map : Contents) (key : Bytes) : Contents :=
  fun other => if other = key then none else map other

/-- The contents after a reading call has looked at a key. -/
def Contents.purge (enableTtl : Bool) (now : Int) (map : Contents)
    (key : Bytes) : Contents :=
  match map key with
  | none => map
  | some item =>
      if Expired enableTtl now item.expireTime then map.erase key else map

theorem purge_of_ne (enableTtl : Bool) (now : Int) (map : Contents)
    {key other : Bytes} (apart : other ≠ key) :
    map.purge enableTtl now key other = map other := by
  rw [Contents.purge]
  cases map key with
  | none => rfl
  | some stored =>
      dsimp only
      split_ifs
      · exact if_neg apart
      · rfl

/-- What a reading call reads. -/
theorem purge_self (enableTtl : Bool) (now : Int) (map : Contents)
    (key : Bytes) :
    map.purge enableTtl now key key =
      (map key).filter (fun stored =>
        ¬ Expired enableTtl now stored.expireTime) := by
  rw [Contents.purge]
  cases here : map key with
  | none => exact here
  | some stored =>
      dsimp only
      rw [Option.filter_some]
      by_cases late : Expired enableTtl now stored.expireTime
      · rw [if_pos late, decide_eq_false (not_not.mpr late)]
        exact if_pos rfl
      · rw [if_neg late, decide_eq_true late]
        exact here

/-! ## Calls -/

/-- The calls of an engine; a reading call comes with its clock reading. -/
inductive Operation where
  | set (key value : Bytes) (expireTime : Int)
  | mod (key value : Bytes) (expireTime : Int)
  | get (now : Int) (key : Bytes)
  | exist (now : Int) (key : Bytes)
  | del (key : Bytes)
  | delIfExpired (key : Bytes) (expectedExpire : Int)
deriving DecidableEq, Repr

/-- What a call returns: an `int`, or the value behind a pointer. -/
inductive Answer where
  | status (code : Int)
  | value (found : Option Bytes)
deriving DecidableEq, Repr

/-- A call on the map. -/
def Contents.step (enableTtl : Bool) (map : Contents) :
    Operation → Contents × Answer
  | .set key value expireTime =>
      (map.set key { value := value, expireTime := expireTime }, .status 0)
  | .mod key value expireTime =>
      (map.set key { value := value, expireTime := expireTime }, .status 0)
  | .get now key =>
      let after := map.purge enableTtl now key
      (after, .value ((after key).map Item.value))
  | .exist now key =>
      let after := map.purge enableTtl now key
      (after, .status (if (after key).isSome then 0 else 1))
  | .del key =>
      (map.erase key, .status (if (map key).isSome then 0 else 1))
  | .delIfExpired key expectedExpire =>
      if (map key).map Item.expireTime = some expectedExpire then
        (map.erase key, .status 1)
      else (map, .status 0)

/-- The key a call is about. -/
def Operation.key : Operation → Bytes
  | .set key _ _ => key
  | .mod key _ _ => key
  | .get _ key => key
  | .exist _ key => key
  | .del key => key
  | .delIfExpired key _ => key

/-- A call touches no key but its own. -/
theorem step_of_ne (enableTtl : Bool) (map : Contents)
    (operation : Operation) {other : Bytes} (apart : other ≠ operation.key) :
    (map.step enableTtl operation).1 other = map other := by
  cases operation with
  | set key value expireTime => exact if_neg apart
  | mod key value expireTime => exact if_neg apart
  | get now key => exact purge_of_ne enableTtl now map apart
  | exist now key => exact purge_of_ne enableTtl now map apart
  | del key => exact if_neg apart
  | delIfExpired key expectedExpire =>
      rw [Contents.step]
      split_ifs
      · exact if_neg apart
      · rfl

/-- A call sees nothing but its own key. -/
theorem step_congr (enableTtl : Bool) {map map' : Contents}
    {operation : Operation}
    (same : map operation.key = map' operation.key) :
    (map.step enableTtl operation).1 operation.key =
        (map'.step enableTtl operation).1 operation.key ∧
      (map.step enableTtl operation).2 =
        (map'.step enableTtl operation).2 := by
  have purged : ∀ now,
      map.purge enableTtl now operation.key operation.key =
        map'.purge enableTtl now operation.key operation.key := by
    intro now
    rw [purge_self, purge_self, same]
  cases operation with
  | set key value expireTime =>
      exact ⟨(if_pos rfl).trans (if_pos rfl).symm, rfl⟩
  | mod key value expireTime =>
      exact ⟨(if_pos rfl).trans (if_pos rfl).symm, rfl⟩
  | get now key =>
      exact ⟨purged now, congrArg
        (fun found => Answer.value (Option.map Item.value found))
        (purged now)⟩
  | exist now key =>
      exact ⟨purged now, congrArg
        (fun found => Answer.status (if Option.isSome found then 0 else 1))
        (purged now)⟩
  | del key =>
      exact ⟨(if_pos rfl).trans (if_pos rfl).symm,
        congrArg
          (fun found => Answer.status (if Option.isSome found then 0 else 1))
          same⟩
  | delIfExpired key expectedExpire =>
      have here : map key = map' key := same
      rw [Contents.step, Contents.step, here]
      split_ifs
      · exact ⟨(if_pos rfl).trans (if_pos rfl).symm, rfl⟩
      · exact ⟨same, rfl⟩

/-- A call on another key does not mind a missing key. -/
theorem step_erase (enableTtl : Bool) (map : Contents) {key : Bytes}
    {operation : Operation} (apart : operation.key ≠ key) :
    (map.erase key).step enableTtl operation =
      ((map.step enableTtl operation).1.erase key,
        (map.step enableTtl operation).2) := by
  have same : map.erase key operation.key = map operation.key :=
    if_neg apart
  obtain ⟨own, answer⟩ := step_congr enableTtl same
  refine Prod.ext ?_ answer
  funext other
  by_cases named : other = operation.key
  · rw [named]
    exact own.trans (if_neg apart).symm
  · rw [step_of_ne _ _ _ named]
    by_cases here : other = key
    · exact (if_pos here).trans (if_pos here).symm
    · refine (if_neg here).trans ((if_neg here).trans ?_).symm
      exact step_of_ne _ _ _ named

/-- Setting a key does not mind that it was missing. -/
theorem set_erase (map : Contents) (key : Bytes) (stored : Item) :
    (map.erase key).set key stored = map.set key stored := by
  funext other
  rw [Contents.set, Contents.set]
  split_ifs with same
  · rfl
  · exact if_neg same

/-- A reading call on an expired key leaves the map without it. -/
theorem purge_expired {enableTtl : Bool} {now : Int} {map : Contents}
    {key : Bytes} {stored : Item} (here : map key = some stored)
    (late : Expired enableTtl now stored.expireTime) :
    map.purge enableTtl now key = map.erase key := by
  rw [Contents.purge, here]
  exact if_pos late

theorem purge_absent (enableTtl : Bool) (now : Int) {map : Contents}
    {key : Bytes} (missing : map key = none) :
    map.purge enableTtl now key = map := by
  rw [Contents.purge, missing]

theorem erase_self (map : Contents) (key : Bytes) :
    map.erase key key = none :=
  if_pos rfl

/-! ## Lists of entries -/

/-- The item of an entry. -/
def item (entry : Entry) : Item :=
  { value := entry.value, expireTime := entry.expireTime }

/-- The map a list of entries stands for. -/
def contents (entries : List Entry) : Contents :=
  fun key => (lookup kvDataCompare Entry.key entries key).map item

@[simp]
theorem contents_nil : contents [] = Contents.empty :=
  rfl

theorem contents_put (entries : List Entry) (entry : Entry) :
    contents (put kvDataCompare Entry.key entries entry) =
      (contents entries).set entry.key (item entry) := by
  funext key
  rw [contents, Contents.set]
  split_ifs with same
  · rw [same, lookup_put_self]
    rfl
  · rw [lookup_put_of_ne entries same]
    rfl

theorem contents_erase (entries : List Entry) (key : Bytes) :
    contents (erase kvDataCompare Entry.key entries key) =
      (contents entries).erase key := by
  funext other
  rw [contents, Contents.erase]
  split_ifs with same
  · rw [same, lookup_erase]
    rfl
  · rw [lookup_erase_of_ne entries same]
    rfl

/-- Erasing a key that no entry has. -/
theorem erase_of_apart {entries : List Entry} {key : Bytes}
    (apart : ∀ entry ∈ entries, entry.key ≠ key) :
    erase kvDataCompare Entry.key entries key = entries := by
  rw [erase, List.filter_eq_self]
  intro entry member
  rw [bne_iff_ne, Ne, kvDataCompare_eq_iff]
  exact apart entry member

/-- Erasing the key of the one entry that has it. -/
theorem erase_middle {front back : List Entry} {entry : Entry}
    (distinct : ((front ++ entry :: back).map Entry.key).Nodup) :
    erase kvDataCompare Entry.key (front ++ entry :: back) entry.key =
      front ++ back := by
  rw [List.map_append, List.map_cons, List.nodup_append,
    List.nodup_cons] at distinct
  have ahead : erase kvDataCompare Entry.key front entry.key = front := by
    apply erase_of_apart
    intro other member same
    exact distinct.2.2 other.key (List.mem_map_of_mem member) entry.key
      List.mem_cons_self same
  have behind : erase kvDataCompare Entry.key back entry.key = back := by
    apply erase_of_apart
    intro other member same
    apply distinct.2.1.1
    rw [← same]
    exact List.mem_map_of_mem member
  rw [erase] at ahead behind ⊢
  rw [List.filter_append, ahead, List.filter_cons_of_neg (by simp), behind]

/-- In a list with distinct keys an entry is stored at its key. -/
theorem contents_eq_some_iff {entries : List Entry}
    (distinct : (entries.map Entry.key).Nodup) {key : Bytes} {stored : Item} :
    contents entries key = some stored ↔
      { key := key, value := stored.value, expireTime := stored.expireTime } ∈
        entries := by
  rw [contents, Option.map_eq_some_iff]
  constructor
  · rintro ⟨entry, found, rfl⟩
    have same : entry.key = key := by simpa using List.find?_some found
    rw [← same]
    exact List.mem_of_find?_eq_some found
  · intro member
    cases found : lookup kvDataCompare Entry.key entries key with
    | none =>
        have different := List.find?_eq_none.mp found _ member
        simp at different
    | some entry =>
        have same : entry.key = key := by simpa using List.find?_some found
        have inside := List.mem_of_find?_eq_some found
        have equal : entry =
            { key := key
              value := stored.value
              expireTime := stored.expireTime } :=
          List.inj_on_of_nodup_map distinct inside member same
        exact ⟨entry, rfl, by rw [equal]; rfl⟩

theorem mem_iff_contents {entries : List Entry}
    (distinct : (entries.map Entry.key).Nodup) (entry : Entry) :
    entry ∈ entries ↔ contents entries entry.key = some (item entry) :=
  (@contents_eq_some_iff entries distinct entry.key (item entry)).symm

/-- The map does not depend on the order of entries with distinct keys. -/
theorem contents_perm {first second : List Entry}
    (perm : first.Perm second) (distinct : (first.map Entry.key).Nodup) :
    contents first = contents second := by
  have distinct' : (second.map Entry.key).Nodup :=
    (perm.map Entry.key).nodup_iff.mp distinct
  funext key
  apply Option.ext
  intro stored
  rw [contents_eq_some_iff distinct, contents_eq_some_iff distinct',
    perm.mem_iff]

/-- A new first entry overrides the others. -/
theorem contents_cons_erase (entries : List Entry) (entry : Entry) :
    contents (entry :: erase kvDataCompare Entry.key entries entry.key) =
      (contents entries).set entry.key (item entry) := by
  funext key
  rw [contents, Contents.set, lookup, List.find?_cons]
  by_cases same : key = entry.key
  · rw [if_pos same, same, kvDataCompare_self]
    rfl
  · have different : (kvDataCompare entry.key key == .eq) = false := by
      rw [beq_eq_false_iff_ne, Ne, kvDataCompare_eq_iff]
      exact Ne.symm same
    rw [if_neg same, different]
    have rest := congrFun (contents_erase entries entry.key) key
    rw [Contents.erase, if_neg same] at rest
    exact rest

/-- Entries in strictly increasing key order have distinct keys. -/
theorem distinct_of_sorted {entries : List Entry}
    (sorted : Sorted kvDataCompare Entry.key entries) :
    (entries.map Entry.key).Nodup := by
  rw [List.Nodup, List.pairwise_map]
  refine sorted.imp ?_
  intro first second below same
  rw [same] at below
  exact kvDataCompare_lt_irrefl _ below

/-! ## Maps with a capacity -/

/-- The number of keys of a map. -/
noncomputable def Contents.size (map : Contents) : Nat :=
  Set.ncard { key | map key ≠ none }

open Classical in
/-- A call on a map with a capacity: a new key is refused in a full map. -/
noncomputable def Contents.boundedStep (capacity : Nat) (enableTtl : Bool)
    (map : Contents) (operation : Operation) : Contents × Answer :=
  match operation with
  | .set key value expireTime =>
      if map key = none ∧ capacity ≤ map.size then (map, .status (-1))
      else map.step enableTtl (.set key value expireTime)
  | .mod key value expireTime =>
      if map key = none ∧ capacity ≤ map.size then (map, .status (-1))
      else map.step enableTtl (.mod key value expireTime)
  | other => map.step enableTtl other

/-- The size of the map of entries with distinct keys. -/
theorem contents_size {entries : List Entry}
    (distinct : (entries.map Entry.key).Nodup) :
    (contents entries).size = entries.length := by
  have keys : { key | contents entries key ≠ none } =
      ((entries.map Entry.key).toFinset : Set Bytes) := by
    ext key
    rw [Set.mem_ofPred_eq, Option.ne_none_iff_exists', Finset.mem_coe,
      List.mem_toFinset, List.mem_map]
    constructor
    · rintro ⟨stored, found⟩
      exact ⟨_, (contents_eq_some_iff distinct).mp found, rfl⟩
    · rintro ⟨entry, member, rfl⟩
      exact ⟨item entry, (contents_eq_some_iff distinct).mpr member⟩
  rw [Contents.size, keys, Set.ncard_coe_finset,
    List.toFinset_card_of_nodup distinct, List.length_map]

theorem contents_finite (entries : List Entry) :
    { key | contents entries key ≠ none }.Finite := by
  refine (entries.map Entry.key).toFinset.finite_toSet.subset ?_
  intro key present
  obtain ⟨stored, found⟩ := Option.ne_none_iff_exists'.mp present
  obtain ⟨entry, hit, -⟩ := Option.map_eq_some_iff.mp found
  have same : entry.key = key := by simpa using List.find?_some hit
  rw [Finset.mem_coe, List.mem_toFinset, List.mem_map]
  exact ⟨entry, List.mem_of_find?_eq_some hit, same⟩

/-- Erasing a key makes a map smaller. -/
theorem size_erase {map : Contents} (finite : { key | map key ≠ none }.Finite)
    {key : Bytes} (present : map key ≠ none) :
    (map.erase key).size + 1 = map.size := by
  have others : { other | map.erase key other ≠ none } =
      { other | map other ≠ none } \ {key} := by
    ext other
    rw [Set.mem_sdiff, Set.mem_singleton_iff, Set.mem_ofPred_eq,
      Set.mem_ofPred_eq, Contents.erase]
    split_ifs with same
    · exact ⟨fun wrong => absurd rfl wrong, fun wrong => absurd same wrong.2⟩
    · exact ⟨fun present => ⟨present, same⟩, fun both => both.1⟩
  rw [Contents.size, others]
  exact Set.ncard_sdiff_singleton_add_one present finite

/-- A map has no more keys than a set of keys that it stays within. -/
theorem size_le_card {map : Contents} {keys : Finset Bytes}
    (within : ∀ key, map key ≠ none → key ∈ keys) :
    map.size ≤ keys.card := by
  rw [Contents.size, ← Set.ncard_coe_finset]
  exact Set.ncard_le_ncard (fun key present => within key present)
    keys.finite_toSet

/-- A map that misses one of these keys has fewer. -/
theorem size_lt_card {map : Contents} {keys : Finset Bytes} {key : Bytes}
    (within : ∀ key, map key ≠ none → key ∈ keys) (inside : key ∈ keys)
    (missing : map key = none) :
    map.size < keys.card := by
  have others : map.size ≤ (keys.erase key).card := by
    refine size_le_card (fun other present => Finset.mem_erase.mpr
      ⟨?_, within other present⟩)
    rintro rfl
    exact present missing
  exact others.trans_lt (Finset.card_erase_lt_of_mem inside)

/-! ## Entries that are not expired -/

/-- The entries a walk hands to its callback. -/
def unexpired (enableTtl : Bool) (now : Int) (entries : List Entry) :
    List Entry :=
  entries.filter (fun entry => ¬ Expired enableTtl now entry.expireTime)

section Unexpired

variable {enableTtl : Bool} {now : Int}

theorem unexpired_append (first second : List Entry) :
    unexpired enableTtl now (first ++ second) =
      unexpired enableTtl now first ++ unexpired enableTtl now second :=
  List.filter_append ..

theorem unexpired_cons (entry : Entry) (rest : List Entry) :
    unexpired enableTtl now (entry :: rest) =
      if Expired enableTtl now entry.expireTime then
        unexpired enableTtl now rest
      else entry :: unexpired enableTtl now rest := by
  rw [unexpired, List.filter_cons]
  by_cases late : Expired enableTtl now entry.expireTime
  · rw [decide_eq_false (not_not.mpr late), if_pos late]
    rfl
  · rw [decide_eq_true late, if_neg late]
    rfl

theorem mem_unexpired {entry : Entry} {entries : List Entry} :
    entry ∈ unexpired enableTtl now entries ↔
      entry ∈ entries ∧ ¬ Expired enableTtl now entry.expireTime := by
  rw [unexpired, List.mem_filter, decide_eq_true_iff]

/-- The entries that are not expired are those of the map, for entries with
distinct keys. -/
theorem mem_unexpired_contents {entries : List Entry}
    (distinct : (entries.map Entry.key).Nodup) {entry : Entry} :
    entry ∈ unexpired enableTtl now entries ↔
      contents entries entry.key = some (item entry) ∧
        ¬ Expired enableTtl now entry.expireTime := by
  rw [mem_unexpired, contents_eq_some_iff distinct]
  rfl

/-- A reading call on entries with distinct keys returns the value of the
entry of its key that is not expired. -/
theorem read_eq_some_iff {entries : List Entry}
    (distinct : (entries.map Entry.key).Nodup) {key value : Bytes} :
    ((contents entries).purge enableTtl now key key).map Item.value =
        some value ↔
      ∃ expireTime,
        { key := key, value := value, expireTime := expireTime } ∈
          unexpired enableTtl now entries := by
  rw [purge_self, Option.map_eq_some_iff]
  constructor
  · rintro ⟨stored, found, rfl⟩
    obtain ⟨here, timely⟩ := Option.filter_eq_some_iff.mp found
    exact ⟨stored.expireTime, (mem_unexpired_contents distinct).mpr
      ⟨here, decide_eq_true_iff.mp timely⟩⟩
  · rintro ⟨expireTime, member⟩
    obtain ⟨here, timely⟩ := (mem_unexpired_contents distinct).mp member
    exact ⟨{ value := value, expireTime := expireTime },
      Option.filter_eq_some_iff.mpr ⟨here, decide_eq_true timely⟩, rfl⟩

end Unexpired

/-! ## The calls on the list of entries -/

/-- A reading call on the list of entries: what stays and what is read. -/
def readEntries (enableTtl : Bool) (now : Int) (entries : List Entry)
    (key : Bytes) : List Entry × Option Bytes :=
  match lookup kvDataCompare Entry.key entries key with
  | none => (entries, none)
  | some entry =>
      if Expired enableTtl now entry.expireTime then
        (erase kvDataCompare Entry.key entries key, none)
      else (entries, some entry.value)

/-- The deletion of the expiry timer on the list of entries. -/
def expireEntries (entries : List Entry) (key : Bytes)
    (expectedExpire : Int) : List Entry × Bool :=
  match lookup kvDataCompare Entry.key entries key with
  | none => (entries, false)
  | some entry =>
      if entry.expireTime = expectedExpire then
        (erase kvDataCompare Entry.key entries key, true)
      else (entries, false)

/-- A call on the sorted list of entries. -/
def orderedStep (enableTtl : Bool) (entries : List Entry) :
    Operation → List Entry × Answer
  | .set key value expireTime =>
      (put kvDataCompare Entry.key entries
        { key := key, value := value, expireTime := expireTime }, .status 0)
  | .mod key value expireTime =>
      (put kvDataCompare Entry.key entries
        { key := key, value := value, expireTime := expireTime }, .status 0)
  | .get now key =>
      let read := readEntries enableTtl now entries key
      (read.1, .value read.2)
  | .exist now key =>
      let read := readEntries enableTtl now entries key
      (read.1, .status (if read.2.isSome then 0 else 1))
  | .del key =>
      (erase kvDataCompare Entry.key entries key,
        .status
          (if (lookup kvDataCompare Entry.key entries key).isSome then 0
          else 1))
  | .delIfExpired key expectedExpire =>
      let expired := expireEntries entries key expectedExpire
      (expired.1, .status (if expired.2 then 1 else 0))

theorem readEntries_purge (enableTtl : Bool) (now : Int)
    (entries : List Entry) (key : Bytes) :
    contents (readEntries enableTtl now entries key).1 =
        (contents entries).purge enableTtl now key ∧
      (readEntries enableTtl now entries key).2 =
        ((contents entries).purge enableTtl now key key).map Item.value := by
  rw [readEntries, Contents.purge]
  cases found : lookup kvDataCompare Entry.key entries key with
  | none =>
      have here : contents entries key = none := by
        rw [contents, found]
        rfl
      simp only [here]
      exact ⟨trivial, rfl⟩
  | some entry =>
      have here : contents entries key = some (item entry) := by
        rw [contents, found]
        rfl
      have time : (item entry).expireTime = entry.expireTime := rfl
      simp only [here, time]
      split_ifs with late
      · refine ⟨contents_erase entries key, ?_⟩
        rw [Contents.erase, if_pos rfl]
        rfl
      · rw [here]
        exact ⟨rfl, rfl⟩

theorem expireEntries_erase (entries : List Entry) (key : Bytes)
    (expectedExpire : Int) :
    (contents (expireEntries entries key expectedExpire).1,
      (expireEntries entries key expectedExpire).2) =
      if (contents entries key).map Item.expireTime = some expectedExpire then
        ((contents entries).erase key, true)
      else (contents entries, false) := by
  rw [expireEntries, contents]
  cases found : lookup kvDataCompare Entry.key entries key with
  | none => rfl
  | some entry =>
      have time : (item entry).expireTime = entry.expireTime := rfl
      simp only [Option.map_some, time, Option.some.injEq]
      split_ifs with here
      · rw [contents_erase]
      · rfl

/-- The sorted list carries out the map. -/
theorem orderedStep_contents (enableTtl : Bool) (entries : List Entry)
    (operation : Operation) :
    (contents (orderedStep enableTtl entries operation).1,
      (orderedStep enableTtl entries operation).2) =
      (contents entries).step enableTtl operation := by
  cases operation with
  | set key value expireTime =>
      rw [orderedStep, Contents.step, contents_put]
      rfl
  | mod key value expireTime =>
      rw [orderedStep, Contents.step, contents_put]
      rfl
  | get now key =>
      obtain ⟨after, read⟩ := readEntries_purge enableTtl now entries key
      simp only [orderedStep, Contents.step, after, read]
  | exist now key =>
      obtain ⟨after, read⟩ := readEntries_purge enableTtl now entries key
      simp only [orderedStep, Contents.step, after, read, Option.isSome_map]
  | del key =>
      simp only [orderedStep, Contents.step, contents_erase]
      rw [contents, Option.isSome_map]
  | delIfExpired key expectedExpire =>
      have expire := expireEntries_erase entries key expectedExpire
      simp only [orderedStep, Contents.step]
      split_ifs at expire ⊢ with here <;> simp_all

/-! ## Filling an empty engine -/

/-- An entry with a new key may stand at either end. -/
theorem contents_concat {entries : List Entry} {entry : Entry}
    (distinct : ((entries ++ [entry]).map Entry.key).Nodup) :
    contents (entries ++ [entry]) =
      (contents entries).set entry.key (item entry) := by
  have apart : ∀ other ∈ entries, other.key ≠ entry.key := by
    intro other member same
    rw [List.map_append, List.nodup_append] at distinct
    exact distinct.2.2 other.key (List.mem_map_of_mem member) entry.key
      (by simp) same
  have front := contents_cons_erase entries entry
  rw [erase_of_apart apart] at front
  rw [contents_perm (List.perm_append_singleton entry entries) distinct,
    front]

section Filling

variable {σ ι : Type} {ok : σ → Prop} {stored : σ → List Entry}
  {store : σ → ι → σ} {entryOf : ι → Entry} {allowed : Entry → Prop}
  {limit : Nat}

theorem foldl_ok
    (distinct : ∀ state, ok state → ((stored state).map Entry.key).Nodup)
    (keeps : ∀ state input, ok state → (stored state).length < limit →
      allowed (entryOf input) →
      ok (store state input) ∧
        contents (stored (store state input)) =
          (contents (stored state)).set (entryOf input).key
            (item (entryOf input)))
    {start : σ} (fresh : ok start) (empty : stored start = [])
    {inputs : List ι}
    (apart : ((inputs.map entryOf).map Entry.key).Nodup)
    (small : inputs.length ≤ limit)
    (fine : ∀ input ∈ inputs, allowed (entryOf input)) :
    ok (inputs.foldl store start) ∧
      contents (stored (inputs.foldl store start)) =
        contents (inputs.map entryOf) := by
  induction inputs using List.reverseRecOn with
  | nil =>
      refine ⟨fresh, ?_⟩
      rw [List.foldl_nil, empty, List.map_nil]
  | append_singleton front last induction =>
      rw [List.map_append, List.map_singleton] at apart ⊢
      rw [List.length_append, List.length_singleton] at small
      have before : (((front.map entryOf)).map Entry.key).Nodup := by
        rw [List.map_append] at apart
        exact (List.nodup_append.mp apart).1
      obtain ⟨valid, filled⟩ := induction before
        (Nat.le_of_succ_le small)
        (fun input member => fine input (List.mem_append_left _ member))
      have size : (stored (front.foldl store start)).length =
          front.length := by
        rw [← contents_size (distinct _ valid), filled,
          contents_size before, List.length_map]
      obtain ⟨after, added⟩ := keeps _ last valid (by rw [size]; exact small)
        (fine last (List.mem_append_right _ List.mem_cons_self))
      rw [List.foldl_append, List.foldl_cons, List.foldl_nil]
      refine ⟨after, ?_⟩
      rw [added, filled, contents_concat apart]

/--
An engine that stores one entry at a time, as long as it holds fewer than some
number, holds the entries of a list after they have been stored one by one.
-/
theorem foldl_contents
    (distinct : ∀ state, ok state → ((stored state).map Entry.key).Nodup)
    (keeps : ∀ state input, ok state → (stored state).length < limit →
      allowed (entryOf input) →
      ok (store state input) ∧
        contents (stored (store state input)) =
          (contents (stored state)).set (entryOf input).key
            (item (entryOf input)))
    {start : σ} (fresh : ok start) (empty : stored start = [])
    {inputs : List ι}
    (apart : ((inputs.map entryOf).map Entry.key).Nodup)
    (small : inputs.length ≤ limit)
    (fine : ∀ input ∈ inputs, allowed (entryOf input)) :
    ((stored (inputs.foldl store start)).map Entry.key).Nodup ∧
      contents (stored (inputs.foldl store start)) =
        contents (inputs.map entryOf) := by
  obtain ⟨valid, filled⟩ :=
    foldl_ok distinct keeps fresh empty apart small fine
  exact ⟨distinct _ valid, filled⟩

end Filling

/-! ## A series of keys -/

/-- The four bytes of a number, the lowest first. -/
def serialKey (number : Nat) : Bytes :=
  [UInt8.ofNat number, UInt8.ofNat (number / 256),
    UInt8.ofNat (number / 65536), UInt8.ofNat (number / 16777216)]

theorem serialKey_injective {first second : Nat}
    (small : first < 2 ^ 32) (small' : second < 2 ^ 32)
    (same : serialKey first = serialKey second) :
    first = second := by
  simp only [serialKey, List.cons.injEq, and_true] at same
  obtain ⟨byte0, byte1, byte2, byte3⟩ := same
  have nat0 := congrArg UInt8.toNat byte0
  have nat1 := congrArg UInt8.toNat byte1
  have nat2 := congrArg UInt8.toNat byte2
  have nat3 := congrArg UInt8.toNat byte3
  simp only [UInt8.toNat_ofNat'] at nat0 nat1 nat2 nat3
  omega

end Kivo.Engine.KeyMap
