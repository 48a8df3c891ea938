import Kivo.Engine.TimeRange
import Kivo.Server.TimeIndex

/-!
# How many members a range command considers

`ZRANGE 0 stop` and `ZRANGEREC 0 stop` ask for `stop + 1` members.  The number
is computed as a `long` and kept as an `int`, so that it loses its upper half:
a large `stop` asks for few members, or for none.  The members are counted in an
`int` as well.
-/

namespace Kivo.Server.RecentCount

open Kivo.Clib.Memory
open Kivo.Engine.SkipEngine
open Kivo.Engine.SkipRuns (Level)
open Kivo.Engine.TimeRange
open Kivo.Resp.Frame
open Kivo.Resp.Reply
open Kivo.Server.Commands
open Kivo.Server.TimeIndex (invocationOf)

/-! ## What the handlers consider -/

/-- The answer of `ZRANGE` to some ids. -/
def idsAnswer (store : Store) (ids : List Bytes) : Store × RespReply :=
  if ids.length = 0 then (store, RespReply.plain .noExists)
  else
    (store,
      RespReply.bulk ((ids.map cString).intersperse (ascii ",")).flatten)

/-- The answer of `ZRANGEREC` to some ids. -/
def recordsAnswer (call : Call) (store : Store) (ids : List Bytes) :
    Store × RespReply :=
  if ids.length = 0 then (store, RespReply.plain .noExists)
  else buildRecordsNewline call ids 0 store

/-- `start` and `want` of `kvs_zset_recent` when a range command calls it; it is
not called for a number that is not positive. -/
def rangeWindow (call : Call) (number : Nat) : Option (Nat × Nat) :=
  (rangeCount call).bind (fun n =>
    if n ≤ 0 then some (number, 0) else recentWindow number n)

/-- The members in a window. -/
def inWindow (members : List (Int × Bytes)) (window : Nat × Nat) :
    List (Int × Bytes) :=
  (members.drop window.1).take window.2

/-- Both commands take these members, by their place in the skip list, and
answer as they answer to their ids. -/
structure Considers (call : Call) (store : Store)
    (members taken : List (Int × Bytes)) : Prop where
  window : (rangeWindow call members.length).map (inWindow members) =
    some taken
  zrange : cmdZrange call store = idsAnswer store (taken.map Prod.snd)
  zrangerec : cmdZrangerec call store =
    recordsAnswer call store (taken.map Prod.snd)

/-- What the range commands share, in terms of the window. -/
theorem ranging_window {call : Call} {store : Store}
    {members : List (Int × Bytes)} (lists : Lists store.tables.skip members)
    (three : call.argc = 3) {window : Nat × Nat}
    (found : rangeWindow call members.length = some window)
    (answer : List Bytes → Store × RespReply) :
    ranging answer call store =
      if ((inWindow members window).map Prod.snd).length = 0 then
        (store, RespReply.plain .noExists)
      else answer ((inWindow members window).map Prod.snd) := by
  obtain ⟨n, count, chosen⟩ := Option.bind_eq_some_iff.mp found
  rw [ranging, if_neg (not_not.mpr three), count]
  dsimp only
  split_ifs at chosen with none
  · cases chosen
    rw [if_pos none, inWindow, List.drop_length]
    rfl
  · have recent : kvsZsetRecent store.tables.skip n =
        some ((inWindow members window).map Prod.snd) := by
      rw [kvsZsetRecent, if_neg none, lists.entries_length, chosen,
        Option.map_some]
      exact congrArg some (lists.collectIds window)
    rw [if_neg none, recent]

/-- The range commands consider the members of their window. -/
theorem considers {call : Call} {store : Store}
    {members : List (Int × Bytes)} (lists : Lists store.tables.skip members)
    (three : call.argc = 3) {window : Nat × Nat}
    (found : rangeWindow call members.length = some window) :
    Considers call store members (inWindow members window) :=
  { window := by rw [found, Option.map_some]
    zrange := ranging_window lists three found _
    zrangerec := ranging_window lists three found _ }

/-! ## Windows at the end -/

/-- A window of distinct members that is a nonempty end of the list starts where
the end starts and is wide enough. -/
theorem inWindow_end {members : List (Int × Bytes)} (distinct : members.Nodup)
    {window : Nat × Nat} {start : Nat} (inside : start < members.length)
    (same : inWindow members window = members.drop start) :
    window.1 = start ∧ members.length - start ≤ window.2 := by
  obtain ⟨first, want⟩ := window
  have lengths := congrArg List.length same
  rw [inWindow, List.length_take, List.length_drop, List.length_drop]
    at lengths
  dsimp only at lengths ⊢
  have here : first < members.length := by omega
  have heads := congrArg List.head? same
  rw [inWindow, List.head?_take, List.head?_drop, List.head?_drop,
    if_neg (by dsimp only; omega)] at heads
  have place : first = start :=
    (List.getElem?_inj here distinct).mp heads
  omega

/-- Both conversions together keep the lower half. -/
theorem toInt32_toInt64 (value : Int) :
    toInt32 (toInt64 value) = toInt32 value :=
  Int.bmod_bmod_of_dvd (by decide)

/-! ## The narrowed number -/

/-- The lower half of `stop + 1` is the whole, or stands for enough members. -/
def Unwrapped (stop : Int) (number : Nat) : Prop :=
  stop + 1 < 2 ^ 31 ∨ number = 0 ∨
    number ≤ (stop + 1) % 2 ^ 32 ∧ (stop + 1) % 2 ^ 32 < 2 ^ 31

theorem unwrapped_iff {stop : Int} (nonnegative : 0 ≤ stop) (number : Nat) :
    number - (toInt32 (stop + 1)).toNat =
        number - min (stop + 1).toNat number ↔
      Unwrapped stop number := by
  rw [Unwrapped]
  rcases toInt32_cases (stop + 1) with ⟨same, low⟩ | ⟨negative, high⟩
  · omega
  · omega

section Windows

variable {call : Call} (start : call.number 1 = 0)
  (nonnegative : 0 ≤ call.number 2) {members : List (Int × Bytes)}

include start nonnegative

theorem rangeCount_eq :
    rangeCount call = some (toInt32 (call.number 2 + 1)) := by
  rw [rangeCount, start, if_neg (by omega), Int.sub_zero, toInt32_toInt64]

/-- The window is the end of the list when nothing is lost. -/
theorem rangeWindow_end (unwrapped : Unwrapped (call.number 2) members.length)
    (counted : members.length < 2 ^ 31) :
    ∃ window, rangeWindow call members.length = some window ∧
      inWindow members window = members.drop (members.length -
        min (call.number 2 + 1).toNat members.length) := by
  rw [rangeWindow, rangeCount_eq start nonnegative, Option.bind_some,
    ← (unwrapped_iff nonnegative members.length).mpr unwrapped]
  split_ifs with none
  · refine ⟨_, rfl, ?_⟩
    rw [Int.toNat_of_nonpos none, Nat.sub_zero, inWindow, List.take_zero,
      List.drop_length]
  · refine ⟨_, recentWindow_of_counted (Int.not_le.mp none) counted, ?_⟩
    rw [inWindow]
    exact List.take_of_length_le (by rw [List.length_drop])

/-- The window is not the end of the list otherwise. -/
theorem unwrapped_of_end (distinct : members.Nodup) {window : Nat × Nat}
    (found : rangeWindow call members.length = some window)
    (same : inWindow members window = members.drop (members.length -
      min (call.number 2 + 1).toNat members.length)) :
    Unwrapped (call.number 2) members.length ∧ members.length < 2 ^ 31 := by
  rcases Nat.eq_zero_or_pos members.length with empty | some
  · exact ⟨Or.inr (Or.inl empty), by omega⟩
  · obtain ⟨first, wide⟩ := inWindow_end distinct (by omega) same
    have number := toInt32_bounds members.length
    rw [rangeWindow, rangeCount_eq start nonnegative, Option.bind_some]
      at found
    rw [← unwrapped_iff nonnegative]
    split_ifs at found with none
    · obtain rfl := Option.some.inj found
      dsimp only at wide
      omega
    · rw [recentWindow] at found
      dsimp only at found
      split_ifs at found with zero more negative negative
      all_goals
        obtain rfl := Option.some.inj found
        dsimp only at first wide
      · omega
      all_goals
        have counted : members.length < 2 ^ 31 := by omega
        have whole : toInt32 members.length = members.length :=
          toInt32_of_range (by omega) (by omega)
        exact ⟨by omega, counted⟩

end Windows

/-- The range commands consider the `stop + 1` most recent members exactly when
the narrowing loses nothing and an `int` counts the members. -/
theorem range_considers_iff {call : Call} {store : Store}
    {adds : List ((Int × Bytes) × Level)}
    (content : store.tables.skip = filled adds)
    (stamps : ∀ add ∈ adds, 10 ^ 12 ≤ add.1.1 ∧ add.1.1 < 10 ^ 13)
    (three : call.argc = 3) (start : call.number 1 = 0)
    (nonnegative : 0 ≤ call.number 2) :
    ∃ members : List (Int × Bytes),
      members.Pairwise Earlier ∧
      (∀ member, member ∈ members ↔ Added adds member) ∧
      (Considers call store members
          (members.drop (members.length -
            min (call.number 2 + 1).toNat members.length)) ↔
        Unwrapped (call.number 2) members.length ∧
          members.length < 2 ^ 31) := by
  have stamped : ∀ add ∈ adds, Stamped add.1 := by
    intro add added
    have bounds := stamps add added
    exact ⟨by omega, by omega⟩
  obtain ⟨members, lists, added⟩ := filled_lists stamped
  refine ⟨members, lists.ordered, added, ?_⟩
  rw [← content] at lists
  constructor
  · intro expected
    obtain ⟨window, found, same⟩ := Option.map_eq_some_iff.mp expected.window
    exact unwrapped_of_end start nonnegative (nodup_of_ordered lists.ordered)
      found same
  · rintro ⟨unwrapped, counted⟩
    obtain ⟨window, found, same⟩ :=
      rangeWindow_end start nonnegative unwrapped counted
    rw [← same]
    exact considers lists three found

/-- Twelve members, the most recent one added first. -/
def twelveAdds : List ((Int × Bytes) × Level) :=
  (List.range 12).reverse.map (fun number : Nat =>
    ((1767225600000 + (number : Int), [UInt8.ofNat (97 + number)]), 0))

/-- The store with some members. -/
def storeOf (adds : List ((Int × Bytes) × Level)) : Store :=
  { Store.create (fun _ => default) with
    tables := { Kivo.Engine.Store.Tables.create with skip := filled adds } }

/-- The call of `ZRANGE 0 stop`. -/
def rangeCall (stop : String) : Call :=
  (invocationOf .zrange [ascii "ZRANGE", ascii "0", ascii stop]).call

/-- The ten most recent members of twelve. -/
theorem range_considers_ten :
    ∃ members : List (Int × Bytes),
      members.Pairwise Earlier ∧
      (∀ member, member ∈ members ↔ Added twelveAdds member) ∧
      Considers (rangeCall "9") (storeOf twelveAdds) members
        (members.drop (members.length - min 10 members.length)) ∧
      (cmdZrange (rangeCall "9") (storeOf twelveAdds)).2 =
        RespReply.bulk (ascii "c,d,e,f,g,h,i,j,k,l") := by
  have number : (rangeCall "9").number 2 = 9 := by decide +kernel
  obtain ⟨members, ordered, added, exact⟩ :=
    @range_considers_iff (rangeCall "9") (storeOf twelveAdds) twelveAdds rfl
      (by decide +kernel) (by decide +kernel) (by decide +kernel)
      (by decide +kernel)
  rw [number] at exact
  have few := members_length_le ordered added
  have twelve : twelveAdds.length = 12 := rfl
  exact ⟨members, ordered, added,
    exact.mpr ⟨Or.inl (by decide), by omega⟩, by decide +kernel⟩

/-- A member of the year 2026. -/
def oneMember : List ((Int × Bytes) × Level) :=
  [((1767225600000, ascii "a"), 0)]

/-- The member is found with `stop = 0` and not with `stop = 2147483647`. -/
theorem range_wraps :
    (cmdZrange (rangeCall "0") (storeOf oneMember)).2 =
        RespReply.bulk (ascii "a") ∧
      (cmdZrange (rangeCall "2147483647") (storeOf oneMember)).2 =
        RespReply.plain .noExists := by
  decide +kernel

end Kivo.Server.RecentCount
