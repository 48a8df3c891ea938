import Kivo.Server.LazyExpiry

/-!
# The times that `parse_ttl` computes

A request names its expiry in one of three forms: seconds behind `EX`,
milliseconds behind `PX`, or a small bare number of seconds.  `parse_ttl` adds
the clock without looking at the size of what the client sent, so the sum is
the requested time exactly when it fits in 64 bits.
-/

namespace Kivo.Server.Ttl

open Kivo.Clib.Memory
open Kivo.Resp.Stream
open Kivo.Server.Commands
open Kivo.Server.LazyExpiry

/-! ## Requested times -/

/-- The request asks for an expiry after so many milliseconds. -/
inductive Requests (call : Call) : Int → Prop where
  | seconds (long : 5 ≤ call.argc) (keyword : call.argIs 3 (ascii "EX"))
      (positive : 0 < call.number 4) :
      Requests call (call.number 4 * 1000)
  | milliseconds (long : 5 ≤ call.argc)
      (keyword : call.argIs 3 (ascii "PX")) (positive : 0 < call.number 4) :
      Requests call (call.number 4)
  | bare (long : 4 ≤ call.argc)
      (plain : 5 ≤ call.argc →
        ¬ call.argIs 3 (ascii "EX") ∧ ¬ call.argIs 3 (ascii "PX"))
      (positive : 0 < call.number 3) (small : call.number 3 < 1000000000) :
      Requests call (call.number 3 * 1000)

theorem Requests.positive {call : Call} {ms : Int}
    (requests : Requests call ms) :
    0 < ms := by
  cases requests with
  | seconds long keyword positive => omega
  | milliseconds long keyword positive => exact positive
  | bare long plain positive small => omega

/-- `EX` and `PX` are told apart. -/
theorem not_both {call : Call} (milliseconds : call.argIs 3 (ascii "PX")) :
    ¬ call.argIs 3 (ascii "EX") := by
  intro seconds
  rw [Call.argIs, nameIs, Bool.and_eq_true, sameName, beq_iff_eq]
    at milliseconds seconds
  have same := milliseconds.2.symm.trans seconds.2
  exact absurd same (by decide)

/-- What `parse_ttl` computes, with both roundings to 64 bits. -/
theorem parseTtl_requests {call : Call} {ms : Int}
    (requests : Requests call ms) :
    parseTtl call = toInt64 (call.world.now 0 + ms) ∨
      parseTtl call = toInt64 (call.world.now 0 + toInt64 ms) := by
  rw [parseTtl]
  cases requests with
  | seconds long keyword positive =>
      right
      rw [if_neg (by omega), if_pos ⟨long, keyword⟩, if_pos positive]
  | milliseconds long keyword positive =>
      left
      rw [if_neg (by omega), if_neg (fun both => not_both keyword both.2),
        if_pos ⟨long, keyword⟩, if_pos positive]
  | bare long plain positive small =>
      left
      rw [if_neg (by omega), if_neg (fun both => (plain both.1).1 both.2),
        if_neg (fun both => (plain both.1).2 both.2),
        if_neg (by omega), if_pos small]

/-! ## Sums that fit -/

/-- `parse_ttl` returns the requested time, which is a later one, exactly when
it fits in a signed 64-bit integer. -/
theorem parseTtl_exact_iff {call : Call} {ms : Int}
    (nonnegative : 0 ≤ call.world.now 0)
    (requests : Requests call ms) :
    (parseTtl call = call.world.now 0 + ms ∧
        call.world.now 0 < parseTtl call) ↔
      call.world.now 0 + ms < 2 ^ 63 := by
  have positive := requests.positive
  constructor
  · rintro ⟨exact, -⟩
    rw [← exact]
    rcases parseTtl_requests requests with sum | sum
    · rw [sum]
      exact (toInt64_bounds _).2
    · rw [sum]
      exact (toInt64_bounds _).2
  · intro fits
    have sum : toInt64 (call.world.now 0 + ms) = call.world.now 0 + ms :=
      toInt64_of_range (by omega) fits
    have exact : parseTtl call = call.world.now 0 + ms := by
      rcases parseTtl_requests requests with once | twice
      · rw [once, sum]
      · have product : toInt64 ms = ms :=
          toInt64_of_range (by omega) (by omega)
        rw [twice, product, sum]
    exact ⟨exact, by omega⟩

/-- The call of `SET k v EX seconds` at the beginning of the year 2026. -/
def setExCall (seconds : String) : Call :=
  (commandAt 1767225600000 .set
    [ascii "SET", ascii "k", ascii "v", ascii "EX", ascii seconds]).call

/-- An expiry after ten seconds. -/
theorem parseTtl_exact_ten :
    parseTtl (setExCall "10") = 1767225600000 + 10000 ∧
      1767225600000 < parseTtl (setExCall "10") :=
  (parseTtl_exact_iff (by decide)
    (.seconds (by decide +kernel) (by decide +kernel)
      (by decide +kernel))).mpr (by decide +kernel)

/-- The largest number of seconds lies in the past. -/
theorem parseTtl_wraps :
    Requests (setExCall "9223372036854775807") (9223372036854775807 * 1000) ∧
      parseTtl (setExCall "9223372036854775807") =
        1767225600000 - 1000 := by
  refine ⟨?_, by decide +kernel⟩
  have number : (setExCall "9223372036854775807").number 4 =
      9223372036854775807 := by
    decide +kernel
  rw [← number]
  exact .seconds (by decide +kernel) (by decide +kernel) (by decide +kernel)

end Kivo.Server.Ttl
