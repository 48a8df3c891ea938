import Kivo.Clib.Numeral

/-!
# Replies and the write buffer

`resp_pack` turns a reply into bytes, status by status, and
`resp_pack_with_realloc` grows the connection's write buffer before it does
so.  The buffer keeps the C variables `wcap` and `wlen` with their 32-bit
arithmetic; `overrun` is raised when bytes were written behind the allocated
capacity, after which the C program has no defined behaviour.  The length of a
body is an `int` as well, so that a body of 2 GiB or more comes with another
number.
-/

namespace Kivo.Resp.Reply

open Kivo.Clib.Memory
open Kivo.Clib.Numeral

/-- `kvs_status_t`. -/
inductive KvsStatus where
  | ok
  | getOk
  | pong
  | noExists
  | keyExists
  | success
  | error
  | parseError
  | unknown
  | err
deriving DecidableEq, Repr

/-- `resp_reply_t`; a missing body is the null pointer. -/
structure RespReply where
  status : KvsStatus
  body : Option Bytes
  bodyLen : Int
deriving DecidableEq, Repr

/-- A reply that carries no body. -/
def RespReply.plain (status : KvsStatus) : RespReply :=
  { status := status, body := none, bodyLen := 0 }

/-- A reply that carries bytes; their number is narrowed to an `int`. -/
def RespReply.bulk (body : Bytes) : RespReply :=
  { status := .getOk, body := some body, bodyLen := toInt32 body.length }

/-- The bytes of a body that `memcpy` reads for a `body_len`.  A negative one
is a huge `size_t`: all bytes are read, and what lies behind them. -/
def copied (body : Bytes) (bodyLen : Int) : Bytes :=
  if bodyLen < 0 then body else body.take bodyLen.toNat

/-- The bytes `resp_pack` appends for a reply. -/
def respPack (reply : RespReply) : Bytes :=
  match reply.status, reply.body with
  | .ok, _ => ascii "+OK\r\n"
  | .pong, _ => ascii "+PONG\r\n"
  | .success, _ => ascii "+OK\r\n"
  | .err, _ => ascii "-ERR save snapshot failed\r\n"
  | .getOk, some body =>
      ascii "$" ++ decimalInt reply.bodyLen ++ ascii "\r\n" ++
        copied body reply.bodyLen ++ ascii "\r\n"
  | .getOk, none => []
  | .noExists, _ => ascii "$-1\r\n"
  | .keyExists, _ => ascii "-ERR key already exists\r\n"
  | .unknown, _ => ascii "-ERR unknown command\r\n"
  | .parseError, _ => ascii "-ERR syntax error\r\n"
  | .error, _ => []

/-- The number of bytes that `resp_pack` writes.  Behind a reply without a body
`sprintf` leaves a NUL that `*send_len` does not count; the one behind the
header of a body is written over. -/
def respPackExtent (reply : RespReply) : Nat :=
  match reply.status, reply.body with
  | .getOk, some _ => (respPack reply).length
  | .getOk, none => 0
  | .error, _ => 0
  | _, _ => (respPack reply).length + 1

/-- `resp_pack` copies a body with a negative `body_len`. -/
def RespReply.Runaway (reply : RespReply) : Prop :=
  reply.status = .getOk ∧ reply.body ≠ none ∧ reply.bodyLen < 0

instance (reply : RespReply) : Decidable reply.Runaway :=
  inferInstanceAs (Decidable (_ ∧ _))

theorem runaway_bulk (body : Bytes) :
    (RespReply.bulk body).Runaway ↔ toInt32 body.length < 0 := by
  simp [RespReply.Runaway, RespReply.bulk]

/-- The growable write buffer of a connection. -/
structure WriteBuffer where
  bytes : Bytes
  wcap : Int
  wlen : Int
  overrun : Bool
deriving DecidableEq, Repr

/-- `resp_pack_with_realloc`, with the reallocation succeeding. -/
def respPackWithRealloc (wbuf : WriteBuffer) (reply : RespReply) :
    WriteBuffer :=
  let needed := toInt32 (wbuf.wlen + 1024 + max reply.bodyLen 0)
  let newCap := toInt32 (wbuf.wcap * 2)
  let wcap :=
    if needed > wbuf.wcap then
      if newCap < needed then needed else newCap
    else wbuf.wcap
  let packed := respPack reply
  { bytes := wbuf.bytes ++ packed
    wcap := wcap
    wlen := toInt32 (wbuf.wlen + packed.length)
    overrun := wbuf.overrun || decide reply.Runaway ||
      decide (wcap < wbuf.wlen + respPackExtent reply) }

/-! ## Well-formed replies -/

/-- One complete RESP reply, as a client reads it from the stream. -/
inductive IsRespReply : Bytes → Prop where
  | simple (text : Bytes)
      (singleLine : (13 : UInt8) ∉ text ∧ (10 : UInt8) ∉ text) :
      IsRespReply (ascii "+" ++ text ++ ascii "\r\n")
  | error (text : Bytes)
      (singleLine : (13 : UInt8) ∉ text ∧ (10 : UInt8) ∉ text) :
      IsRespReply (ascii "-" ++ text ++ ascii "\r\n")
  | bulk (body : Bytes) :
      IsRespReply
        (ascii "$" ++ decimal body.length ++ ascii "\r\n" ++ body ++
          ascii "\r\n")
  | nil : IsRespReply (ascii "$-1\r\n")

theorem IsRespReply.ne_nil {bytes : Bytes} (reply : IsRespReply bytes) :
    bytes ≠ [] := by
  cases reply with
  | simple text singleLine => simp [ascii]
  | error text singleLine => simp [ascii]
  | bulk body => simp [ascii]
  | nil => decide

/-- The replies for which `resp_pack` has no encoding. -/
def RespReply.Silent (reply : RespReply) : Prop :=
  reply.status = .error ∨ (reply.status = .getOk ∧ reply.body = none)

theorem respPack_silent_iff (reply : RespReply) :
    respPack reply = [] ↔ reply.Silent := by
  obtain ⟨status, body, bodyLen⟩ := reply
  cases status <;> cases body <;>
    simp [respPack, RespReply.Silent, ascii]

/-- A body that `body_len` measures, or cuts off. -/
theorem copied_length {body : Bytes} {bodyLen : Int} (nonneg : 0 ≤ bodyLen)
    (most : bodyLen ≤ body.length) :
    ((copied body bodyLen).length : Int) = bodyLen := by
  rw [copied, if_neg (by omega), List.length_take]
  omega

theorem copied_whole (body : Bytes) : copied body body.length = body := by
  rw [copied, if_neg (by omega), Int.toNat_natCast, List.take_length]

/-- A body that an `int` can measure is sent as it is. -/
theorem respPack_bulk {body : Bytes} (small : body.length < 2 ^ 31) :
    respPack (RespReply.bulk body) =
      ascii "$" ++ decimal body.length ++ ascii "\r\n" ++ body ++
        ascii "\r\n" := by
  have int : toInt32 body.length = body.length :=
    toInt32_of_range (by omega) (by omega)
  have digits : decimalInt body.length = decimal body.length := by
    rw [decimalInt, if_neg (by omega), Int.natAbs_natCast]
  simp only [respPack, RespReply.bulk]
  rw [int, copied_whole, digits]

/-- Every reply that is encoded at all is one well-formed RESP reply, as long
as `body_len` is not negative and the body has so many bytes. -/
theorem isRespReply_respPack {reply : RespReply}
    (audible : ¬ reply.Silent) (sane : ¬ reply.Runaway)
    (most : reply.bodyLen ≤ (reply.body.getD []).length) :
    IsRespReply (respPack reply) := by
  have line : ∀ text : Bytes,
      (13 : UInt8) ∉ text ∧ (10 : UInt8) ∉ text →
        IsRespReply (ascii "-" ++ text ++ ascii "\r\n") :=
    fun text singleLine => IsRespReply.error text singleLine
  obtain ⟨status, body, bodyLen⟩ := reply
  cases status with
  | ok => exact IsRespReply.simple (ascii "OK") (by decide)
  | getOk =>
      cases body with
      | some body =>
          have nonneg : 0 ≤ bodyLen :=
            Int.not_lt.mp (fun negative => sane ⟨rfl, nofun, negative⟩)
          have length : ((copied body bodyLen).length : Int) = bodyLen :=
            copied_length nonneg most
          have number : decimalInt bodyLen =
              decimal (copied body bodyLen).length := by
            rw [decimalInt, if_neg (by omega)]
            congr 1
            omega
          have bulk := IsRespReply.bulk (copied body bodyLen)
          rw [← number] at bulk
          exact bulk
      | none => exact absurd (Or.inr ⟨rfl, rfl⟩) audible
  | pong => exact IsRespReply.simple (ascii "PONG") (by decide)
  | noExists => exact IsRespReply.nil
  | keyExists => exact line (ascii "ERR key already exists") (by decide)
  | success => exact IsRespReply.simple (ascii "OK") (by decide)
  | error => exact absurd (Or.inl rfl) audible
  | parseError => exact line (ascii "ERR syntax error") (by decide)
  | unknown => exact line (ascii "ERR unknown command") (by decide)
  | err => exact line (ascii "ERR save snapshot failed") (by decide)

/-- `resp_pack` never writes more than the body and 32 further bytes. -/
theorem respPackExtent_le {reply : RespReply} (nonneg : 0 ≤ reply.bodyLen)
    (int : reply.bodyLen < 2 ^ 31) :
    (respPackExtent reply : Int) ≤ reply.bodyLen + 32 := by
  obtain ⟨status, body, bodyLen⟩ := reply
  change 0 ≤ bodyLen at nonneg
  change bodyLen < 2 ^ 31 at int
  have digits : (decimalInt bodyLen).length ≤ 10 := by
    rw [decimalInt, if_neg (Int.not_lt.mpr nonneg), decimal]
    split_ifs
    · simp
    · rw [List.length_map, List.length_reverse]
      exact Nat.digits_length_le_iff (by decide) _ |>.mpr (by omega)
  cases status
  case getOk =>
    cases body with
    | none =>
        simp only [respPackExtent, Nat.cast_zero]
        omega
    | some body =>
        have length : (copied body bodyLen).length ≤ bodyLen.toNat := by
          rw [copied, if_neg (Int.not_lt.mpr nonneg)]
          exact List.length_take_le _ _
        simp [respPackExtent, respPack, ascii]
        omega
  all_goals
    simp [respPackExtent, respPack, ascii]
    omega

/-- The bytes that are counted are among those that are written. -/
theorem respPack_length_le_extent (reply : RespReply) :
    (respPack reply).length ≤ respPackExtent reply := by
  obtain ⟨status, body, bodyLen⟩ := reply
  cases status <;> cases body <;> simp [respPackExtent, respPack]

end Kivo.Resp.Reply
