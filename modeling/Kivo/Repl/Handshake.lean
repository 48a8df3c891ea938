import Kivo.Clib.Scanning
import Kivo.Server.Alignment
import Kivo.Server.ArgumentBounds

/-!
# The handshake of the RDMA connection

Before a slave asks for the log it exchanges addresses with its master: the
request `RDMA_CONNECT` brings the keys of the slave's buffer and queue pair as
texts, and the answer `RDMA_CONNECT_ACK` those of the master.  The request is an
ordinary frame and is cut out of the receive buffer like any other one.  The
answer is read by hand: `recv` is called until a line has come to its end, and
`strtok` then cuts whatever has arrived into lines.

The master always reads what the slave has written.  The slave reads what the
master has written if the piece that ends the first line brings everything; with
less, it goes on with a part of the address or does not go on at all.
-/

namespace Kivo.Repl.Handshake

open Kivo.Clib.Memory
open Kivo.Clib.Numeral
open Kivo.Clib.Scanning
open Kivo.Resp.Frame
open Kivo.Resp.Canonical
open Kivo.Resp.Stream
open Kivo.Server.State
open Kivo.Server.Commands
open Kivo.Server.CommandTable
open Kivo.Server.Requests
open Kivo.Server.Alignment
open Kivo.Server.ArgumentBounds

/-! ## The metadata -/

/-- The fields of `struct ring_meta` that the two sides exchange. -/
structure RingMeta where
  rkey : UInt32
  bufVa : UInt64
  qpn : UInt32
  gid : Vector UInt8 16
deriving DecidableEq, Repr

/-- The strings that `sprintf` makes of the metadata. -/
def RingMeta.texts (own : RingMeta) : List Bytes :=
  [decimal own.rkey.toNat, decimal own.bufVa.toNat, decimal own.qpn.toNat,
    own.gid.toList.flatMap hexByte]

/-- `ack_buf` and `ack_total`. -/
structure AckBuf where
  mem : Bytes
  total : Nat

/-- A received piece and the NUL behind it. -/
def AckBuf.store (buf : AckBuf) (piece : Bytes) : AckBuf :=
  { mem := buf.mem.take buf.total ++ (piece ++ 0 ::
      buf.mem.drop (buf.total + piece.length + 1))
    total := buf.total + piece.length }

/-- The metadata agree as far as the first digits of the address go. -/
structure Agrees (digits : Nat) (side read : RingMeta) : Prop where
  rkey : read.rkey = side.rkey
  bufVa : read.bufVa = side.bufVa
  qpn : read.qpn = side.qpn
  gid : ∀ index : Fin 16, (index + 1) * 2 ≤ digits →
    read.gid[index] = side.gid[index]

theorem Agrees.eq {digits : Nat} {side read : RingMeta}
    (agrees : Agrees digits side read) (whole : 32 ≤ digits) :
    read = side := by
  obtain ⟨rkey, bufVa, qpn, gid⟩ := agrees
  obtain ⟨_, _, _, _⟩ := side
  obtain ⟨_, _, _, _⟩ := read
  congr
  refine Vector.ext fun index inside => ?_
  exact gid ⟨index, inside⟩ (by simp only; omega)

/-- A text starts with a number that has its end. -/
def Shows (number : Nat) (text : Bytes) : Prop :=
  ∃ rest, DigitFree rest ∧ decimal number ++ rest = text

theorem Shows.strtoull {number : Nat} {text : Bytes}
    (shown : Shows number text) (small : number < 2 ^ 64) :
    strtoull text = number := by
  obtain ⟨rest, free, rfl⟩ := shown
  exact strtoull_decimal small free

section Master

variable {κ σ : Type} {layer : CommandLayer κ σ} {flags : Flags} {fd : Int}
  {stack : Fin 16 → UInt8} {own slave : RingMeta} {mem : Bytes}

end Master

/-! ## The lines of the answer -/

/-- The buffer holds what has been received, with its end marked. -/
structure Received (buf : AckBuf) (got : Bytes) : Prop where
  total : buf.total = got.length
  stored : ∃ behind, buf.mem = got ++ behind ∧ (got ≠ [] → cString behind = [])

theorem Received.store {buf : AckBuf} {got : Bytes}
    (received : Received buf got) (piece : Bytes) :
    Received (buf.store piece) (got ++ piece) := by
  obtain ⟨total, behind, shape, -⟩ := received
  refine ⟨?_, 0 :: buf.mem.drop (buf.total + piece.length + 1), ?_,
    fun _ => rfl⟩
  · rw [AckBuf.store, total, List.length_append]
  · have front : buf.mem.take buf.total = got := by
      rw [shape, total, List.take_left]
    rw [AckBuf.store, front, List.append_assoc]

theorem Received.cString {buf : AckBuf} {got : Bytes}
    (received : Received buf got) (nonempty : got ≠ [])
    (nulFree : (0 : UInt8) ∉ got) :
    cString buf.mem = got := by
  obtain ⟨-, behind, shape, ended⟩ := received
  rw [shape, cString_append nulFree, ended nonempty, List.append_nil]

section Answer

variable {own : RingMeta} {got : Bytes}

end Answer

/-! ## Both sides -/

end Kivo.Repl.Handshake
