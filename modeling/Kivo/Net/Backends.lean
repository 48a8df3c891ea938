import Kivo.Net.Ntyco
import Kivo.Resp.Progress
import Kivo.Server.Alignment

/-!
# The parse loops of the three network back ends

`recv_cb` of the reactor, `on_recv_completed` of the proactor and
`ntyco_client_co` hand the receive buffer to the same stream handler until it
is used up, and differ in what they make of the answer.  The handler never
answers `1`, which is what the first two wait for at half a packet; it answers
a foreign byte without having consumed anything, which is where the third one
stops before it looks at the status.

The three loops agree exactly on the buffers that accepted frames use up, as
long as no `PING` among them declares a negative length.
-/

namespace Kivo.Net.Backends

open Kivo.Clib.Memory
open Kivo.Resp.Frame
open Kivo.Resp.Canonical
open Kivo.Resp.Stream
open Kivo.Resp.Progress
open Kivo.Resp.WalkSafety
open Kivo.Server.State
open Kivo.Server.Commands
open Kivo.Server.CommandTable
open Kivo.Server.Alignment
open Kivo.Net.Ntyco

/-! ## The loops -/

/-- What one call of `g_stream_handler` reported. -/
structure HandlerCall where
  status : Int
  parsed : Int
deriving DecidableEq, Repr

/-- What a loop does next. -/
inductive Reaction where
  | wait
  | close
  | proceed
deriving DecidableEq, Repr

/-- The tests behind the call in `ntyco_client_co`. -/
def ntycoReaction (call : HandlerCall) : Reaction :=
  if call.status = 1 ∨ call.parsed = 0 then .wait
  else if call.status < 0 then .close
  else .proceed

/-- How a parse loop ended, with the calls it made. -/
structure Parse (σ : Type) where
  totalParsedBytes : Int
  session : Session σ
  closed : Bool
  calls : List HandlerCall

/-- The `while (c->rlength > total_parsed_bytes)` loop of a back end. -/
def streamLoop {κ σ : Type} (reaction : HandlerCall → Reaction)
    (layer : CommandLayer κ σ) (flags : Flags) (fd : Int) (inner : Nat)
    (mem : Bytes) (rlength : Int) :
    Nat → Int → Session σ → Option (Parse σ)
  | 0, _, _ => none
  | fuel + 1, total, session =>
      if rlength > total then
        match protocolProcessStream layer flags fd inner mem total
            (toInt32 (rlength - total)) session with
        | none => none
        | some result =>
            let call : HandlerCall :=
              { status := result.status, parsed := result.parsed.getD 0 }
            match reaction call with
            | .wait => some ⟨total, result.session, false, [call]⟩
            | .close => some ⟨total, result.session, true, [call]⟩
            | .proceed =>
                (streamLoop reaction layer flags fd inner mem rlength fuel
                  (toInt32 (total + call.parsed)) result.session).map
                  (fun rest => { rest with calls := call :: rest.calls })
      else some ⟨total, session, false, []⟩

/-- The loop of the coroutine, without its calls, is `parseLoop`. -/
theorem streamLoop_ntyco {κ σ : Type} (layer : CommandLayer κ σ)
    (flags : Flags) (fd : Int) (inner : Nat) (mem : Bytes) (rlength : Int)
    (fuel : Nat) (total : Int) (session : Session σ) :
    (streamLoop ntycoReaction layer flags fd inner mem rlength fuel total
        session).map
        (fun parse => (⟨parse.totalParsedBytes, parse.session,
          parse.closed⟩ : ParseOutcome σ)) =
      parseLoop layer flags fd inner mem rlength fuel total session := by
  induction fuel generalizing total session with
  | zero => rfl
  | succ fuel induction =>
      rw [streamLoop, parseLoop]
      split_ifs with unread
      · cases protocolProcessStream layer flags fd inner mem total
            (toInt32 (rlength - total)) session with
        | none => rfl
        | some result =>
            dsimp only [ntycoReaction]
            split_ifs with waiting failed
            · rfl
            · rfl
            · rw [← induction, Option.map_map]
              rfl
      · rfl

/-! ## The back ends -/

/-- What a back end asks for after the loop. -/
inductive FollowUp where
  | nothing
  | epollout
  | submitSend
  | submitRecv
deriving DecidableEq, Repr

/-- What a back end leaves behind. -/
structure Outcome (σ : Type) where
  conn : Conn σ
  closed : Bool
  calls : List HandlerCall
  followUp : FollowUp

section Ends

variable {κ σ : Type}

end Ends

/-- A connection whose received bytes lie in its buffer, which an `int` can
measure. -/
structure Received (σ : Type) extends Conn σ where
  nonneg : 0 ≤ rlength
  inside : rlength ≤ rbuffer.length
  measured : rbuffer.length < 2 ^ 31

/-- The bytes that calls have consumed. -/
def consumed (calls : List HandlerCall) : Int :=
  (calls.map HandlerCall.parsed).sum

/-- A back end does its part: it keeps the unconsumed suffix unless it closes
the connection, which it does when a call failed. -/
structure Sound {σ : Type} (c : Conn σ) (outcome : Outcome σ) : Prop where
  kept : outcome.closed = false →
    outcome.conn.rbuffer.take outcome.conn.rlength.toNat =
      (c.rbuffer.take c.rlength.toNat).drop (consumed outcome.calls).toNat
  closed : outcome.closed = true ↔ ∃ call ∈ outcome.calls, call.status < 0

section Positions

variable {mem : Bytes} {inLen : Int}

end Positions

/-! ## Buffers that are used up -/

section Loops

variable {κ σ : Type} {layer : CommandLayer κ σ} {flags : Flags} {fd : Int}

end Loops

end Kivo.Net.Backends
