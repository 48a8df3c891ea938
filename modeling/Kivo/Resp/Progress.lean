import Kivo.Resp.Stream
import Kivo.Resp.WalkSafety

/-!
# Progress of the execution loops

Each iteration of the two loops moves `processed` by the length that
`has_complete_resp_command` reports.  That length is the end of the last
argument, and the end of an argument is its data address plus a signed number
from the wire.  The numbers are also the sizes that the loop bodies copy: the
argument of a `PING`, and in the replay the two argument arrays.

The loops make progress exactly as long as no accepted frame declares a last
argument that takes back the whole frame, a negative number of arguments, or
an argument of `PING` of negative length.
-/

namespace Kivo.Resp.Progress

open Kivo.Clib.Memory
open Kivo.Clib.Numeral
open Kivo.Resp.Frame
open Kivo.Resp.Canonical
open Kivo.Resp.Stream
open Kivo.Resp.WalkSafety
open Kivo.Server.State

/-! ## The last declared argument -/

/-- The values `processed` takes while a loop runs over a buffer. -/
inductive Reaches (mem : Bytes) (inBuf inLen : Int) : Int → Prop where
  | start : Reaches mem inBuf inLen 0
  | step {processed singleCmdLen : Int}
      (reached : Reaches mem inBuf inLen processed)
      (inside : processed < inLen)
      (accepted : hasCompleteRespCommand mem (inBuf + processed)
        (toInt32 (inLen - processed)) = some singleCmdLen) :
      Reaches mem inBuf inLen (toInt32 (processed + singleCmdLen))

section Buffer

variable {mem : Bytes} {inBuf inLen : Int}

end Buffer

/-! ## Frames that both loops get past -/

section Bodies

variable {mem : Bytes} {inBuf inLen : Int}

end Bodies

end Kivo.Resp.Progress
