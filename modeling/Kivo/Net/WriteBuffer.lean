import Kivo.Clib.Simulation
import Kivo.Net.Ntyco

/-!
# The replies to a pipeline

All commands that one receive buffer holds are answered before anything is sent:
`resp_pack_with_realloc` appends each reply to the write buffer of the
connection.  The length, the capacity and the size that is needed are `int`s.

The buffer counts its bytes and holds them, from one call to the next, exactly
while the size that is needed stays an `int`, or the reply fits without it.
-/

namespace Kivo.Net.WriteBuffer

open Kivo.Clib.Memory
open Kivo.Clib.Simulation
open Kivo.Resp.Frame
open Kivo.Resp.Reply
open Kivo.Resp.Stream
open Kivo.Net.Ntyco

/-- The write buffer of a new connection. -/
def freshBuffer : WriteBuffer :=
  { bytes := [], wcap := initBufferSize, wlen := 0, overrun := false }

/-- One call of `resp_pack_with_realloc`. -/
def packStep (wbuf : WriteBuffer) (reply : RespReply) : WriteBuffer × Unit :=
  (respPackWithRealloc wbuf reply, ())

/-- The write buffer after the replies to a pipeline. -/
def packed (replies : List RespReply) : WriteBuffer :=
  (run packStep freshBuffer replies).1

/-- The longest body, of 16 MiB. -/
def maxBody : Nat :=
  16 * 1024 * 1024

/-- The length is the number of bytes that were appended, they are within the
capacity, and nothing was ever written outside of it. -/
structure Accounted (replies : List RespReply) : Prop where
  counted : (packed replies).wlen = ((replies.map respPack).flatten.length : Int)
  within : (packed replies).wlen ≤ (packed replies).wcap
  inside : (packed replies).overrun = false

/-- A body of at most 16 MiB, counted by `body_len`. -/
def Sized (reply : RespReply) : Prop :=
  reply.bodyLen = (reply.body.getD []).length ∧ reply.bodyLen ≤ maxBody

instance (reply : RespReply) : Decidable (Sized reply) :=
  inferInstanceAs (Decidable (_ ∧ _))

/-- The size that is needed is an `int`, or the reply, with the NUL that
`sprintf` leaves behind it, fits as it is. -/
def Fits (wbuf : WriteBuffer) (reply : RespReply) : Prop :=
  wbuf.wlen + 1024 + reply.bodyLen < 2 ^ 31 ∨
    wbuf.wlen + respPackExtent reply ≤ wbuf.wcap

instance (wbuf : WriteBuffer) (reply : RespReply) :
    Decidable (Fits wbuf reply) :=
  inferInstanceAs (Decidable (_ ∨ _))

/-! ## One call -/

/-- What a buffer in order keeps. -/
structure InOrder (wbuf : WriteBuffer) : Prop where
  counted : wbuf.wlen = wbuf.bytes.length
  within : wbuf.wlen ≤ wbuf.wcap
  int : wbuf.wcap < 2 ^ 31
  inside : wbuf.overrun = false

theorem freshBuffer_inOrder : InOrder freshBuffer where
  counted := rfl
  within := by decide
  int := by decide
  inside := rfl

theorem Sized.nonneg {reply : RespReply} (sized : Sized reply) :
    0 ≤ reply.bodyLen := by
  rw [sized.1]
  exact Int.natCast_nonneg _

theorem Sized.not_runaway {reply : RespReply} (sized : Sized reply) :
    ¬ reply.Runaway :=
  fun runaway => absurd runaway.2.2 (Int.not_lt.mpr sized.nonneg)

/-- A reply was written inside the buffer where the capacity holds it. -/
theorem overrun_eq_false_iff {wbuf : WriteBuffer} {reply : RespReply} :
    (respPackWithRealloc wbuf reply).overrun = false ↔
      wbuf.overrun = false ∧ ¬ reply.Runaway ∧
        wbuf.wlen + respPackExtent reply ≤
          (respPackWithRealloc wbuf reply).wcap := by
  show (wbuf.overrun || decide reply.Runaway ||
    decide ((respPackWithRealloc wbuf reply).wcap <
      wbuf.wlen + respPackExtent reply)) = false ↔ _
  rw [Bool.or_eq_false_iff, Bool.or_eq_false_iff, decide_eq_false_iff_not,
    decide_eq_false_iff_not, Int.not_lt, and_assoc]

theorem wcap_int {wbuf : WriteBuffer} (int : wbuf.wcap < 2 ^ 31)
    (reply : RespReply) : (respPackWithRealloc wbuf reply).wcap < 2 ^ 31 := by
  have needed := toInt32_bounds (wbuf.wlen + 1024 + max reply.bodyLen 0)
  have doubled := toInt32_bounds (wbuf.wcap * 2)
  simp only [respPackWithRealloc]
  split_ifs <;> omega

/-- A reply that is written inside the buffer leaves it in order. -/
theorem InOrder.kept {wbuf : WriteBuffer} {reply : RespReply}
    (inOrder : InOrder wbuf)
    (intact : (respPackWithRealloc wbuf reply).overrun = false) :
    InOrder (respPackWithRealloc wbuf reply) := by
  obtain ⟨counted, within, int, inside⟩ := inOrder
  have room := (overrun_eq_false_iff.mp intact).2.2
  have capacity := wcap_int int reply
  have length := respPack_length_le_extent reply
  have sum : toInt32 (wbuf.wlen + (respPack reply).length) =
      wbuf.wlen + (respPack reply).length :=
    toInt32_of_range (by omega) (by omega)
  refine ⟨?_, ?_, capacity, intact⟩
  · show toInt32 (wbuf.wlen + (respPack reply).length) =
      ((wbuf.bytes ++ respPack reply).length : Int)
    rw [sum, counted, List.length_append]
    push_cast
    rfl
  · show toInt32 (wbuf.wlen + (respPack reply).length) ≤ _
    rw [sum]
    omega

/-- A reply that fits leaves the buffer in order. -/
theorem InOrder.pack {wbuf : WriteBuffer} {reply : RespReply}
    (inOrder : InOrder wbuf) (sized : Sized reply)
    (fits : Fits wbuf reply) : InOrder (respPackWithRealloc wbuf reply) := by
  refine inOrder.kept (overrun_eq_false_iff.mpr
    ⟨inOrder.inside, sized.not_runaway, ?_⟩)
  have counted := inOrder.counted
  have nonneg := sized.nonneg
  have small := sized.2
  simp only [maxBody] at small
  have extent := respPackExtent_le nonneg (by omega)
  simp only [respPackWithRealloc]
  rcases fits with grows | already
  · rw [max_eq_left nonneg, toInt32_of_range (by omega) grows]
    split_ifs <;> omega
  · split_ifs <;> omega

/-- A reply that does not fit is written over the end: the size that is needed
wraps around, and the buffer does not grow. -/
theorem InOrder.overruns {wbuf : WriteBuffer} {reply : RespReply}
    (inOrder : InOrder wbuf) (sized : Sized reply)
    (large : ¬ Fits wbuf reply) :
    (respPackWithRealloc wbuf reply).overrun = true := by
  obtain ⟨counted, within, int, -⟩ := inOrder
  have small := sized.2
  simp only [Fits, not_or, Int.not_lt, Int.not_le] at large
  simp only [maxBody] at small
  have wrapped : toInt32 (wbuf.wlen + 1024 + max reply.bodyLen 0) =
      wbuf.wlen + 1024 + reply.bodyLen - 2 ^ 32 := by
    rw [max_eq_left sized.nonneg]
    exact toInt32_of_wrapped large.1 (by omega)
  simp only [respPackWithRealloc, wrapped]
  rw [if_neg (by omega), decide_eq_true large.2, Bool.or_true]

/-! ## A whole pipeline -/

theorem packed_append (front : List RespReply) (reply : RespReply) :
    packed (front ++ [reply]) = respPackWithRealloc (packed front) reply := by
  rw [packed, run_append]
  rfl

theorem packed_bytes (replies : List RespReply) :
    (packed replies).bytes = (replies.map respPack).flatten := by
  induction replies using List.reverseRecOn with
  | nil => rfl
  | append_singleton front reply induction =>
      rw [packed_append, List.map_append, List.flatten_append, ← induction]
      simp [respPackWithRealloc]

theorem packed_wcap (replies : List RespReply) :
    (packed replies).wcap < 2 ^ 31 := by
  induction replies using List.reverseRecOn with
  | nil => decide
  | append_singleton front reply induction =>
      rw [packed_append]
      exact wcap_int induction reply

theorem accounted_iff_inOrder (replies : List RespReply) :
    Accounted replies ↔ InOrder (packed replies) := by
  constructor
  · rintro ⟨counted, within, inside⟩
    rw [← packed_bytes] at counted
    exact ⟨counted, within, packed_wcap replies, inside⟩
  · rintro ⟨counted, within, -, inside⟩
    rw [packed_bytes] at counted
    exact ⟨counted, within, inside⟩

/--
The write buffer is accounted for after every reply of a pipeline exactly when
each reply, as it comes, needs a size that is an `int` or fits as it is.
-/
theorem pipeline_accounted_iff {replies : List RespReply}
    (sized : ∀ reply ∈ replies, Sized reply) :
    (∀ front, front <+: replies → Accounted front) ↔
      Along packStep Fits freshBuffer replies := by
  rw [along_iff_fronts]
  constructor
  · intro accounted front reply longer
    by_contra large
    have member : reply ∈ replies :=
      longer.subset (List.mem_append_right front (List.mem_singleton.mpr rfl))
    have before := (accounted_iff_inOrder front).mp
      (accounted front ((List.prefix_append front [reply]).trans longer))
    have overrun := before.overruns (sized reply member) large
    have inside := (accounted (front ++ [reply]) longer).inside
    rw [packed_append, overrun] at inside
    exact nomatch inside
  · intro fits front
    rw [accounted_iff_inOrder]
    induction front using List.reverseRecOn with
    | nil => exact fun _ => freshBuffer_inOrder
    | append_singleton front reply induction =>
        intro longer
        have member : reply ∈ replies :=
          longer.subset
            (List.mem_append_right front (List.mem_singleton.mpr rfl))
        rw [packed_append]
        exact (induction ((List.prefix_append front [reply]).trans longer)).pack
          (sized reply member) (fits front reply longer)

/-- The replies to `PING`, `GET` and `SET`, the second with a body. -/
def smallReplies : List RespReply :=
  [RespReply.plain .pong, RespReply.bulk (ascii "value"), RespReply.plain .ok]

/-- They fit one after the other. -/
theorem pipeline_accounted_iff_get :
    Accounted (smallReplies.take 2) ∧ Accounted smallReplies := by
  have accounted := (@pipeline_accounted_iff smallReplies (by decide)).mpr
    ⟨by decide, by decide, by decide, trivial⟩
  exact ⟨accounted _ (List.take_prefix 2 smallReplies),
    accounted _ List.prefix_rfl⟩

/-! ## The sizes alone -/

/-- The `int`s of a write buffer. -/
structure Sizes where
  wcap : Int
  wlen : Int
  overrun : Bool
deriving DecidableEq, Repr

/-- What a reply with a body does to them, from the lengths of its body and of
its bytes. -/
def Sizes.pack (sizes : Sizes) (bodyLen : Int) (length : Nat) : Sizes :=
  let needed := toInt32 (sizes.wlen + 1024 + max bodyLen 0)
  let newCap := toInt32 (sizes.wcap * 2)
  let wcap :=
    if needed > sizes.wcap then
      if newCap < needed then needed else newCap
    else sizes.wcap
  { wcap := wcap
    wlen := toInt32 (sizes.wlen + length)
    overrun := sizes.overrun || decide (wcap < sizes.wlen + length) }

/-- The sizes of a write buffer. -/
def sizesOf (wbuf : WriteBuffer) : Sizes :=
  { wcap := wbuf.wcap, wlen := wbuf.wlen, overrun := wbuf.overrun }

theorem sizesOf_overrun (wbuf : WriteBuffer) :
    (sizesOf wbuf).overrun = wbuf.overrun :=
  rfl

/-- Equal replies, counted in sizes. -/
def Sizes.repeated (bodyLen : Int) (length : Nat) : Nat → Sizes → Sizes
  | 0, sizes => sizes
  | count + 1, sizes =>
      Sizes.repeated bodyLen length count (sizes.pack bodyLen length)

theorem sizesOf_pack {reply : RespReply} (sized : Sized reply)
    (whole : respPackExtent reply = (respPack reply).length)
    (wbuf : WriteBuffer) :
    sizesOf (respPackWithRealloc wbuf reply) =
      (sizesOf wbuf).pack reply.bodyLen (respPack reply).length := by
  simp only [sizesOf, Sizes.pack, respPackWithRealloc, whole,
    decide_eq_false sized.not_runaway, Bool.or_false]
  rfl

theorem sizesOf_repeated {reply : RespReply} (sized : Sized reply)
    (whole : respPackExtent reply = (respPack reply).length) (count : Nat)
    (wbuf : WriteBuffer) :
    sizesOf (run packStep wbuf (List.replicate count reply)).1 =
      Sizes.repeated reply.bodyLen (respPack reply).length count
        (sizesOf wbuf) := by
  induction count generalizing wbuf with
  | zero => rfl
  | succ count induction =>
      rw [Sizes.repeated, ← sizesOf_pack sized whole]
      exact induction (respPackWithRealloc wbuf reply)

/-- The reply to a `GET` of 16 MiB. -/
def largestReply : RespReply :=
  RespReply.bulk (List.replicate maxBody 0)

theorem largestReply_bodyLen : largestReply.bodyLen = 16777216 := by
  rw [largestReply, RespReply.bulk, List.length_replicate]
  decide

theorem largestReply_sized : Sized largestReply := by
  refine ⟨?_, ?_⟩
  · rw [largestReply_bodyLen, largestReply, RespReply.bulk, Option.getD_some,
      List.length_replicate]
    decide
  · rw [largestReply_bodyLen]
    decide

theorem largestReply_length : (respPack largestReply).length = 16777229 := by
  have digits : (Kivo.Clib.Numeral.decimalInt 16777216).length = 8 := by
    decide +kernel
  have body : (copied (List.replicate maxBody 0) 16777216).length =
      16777216 := by
    rw [copied, if_neg (by decide), List.length_take, List.length_replicate]
    decide
  have number := largestReply_bodyLen
  rw [largestReply, RespReply.bulk] at number ⊢
  simp only at number
  simp only [respPack, number, List.length_append, digits, body]
  rfl

/--
A pipeline of 128 `GET`s of the largest value is 2560 bytes in the receive
buffer; the last of its replies is written behind the write buffer.
-/
theorem pipeline_overruns :
    (respStream (List.replicate 128 [ascii "GET", ascii "k"])).length = 2560 ∧
      (∀ reply ∈ List.replicate 128 largestReply, Sized reply) ∧
      (packed (List.replicate 128 largestReply)).overrun = true ∧
      ¬ Accounted (List.replicate 128 largestReply) := by
  have overrun : (packed (List.replicate 128 largestReply)).overrun =
      true := by
    have sizes := sizesOf_repeated largestReply_sized rfl 128 freshBuffer
    rw [largestReply_bodyLen, largestReply_length] at sizes
    rw [packed, ← sizesOf_overrun, sizes]
    decide +kernel
  refine ⟨by decide +kernel, ?_, overrun, ?_⟩
  · intro reply member
    rw [List.eq_of_mem_replicate member]
    exact largestReply_sized
  · intro accounted
    rw [accounted.inside] at overrun
    exact nomatch overrun

end Kivo.Net.WriteBuffer
