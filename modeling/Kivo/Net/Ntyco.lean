import Kivo.Resp.Stream

/-!
# The receive loop of a coroutine connection

`ntyco_client_co` keeps received bytes at the front of a growing buffer,
hands them to `protocol_process_stream` until nothing more is parsed, and
moves the remainder to the front.  The buffer is modelled with its whole
capacity, so that bytes left over from earlier commands and bytes that a
reallocation exposes are present behind the received ones.

The theorem of this module is that the way the network cuts the stream does
not matter: after any sequence of receive results the commands carried out are
the complete ones among the received bytes, and the buffer holds the rest.
-/

namespace Kivo.Net.Ntyco

open Kivo.Clib.Memory
open Kivo.Resp.Frame
open Kivo.Resp.Canonical
open Kivo.Resp.Reply
open Kivo.Resp.Stream
open Kivo.Server.State

/-! ## The connection -/

/-- `INIT_BUFFER_SIZE`. -/
def initBufferSize : Int := 4096

/-- `MAX_RBUFFER_SIZE`. -/
def maxRbufferSize : Int := 16 * 1024 * 1024

/-- The receiving half of `struct conn`, and the bytes handed to `send`. -/
structure Conn (σ : Type) where
  rbuffer : Bytes
  rcapacity : Int
  rlength : Int
  session : Session σ
  sent : Bytes

/-- The connection at the start of the coroutine, over fresh memory. -/
def Conn.initial {σ : Type} (fresh : Nat → UInt8) (session : Session σ) :
    Conn σ :=
  { rbuffer := (List.range initBufferSize.toNat).map fresh
    rcapacity := initBufferSize
    rlength := 0
    session := session
    sent := [] }

/-- The result of one `recv` call. -/
inductive RecvResult where
  | data (chunk : Bytes)
  | wouldBlock

/-- `kvs_realloc` of the receive buffer; the added bytes are arbitrary. -/
def growTo (fresh : Nat → UInt8) (buffer : Bytes) (newCapacity : Int) : Bytes :=
  buffer ++ (List.range (newCapacity.toNat - buffer.length)).map fresh

/-- The growth step in front of `recv`. -/
def Conn.grow {σ : Type} (fresh : Nat → UInt8) (c : Conn σ) : Conn σ :=
  if c.rcapacity - c.rlength < 65536 ∧ c.rcapacity < maxRbufferSize then
    let doubled := toInt32 (c.rcapacity * 2)
    let newCapacity := if doubled < 65536 then 65536 else doubled
    { c with
      rbuffer := growTo fresh c.rbuffer newCapacity
      rcapacity := newCapacity }
  else c

/-- The length argument of the `recv` call. -/
def Conn.requested {σ : Type} (c : Conn σ) : Int :=
  c.rcapacity - c.rlength

/-- `recv` stores a chunk behind the bytes already received. -/
def Conn.store {σ : Type} (c : Conn σ) (chunk : Bytes) : Conn σ :=
  { c with
    rbuffer := c.rbuffer.take c.rlength.toNat ++ chunk ++
      c.rbuffer.drop (c.rlength.toNat + chunk.length)
    rlength := toInt32 (c.rlength + chunk.length) }

/-- How the parse loop of one iteration ended. -/
structure ParseOutcome (σ : Type) where
  totalParsedBytes : Int
  session : Session σ
  closed : Bool

/-- The `while (c->rlength > total_parsed_bytes)` loop. -/
def parseLoop {κ σ : Type} (layer : CommandLayer κ σ) (flags : Flags)
    (fd : Int) (inner : Nat) (mem : Bytes) (rlength : Int) :
    Nat → Int → Session σ → Option (ParseOutcome σ)
  | 0, _, _ => none
  | fuel + 1, total, session =>
      if rlength > total then
        match protocolProcessStream layer flags fd inner mem total
            (toInt32 (rlength - total)) session with
        | none => none
        | some result =>
            let parsed := result.parsed.getD 0
            if result.status = 1 ∨ parsed = 0 then
              some { totalParsedBytes := total
                     session := result.session
                     closed := false }
            else if result.status < 0 then
              some { totalParsedBytes := total
                     session := result.session
                     closed := true }
            else
              parseLoop layer flags fd inner mem rlength fuel
                (toInt32 (total + parsed)) result.session
      else
        some { totalParsedBytes := total
               session := session
               closed := false }

/-- The `memmove` of the unparsed remainder to the front. -/
def Conn.compact {σ : Type} (c : Conn σ) (total : Int) : Conn σ :=
  if 0 < total then
    let remaining := toInt32 (c.rlength - total)
    { c with
      rbuffer :=
        if 0 < remaining then
          (c.rbuffer.drop total.toNat).take remaining.toNat ++
            c.rbuffer.drop remaining.toNat
        else c.rbuffer
      rlength := remaining }
  else c

/-- Send the pending replies and empty the write buffer.  The result of `send`
is not looked at: the socket is taken to accept all bytes, as the `send` of a
coroutine does while its peer is connected. -/
def Conn.flushReplies {σ : Type} (c : Conn σ) : Conn σ :=
  match c.session.wbuf with
  | none => c
  | some wbuf =>
      if 0 < wbuf.wlen then
        { c with
          sent := c.sent ++ wbuf.bytes
          session :=
            { c.session with
              wbuf := some { wbuf with bytes := [], wlen := 0 } } }
      else c

/-- How one iteration of the outer loop ended. -/
inductive Iteration (σ : Type) where
  | stalled
  | closed
  | continued (c : Conn σ)

/--
One iteration of the outer loop of `ntyco_client_co`; `none` says that a
parse loop exceeded its fuel.
-/
def clientIteration {κ σ : Type} (layer : CommandLayer κ σ) (flags : Flags)
    (fd : Int) (fuel : Nat) (fresh : Nat → UInt8) (result : RecvResult)
    (c : Conn σ) : Option (Iteration σ) :=
  if c.rlength ≥ maxRbufferSize then some .stalled
  else
    let grown := c.grow fresh
    match result with
    | .wouldBlock => some (.continued grown)
    | .data chunk =>
        if chunk.length = 0 then some .closed
        else
          let received := grown.store chunk
          (parseLoop layer flags fd fuel received.rbuffer received.rlength
            fuel 0 received.session).map
            (fun outcome =>
              if outcome.closed then .closed
              else
                .continued
                  ({ received with session := outcome.session }.compact
                    outcome.totalParsedBytes).flushReplies)

theorem parseLoop_mono {κ σ : Type} {layer : CommandLayer κ σ}
    {flags : Flags} {fd : Int} {inner inner' : Nat} {mem : Bytes}
    {rlength total : Int} {fuel fuel' : Nat} {session : Session σ}
    {outcome : ParseOutcome σ}
    (ended : parseLoop layer flags fd inner mem rlength fuel total session =
      some outcome)
    (moreInner : inner ≤ inner') (more : fuel ≤ fuel') :
    parseLoop layer flags fd inner' mem rlength fuel' total session =
      some outcome := by
  induction fuel generalizing total session fuel' with
  | zero => cases ended
  | succ fuel induction =>
      obtain ⟨fuel', rfl⟩ : ∃ rest, fuel' = rest + 1 :=
        ⟨fuel' - 1, by omega⟩
      rw [parseLoop] at ended ⊢
      split_ifs at ended ⊢ with unread
      · split at ended
        · cases ended
        · next result call =>
            rw [protocolProcessStream_mono call moreInner]
            dsimp only at ended ⊢
            split_ifs at ended ⊢ with stuck failed
            · exact ended
            · exact ended
            · exact induction ended (by omega)
      · exact ended

/-- An iteration that ended within its fuel ends alike with more fuel. -/
theorem clientIteration_mono {κ σ : Type} {layer : CommandLayer κ σ}
    {flags : Flags} {fd : Int} {fuel larger : Nat} {fresh : Nat → UInt8}
    {result : RecvResult} {c : Conn σ} {iteration : Iteration σ}
    (ended : clientIteration layer flags fd fuel fresh result c =
      some iteration)
    (more : fuel ≤ larger) :
    clientIteration layer flags fd larger fresh result c =
      some iteration := by
  rw [clientIteration] at ended ⊢
  split_ifs at ended ⊢ with full
  · exact ended
  · cases result with
    | wouldBlock => exact ended
    | data chunk =>
        dsimp only at ended ⊢
        split_ifs at ended ⊢ with closed
        · exact ended
        · obtain ⟨outcome, loop, shape⟩ := Option.map_eq_some_iff.mp ended
          rw [parseLoop_mono loop more more, Option.map_some, shape]

/-! ## Buffer capacity -/

/-- The capacities the growth step produces. -/
def Capacity (capacity : Int) : Prop :=
  capacity = initBufferSize ∨
    ∃ doublings : Nat, doublings ≤ 8 ∧ capacity = 65536 * 2 ^ doublings

theorem Capacity.bounds {capacity : Int} (valid : Capacity capacity) :
    4096 ≤ capacity ∧ capacity ≤ maxRbufferSize := by
  rcases valid with rfl | ⟨doublings, small, rfl⟩
  · simp [initBufferSize, maxRbufferSize]
  · have limit : (2 : Int) ^ doublings ≤ 2 ^ 8 :=
      pow_le_pow_right₀ (by norm_num) small
    have one : (1 : Int) ≤ 2 ^ doublings := one_le_pow₀ (by norm_num)
    simp only [maxRbufferSize]
    omega

theorem Capacity.double {capacity : Int} (valid : Capacity capacity)
    (below : capacity < maxRbufferSize) :
    Capacity (if toInt32 (capacity * 2) < 65536 then 65536
      else toInt32 (capacity * 2)) := by
  have bounds := valid.bounds
  simp only [maxRbufferSize] at below bounds
  rw [toInt32_of_range (by omega) (by omega)]
  rcases valid with rfl | ⟨doublings, small, rfl⟩
  · right
    exact ⟨0, by omega, by simp [initBufferSize]⟩
  · right
    have one : (1 : Int) ≤ 2 ^ doublings := one_le_pow₀ (by norm_num)
    have strict : doublings < 8 := by
      by_contra large
      have eight : doublings = 8 := by omega
      subst eight
      norm_num at below
    rw [if_neg (by omega)]
    exact ⟨doublings + 1, by omega, by rw [pow_succ]; ring⟩

/-- The received bytes of a connection, with its capacity facts. -/
structure Buffered {σ : Type} (c : Conn σ) (unread : Bytes) : Prop where
  capacity : Capacity c.rcapacity
  allocated : (c.rbuffer.length : Int) = c.rcapacity
  length : c.rlength = unread.length
  content : unread <+: c.rbuffer

theorem Buffered.rlength_le {σ : Type} {c : Conn σ} {unread : Bytes}
    (buffered : Buffered c unread) :
    c.rlength ≤ c.rcapacity := by
  have inside := buffered.content.length_le
  rw [buffered.length, ← buffered.allocated]
  exact_mod_cast inside

/-- Growing keeps the received bytes. -/
theorem Buffered.grow {σ : Type} {c : Conn σ} {unread : Bytes}
    (buffered : Buffered c unread) (fresh : Nat → UInt8) :
    Buffered (c.grow fresh) unread := by
  rw [Conn.grow]
  split_ifs with needed
  · have valid := buffered.capacity.double needed.2
    have bounds := buffered.capacity.bounds
    have grownBounds := valid.bounds
    have larger : c.rcapacity ≤
        if toInt32 (c.rcapacity * 2) < 65536 then 65536
          else toInt32 (c.rcapacity * 2) := by
      simp only [maxRbufferSize] at needed bounds
      rw [toInt32_of_range (by omega) (by omega)]
      split_ifs <;> omega
    refine ⟨valid, ?_, buffered.length, ?_⟩
    · have allocated := buffered.allocated
      simp only [growTo, List.length_append, List.length_map,
        List.length_range]
      push_cast
      omega
    · exact buffered.content.trans (List.prefix_append _ _)
  · exact buffered

@[simp]
theorem Conn.grow_session {σ : Type} (fresh : Nat → UInt8) (c : Conn σ) :
    (c.grow fresh).session = c.session := by
  rw [Conn.grow]
  split_ifs <;> rfl

/-- A stored chunk follows the bytes already received. -/
theorem Buffered.store {σ : Type} {c : Conn σ} {unread chunk : Bytes}
    (buffered : Buffered c unread)
    (fits : (chunk.length : Int) ≤ c.requested) :
    Buffered (c.store chunk) (unread ++ chunk) := by
  have bounds := buffered.capacity.bounds
  have length := buffered.length
  have allocated := buffered.allocated
  simp only [maxRbufferSize] at bounds
  rw [Conn.requested] at fits
  have front : c.rbuffer.take c.rlength.toNat = unread := by
    have index : c.rlength.toNat = unread.length := by omega
    rw [index]
    exact (List.prefix_iff_eq_take.mp buffered.content).symm
  refine ⟨buffered.capacity, ?_, ?_, ?_⟩
  · simp only [Conn.store, front, List.length_append, List.length_drop]
    push_cast
    omega
  · simp only [Conn.store, List.length_append]
    rw [toInt32_of_range (by omega) (by omega)]
    push_cast
    omega
  · simp only [Conn.store, front]
    exact List.prefix_append _ _

/-- Moving the remainder to the front keeps exactly the remainder. -/
theorem Buffered.compact {σ : Type} {c : Conn σ} {parsed unread : Bytes}
    (buffered : Buffered c (parsed ++ unread)) :
    Buffered (c.compact parsed.length) unread := by
  have bounds := buffered.capacity.bounds
  have inside := buffered.rlength_le
  have length := buffered.length
  have allocated := buffered.allocated
  simp only [maxRbufferSize] at bounds
  rw [List.length_append] at length
  push_cast at length
  rw [Conn.compact]
  split_ifs with some
  · have remaining : toInt32 (c.rlength - parsed.length) = unread.length := by
      rw [toInt32_of_range (by omega) (by omega)]
      omega
    obtain ⟨behind, shape⟩ := buffered.content
    have moved : (c.rbuffer.drop (parsed.length : Int).toNat).take
        unread.length = unread := by
      rw [← shape]
      simp
    rw [List.append_assoc] at shape
    refine ⟨buffered.capacity, ?_, remaining, ?_⟩
    · simp only [remaining]
      split_ifs with any
      · simp only [Int.toNat_natCast, List.length_append, List.length_take,
          List.length_drop] at moved ⊢
        omega
      · exact allocated
    · simp only [remaining]
      split_ifs with any
      · simp only [Int.toNat_natCast] at moved ⊢
        rw [moved]
        exact List.prefix_append _ _
      · have empty : unread = [] :=
          List.eq_nil_of_length_eq_zero (by omega)
        rw [empty]
        exact List.nil_prefix
  · have empty : parsed = [] :=
      List.eq_nil_of_length_eq_zero (by omega)
    subst empty
    exact buffered

theorem Buffered.flushReplies {σ : Type} {c : Conn σ} {unread : Bytes}
    (buffered : Buffered c unread) :
    Buffered c.flushReplies unread := by
  rw [Conn.flushReplies]
  split
  · exact buffered
  · split_ifs
    · exact ⟨buffered.capacity, buffered.allocated, buffered.length,
        buffered.content⟩
    · exact buffered

@[simp]
theorem Conn.flushReplies_executed {σ : Type} (c : Conn σ) :
    c.flushReplies.session.executed = c.session.executed := by
  rw [Conn.flushReplies]
  split
  · rfl
  · split_ifs <;> rfl

@[simp]
theorem Conn.flushReplies_globals {σ : Type} (c : Conn σ) :
    c.flushReplies.session.globals = c.session.globals := by
  rw [Conn.flushReplies]
  split
  · rfl
  · split_ifs <;> rfl

@[simp]
theorem Conn.compact_session {σ : Type} (c : Conn σ) (total : Int) :
    (c.compact total).session = c.session := by
  rw [Conn.compact]
  split_ifs <;> rfl

/-! ## Parsing what has been received -/

/-- The bytes of a stream prefix: complete frames, then a part of the next. -/
def PartOf (later : List (List Bytes)) (rest : Bytes) : Prop :=
  rest = [] ∨ ∃ frame others, later = frame :: others ∧
    rest <+: respEncode frame ∧ rest ≠ respEncode frame

theorem respStream_prefix_split {todo : List (List Bytes)} {text : Bytes}
    (initial : text <+: respStream todo) :
    ∃ now later rest, todo = now ++ later ∧
      text = respStream now ++ rest ∧ PartOf later rest := by
  induction todo generalizing text with
  | nil =>
      exact ⟨[], [], [], rfl, List.prefix_nil.mp initial, Or.inl rfl⟩
  | cons frame others induction =>
      rw [respStream_cons] at initial
      by_cases within : text.length < (respEncode frame).length
      · have first : text <+: respEncode frame :=
          List.prefix_of_prefix_length_le initial
            (List.prefix_append _ _) within.le
        refine ⟨[], frame :: others, text, rfl, by simp [respStream], ?_⟩
        exact Or.inr ⟨frame, others, rfl, first, fun equal => by
          rw [equal] at within
          exact lt_irrefl _ within⟩
      · obtain ⟨tail, rfl⟩ : respEncode frame <+: text :=
          List.prefix_of_prefix_length_le
            (List.prefix_append _ _) initial (by omega)
        rw [List.prefix_append_right_inj] at initial
        obtain ⟨now, later, rest, rfl, rfl, part⟩ := induction initial
        exact ⟨frame :: now, later, rest, rfl,
          by rw [respStream_cons, List.append_assoc], part⟩

theorem PartOf.tornTail {later : List (List Bytes)} {rest : Bytes}
    (part : PartOf later rest)
    (small : ∀ frame ∈ later, (respEncode frame).length < 2 ^ 31) :
    TornTail rest := by
  rcases part with rfl | ⟨frame, others, rfl, initial, proper⟩
  · exact Or.inl rfl
  · exact Or.inr ⟨frame, initial, proper, small frame (by simp)⟩

theorem respEncode_head (args : List Bytes) :
    ∃ rest, respEncode args = 42 :: rest :=
  ⟨_, rfl⟩

/-- Received bytes start with the mark of an array. -/
theorem stream_head {now later : List (List Bytes)} {rest : Bytes}
    (part : PartOf later rest) (nonempty : respStream now ++ rest ≠ []) :
    ∃ others, respStream now ++ rest = 42 :: others := by
  cases now with
  | nil =>
      rcases part with rfl | ⟨frame, others, rfl, initial, proper⟩
      · exact absurd rfl nonempty
      · obtain ⟨behind, shape⟩ := respEncode_head frame
        rw [shape] at initial
        cases rest with
        | nil => exact absurd rfl nonempty
        | cons byte rest =>
            obtain ⟨rfl, -⟩ := List.cons_prefix_cons.mp initial
            exact ⟨rest, rfl⟩
  | cons command now =>
      obtain ⟨behind, shape⟩ := respEncode_head command
      exact ⟨behind ++ respStream now ++ rest, by
        rw [respStream_cons, shape]; simp⟩

section Parse

variable {κ σ : Type} {layer : CommandLayer κ σ} {flags : Flags} {fd : Int}
variable {mem : Bytes} {now later : List (List Bytes)} {rest : Bytes}

/-- One call of the stream handler on received bytes. -/
theorem protocolProcessStream_received {address : Int} {inner : Nat}
    {session : Session σ}
    (stored : Holds mem address (respStream now ++ rest))
    (part : PartOf later rest)
    (laterSmall : ∀ frame ∈ later, (respEncode frame).length < 2 ^ 31)
    (nonempty : respStream now ++ rest ≠ [])
    (small : (respStream now ++ rest).length < 2 ^ 31)
    (enough : now.length < inner) :
    protocolProcessStream layer flags fd inner mem address
        (respStream now ++ rest).length session =
      some
        { status := 0
          parsed := some ((respStream now).length : Int)
          session := runWindows (serveCommand layer flags fd mem)
            (frameWindows address now) session } := by
  obtain ⟨others, shape⟩ := stream_head part nonempty
  have star : byteAt mem address = 42 := by
    rw [shape] at stored
    exact stored.cons.1
  have positive := List.length_pos_of_ne_nil nonempty
  have start : Holds mem (address + 0) (respStream now ++ rest) := by
    rw [Int.add_zero]
    exact stored
  have run := frameLoop_canonical
    (processCommand_canonical layer flags fd)
    session start (part.tornTail laterSmall) (by rw [Int.zero_add]) le_rfl
    (by exact_mod_cast small) enough
  rw [protocolProcessStream, if_neg (by omega), if_neg (by simp [star]), run]
  simp

/-- The parse loop consumes the complete frames and stops at the rest. -/
theorem parseLoop_received (layer : CommandLayer κ σ) (flags : Flags)
    (fd : Int) {inner fuel : Nat} (session : Session σ)
    (stored : Holds mem 0 (respStream now ++ rest))
    (part : PartOf later rest)
    (laterSmall : ∀ frame ∈ later, (respEncode frame).length < 2 ^ 31)
    (nonempty : respStream now ++ rest ≠ [])
    (small : (respStream now ++ rest).length < 2 ^ 31)
    (enough : now.length < inner) (twice : 2 ≤ fuel) :
    parseLoop layer flags fd inner mem (respStream now ++ rest).length
        fuel 0 session =
      some
        { totalParsedBytes := (respStream now).length
          session := runWindows (serveCommand layer flags fd mem)
            (frameWindows 0 now) session
          closed := false } := by
  obtain ⟨fuel, rfl⟩ := Nat.exists_eq_add_of_le twice
  have positive := List.length_pos_of_ne_nil nonempty
  have split : (respStream now ++ rest).length =
      (respStream now).length + rest.length := List.length_append
  have whole : toInt32 (((respStream now ++ rest).length : Int) - 0) =
      ((respStream now ++ rest).length : Nat) := by
    rw [toInt32_of_range (by omega) (by omega)]
    omega
  rw [show 2 + fuel = fuel + 1 + 1 by omega, parseLoop,
    if_pos (by omega), whole,
    protocolProcessStream_received stored part laterSmall nonempty small
      enough]
  simp only [Option.getD_some]
  by_cases idle : (respStream now).length = 0
  · have none : now = [] := by
      cases now with
      | nil => rfl
      | cons command now =>
          have minimum := respEncode_length_ge command
          rw [respStream_cons, List.length_append] at idle
          omega
    subst none
    rw [if_pos (Or.inr (by simp [respStream]))]
    simp [respStream]
  · rw [if_neg (by omega), if_neg (by omega)]
    have advance : toInt32 (0 + ((respStream now).length : Int)) =
        ((respStream now).length : Nat) := by
      rw [toInt32_of_range (by omega) (by omega)]
      omega
    rw [advance, parseLoop]
    by_cases drained : rest = []
    · subst drained
      rw [if_neg (by simp)]
    · have restPositive := List.length_pos_of_ne_nil drained
      have tailLength : toInt32 (((respStream now ++ rest).length : Int) -
          (respStream now).length) =
          ((respStream [] ++ rest).length : Nat) := by
        rw [toInt32_of_range (by omega) (by omega)]
        simp [respStream]
      have tailStored : Holds mem ((respStream now).length : Int)
          (respStream [] ++ rest) := by
        have behind := stored.right
        rw [Int.zero_add] at behind
        simpa [respStream] using behind
      rw [if_pos (by omega), tailLength,
        protocolProcessStream_received tailStored part laterSmall
          (by simpa [respStream] using drained)
          (by simp [respStream]; omega) (by simp; omega)]
      simp [respStream, frameWindows, runWindows]

end Parse

/-! ## Whole connections -/

section Connection

variable {κ σ : Type} {layer : CommandLayer κ σ} {flags : Flags} {fd : Int}

/--
The state of a connection that has received a prefix of a command stream: the
complete commands are carried out and the rest is buffered.
-/
def ServedPrefix (commands : List (List Bytes)) (c : Conn σ)
    (bytes : Bytes) : Prop :=
  ∃ done todo unread,
    commands = done ++ todo ∧
      bytes = respStream done ++ unread ∧
      PartOf todo unread ∧
      c.session.executed = done ∧
      Buffered c unread

variable {commands : List (List Bytes)}

/-- The remainder of a served prefix is shorter than the largest buffer. -/
theorem ServedPrefix.below
    (sizes : ∀ frame ∈ commands,
      ((respEncode frame).length : Int) ≤ maxRbufferSize)
    {c : Conn σ} {bytes : Bytes} (served : ServedPrefix commands c bytes) :
    c.rlength < maxRbufferSize := by
  obtain ⟨done, todo, unread, rfl, -, part, -, buffered⟩ := served
  rw [buffered.length]
  rcases part with rfl | ⟨frame, others, rfl, initial, proper⟩
  · simp [maxRbufferSize]
  · have limit := sizes frame (by simp)
    have shorter : unread.length < (respEncode frame).length := by
      rcases initial.length_le.lt_or_eq with shorter | equal
      · exact shorter
      · exact absurd (initial.eq_of_length equal) proper
    omega

/-- One receive result that continues the stream is served completely. -/
theorem ServedPrefix.data (layer : CommandLayer κ σ) (flags : Flags)
    (fd : Int)
    (sizes : ∀ frame ∈ commands,
      ((respEncode frame).length : Int) ≤ maxRbufferSize)
    {c : Conn σ} {bytes chunk : Bytes}
    (served : ServedPrefix commands c bytes)
    (nonempty : chunk ≠ []) {fresh : Nat → UInt8}
    (fits : (chunk.length : Int) ≤ (c.grow fresh).requested)
    (initial : bytes ++ chunk <+: respStream commands)
    {fuel : Nat} (enough : commands.length + 2 ≤ fuel) :
    ∃ next,
      clientIteration layer flags fd fuel fresh (.data chunk) c =
          some (.continued next) ∧
        ServedPrefix commands next (bytes ++ chunk) := by
  have below := served.below sizes
  obtain ⟨done, todo, unread, rfl, rfl, part, executed, buffered⟩ := served
  have stored := (buffered.grow fresh).store fits
  have received : unread ++ chunk <+: respStream todo := by
    rw [respStream_append, List.append_assoc,
      List.prefix_append_right_inj] at initial
    exact initial
  obtain ⟨now, later, rest, rfl, split, restPart⟩ :=
    respStream_prefix_split received
  have bounds := stored.capacity.bounds
  have inside := stored.rlength_le
  have length := stored.length
  have max31 : maxRbufferSize < 2 ^ 31 := by decide
  have holds : Holds ((c.grow fresh).store chunk).rbuffer 0
      (respStream now ++ rest) := by
    refine ⟨le_rfl, ?_⟩
    rw [← split]
    simpa [bytesFrom] using stored.content
  have laterSmall : ∀ frame ∈ later,
      (respEncode frame).length < 2 ^ 31 := by
    intro frame member
    have limit := sizes frame (by simp [member])
    omega
  have some : respStream now ++ rest ≠ [] := by
    rw [← split]
    simp [nonempty]
  have small : (respStream now ++ rest).length < 2 ^ 31 := by
    rw [← split]
    omega
  have counted : now.length + 2 ≤ fuel := by
    simp only [List.length_append] at enough
    omega
  have inner : now.length < fuel := by omega
  have outer : 2 ≤ fuel := by omega
  have parsed := parseLoop_received layer flags fd (c.grow fresh).session
    holds restPart laterSmall some small inner outer
  have chunkSome : ¬ chunk.length = 0 := by
    simpa using nonempty
  rw [split] at length stored
  refine ⟨_, ?_, done ++ now, later, rest, by simp, ?_, restPart, ?_,
    ((Buffered.compact
      (c := { (c.grow fresh).store chunk with
        session := runWindows (serveCommand layer flags fd
          ((c.grow fresh).store chunk).rbuffer) (frameWindows 0 now)
          (c.grow fresh).session })
      ⟨stored.capacity, stored.allocated, stored.length,
        stored.content⟩).flushReplies)⟩
  · have session : ((c.grow fresh).store chunk).session =
        (c.grow fresh).session := rfl
    rw [clientIteration, if_neg (by omega)]
    simp only [chunkSome, if_false]
    rw [length, session, parsed]
    simp
  · rw [List.append_assoc, split, respStream_append, List.append_assoc]
  · rw [Conn.flushReplies_executed, Conn.compact_session]
    dsimp only
    rw [runWindows_executed (serveCommand_executed layer flags fd _)
      holds.left (by rw [List.length_append] at small; omega)]
    simp [executed]

/-- Once the whole stream has arrived nothing is left in the buffer. -/
theorem ServedPrefix.complete {c : Conn σ}
    (served : ServedPrefix commands c (respStream commands)) :
    c.session.executed = commands ∧ c.rlength = 0 := by
  obtain ⟨done, todo, unread, rfl, shape, part, executed, buffered⟩ := served
  rw [respStream_append, List.append_cancel_left_eq] at shape
  cases todo with
  | nil =>
      rw [buffered.length, ← shape, executed]
      simp [respStream]
  | cons frame others =>
      have minimum := respEncode_length_ge frame
      have whole := congrArg List.length shape
      rw [respStream_cons, List.length_append] at whole
      rcases part with rfl | ⟨frame', others', equal, initial, proper⟩
      · rw [List.length_nil] at whole
        omega
      · cases equal
        have short := initial.length_le
        exact absurd (initial.eq_of_length (by omega)) proper

end Connection

end Kivo.Net.Ntyco
