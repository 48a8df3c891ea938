import Kivo.Engine.LastingTable
import Kivo.Server.TimeIndex

/-!
# Records and lists of ids

`SETREC` stores a record under its id, and `SETIDX` adds an id to the list of a
keyword.  Both tables are followed through a run by what the commands that
succeeded have written: the last record of an id, and the ids of a keyword in
the order of their first addition.  The list is kept as one text with commas,
so it gives back what was added exactly when no id contains a comma and the
length of the text fits in the `int` of a reply.
-/

namespace Kivo.Server.IdLists

open Kivo.Clib.Memory
open Kivo.Clib.Simulation
open Kivo.Clib.Separated
open Kivo.Engine.HashEngine
open Kivo.Engine.HashTable (slotLimit)
open Kivo.Engine.LastingTable
open Kivo.Engine.Store
open Kivo.Resp.Frame
open Kivo.Resp.Reply
open Kivo.Server.State
open Kivo.Server.Commands
open Kivo.Server.CommandTable
open Kivo.Server.Alignment (freshSession plainFlags)
open Kivo.Server.TimeIndex (Invocation invoke invocationOf)

/-! ## What a run has written -/

/-- The invocations of a run, with their replies. -/
def history (globals : Globals Store) (inputs : List Invocation) :
    List (Invocation × RespReply) :=
  inputs.zip (run invoke globals inputs).2

/-- A command that succeeded, with a given first argument. -/
def Wrote (proc : Proc) (key : Bytes) (event : Invocation × RespReply) :
    Prop :=
  event.1.proc = proc ∧ event.2.status = .ok ∧ event.1.call.arg 1 = key

instance (proc : Proc) (key : Bytes) : DecidablePred (Wrote proc key) :=
  fun _ => inferInstanceAs (Decidable (_ ∧ _ ∧ _))

/-- The second arguments of the commands that succeeded. -/
def written (proc : Proc) (key : Bytes)
    (log : List (Invocation × RespReply)) : List Bytes :=
  (log.filter (Wrote proc key)).map (fun event => event.1.call.arg 2)

/-- The ids added under a keyword. -/
def addedIds (keyword : Bytes) (log : List (Invocation × RespReply)) :
    List Bytes :=
  written .setidx keyword log

/-- The record that was stored last under an id. -/
def currentRecord (id : Bytes) (log : List (Invocation × RespReply)) :
    Option Bytes :=
  (written .setrec id log).getLast?

theorem written_concat (proc : Proc) (key : Bytes)
    (log : List (Invocation × RespReply)) (event : Invocation × RespReply) :
    written proc key (log ++ [event]) =
      if Wrote proc key event then
        written proc key log ++ [event.1.call.arg 2]
      else written proc key log := by
  rw [written, List.filter_append, List.map_append]
  by_cases wrote : Wrote proc key event
  · rw [if_pos wrote, List.filter_cons_of_pos (by simpa using wrote)]
    rfl
  · rw [if_neg wrote, List.filter_cons_of_neg (by simpa using wrote)]
    exact List.append_nil _

theorem written_of_ne {proc : Proc} {event : Invocation × RespReply}
    (different : event.1.proc ≠ proc) (key : Bytes)
    (log : List (Invocation × RespReply)) :
    written proc key (log ++ [event]) = written proc key log := by
  rw [written_concat, if_neg (fun wrote => different wrote.1)]

/-- The text of a list of ids. -/
def listText (ids : List Bytes) : Option Bytes :=
  if ids = [] then none else some (joined 44 ids)

theorem eraseDups_ne_nil {ids : List Bytes} (nonempty : ids ≠ []) :
    ids.eraseDups ≠ [] := by
  obtain ⟨first, rest, rfl⟩ := List.exists_cons_of_ne_nil nonempty
  rw [List.eraseDups_cons]
  exact List.cons_ne_nil _ _

section Texts

variable {ids : List Bytes} (proper : ∀ id ∈ ids, id ≠ [])
  (free : ∀ id ∈ ids, (44 : UInt8) ∉ id)

include free

/-- The text of a list gives the list back. -/
theorem pieces_listText (nonempty : ids ≠ []) :
    pieces 44 ((listText ids.eraseDups).getD []) = ids.eraseDups := by
  have distinct := eraseDups_ne_nil nonempty
  rw [listText, if_neg distinct, Option.getD_some]
  exact pieces_joined distinct
    (fun id member => free id (List.mem_eraseDups.mp member))

include proper

omit free in
theorem listText_ne_nil (nonempty : ids ≠ []) :
    (listText ids.eraseDups).getD [] ≠ [] := by
  have distinct := eraseDups_ne_nil nonempty
  rw [listText, if_neg distinct, Option.getD_some]
  exact joined_ne_nil distinct
    (fun id member => proper id (List.mem_eraseDups.mp member))

/-- The search of `kvs_hash_append` finds the ids that were added. -/
theorem listed_iff (id : Bytes) :
    (listText ids.eraseDups).getD [] ≠ [] ∧
        id ∈ pieces 44 ((listText ids.eraseDups).getD []) ↔
      id ∈ ids := by
  by_cases nonempty : ids = []
  · subst nonempty
    simp [listText]
  · rw [pieces_listText free nonempty, List.mem_eraseDups]
    exact and_iff_right (listText_ne_nil proper nonempty)

/-- The text behind which a new id is written is that of the longer list. -/
theorem listText_appended {id : Bytes} (fresh : id ∉ ids) :
    listText (ids ++ [id]).eraseDups =
      some (appended ((listText ids.eraseDups).getD []) id) := by
  have longer : ids.eraseDups ++ [id] ≠ [] :=
    List.append_ne_nil_of_right_ne_nil _ (List.cons_ne_nil _ _)
  rw [eraseDups_concat, if_neg fresh, listText, if_neg longer, appended]
  by_cases nonempty : ids = []
  · subst nonempty
    exact congrArg some (joined_singleton id)
  · rw [if_neg (listText_ne_nil proper nonempty)]
    have distinct := eraseDups_ne_nil nonempty
    rw [joined_concat distinct, listText, if_neg distinct, Option.getD_some]

end Texts

/-! ## What the tables hold -/

/-- The tables hold what the run has written. -/
structure Tracks (log : List (Invocation × RespReply))
    (globals : Globals Store) : Prop where
  records : Lasting (globals.store.tables.hashes .hash3)
    (fun id => currentRecord id log)
  proper : ∀ keyword, ∀ id ∈ addedIds keyword log, id ≠ []
  lists : ∃ values, Lasting (globals.store.tables.hashes .hash4) values ∧
    ∀ keyword, (∀ id ∈ addedIds keyword log, (44 : UInt8) ∉ id) →
      values keyword = listText (addedIds keyword log).eraseDups

theorem tracks_fresh (worlds : Nat → World) :
    Tracks [] (freshSession worlds).globals :=
  { records := lasting_create
    proper := fun _ _ member => nomatch member
    lists := ⟨fun _ => none, lasting_create, fun _ _ => rfl⟩ }

section Steps

variable {log : List (Invocation × RespReply)} {globals : Globals Store}
  (tracks : Tracks log globals) (call : Call)

include tracks

/-- A command that writes nothing keeps what was written. -/
theorem Tracks.idle {event : Invocation × RespReply}
    {after : Globals Store}
    (failed : event.2.status ≠ .ok)
    (tables : after.store.tables = globals.store.tables) :
    Tracks (log ++ [event]) after := by
  have same : ∀ proc key, written proc key (log ++ [event]) =
      written proc key log := by
    intro proc key
    rw [written_concat, if_neg (fun wrote => failed wrote.2.1)]
  obtain ⟨records, proper, lists⟩ := tracks
  constructor
  · simp only [currentRecord, same, tables] at records ⊢
    exact records
  · simp only [addedIds, same] at proper ⊢
    exact proper
  · simp only [addedIds, same, tables] at lists ⊢
    exact lists

/-- `SETREC` replaces the record of its id. -/
theorem Tracks.setrec :
    Tracks (log ++ [(⟨.setrec, call⟩, (Proc.setrec.run call globals).2)])
      (Proc.setrec.run call globals).1 := by
  have ran : Proc.setrec.run call globals =
      ({ globals with store := (cmdSetrec call globals.store).1 },
        (cmdSetrec call globals.store).2) := rfl
  rw [ran, cmdSetrec]
  by_cases misused : call.argc ≠ 3
  · rw [if_pos misused]
    exact tracks.idle KvsStatus.noConfusion rfl
  · rw [if_neg misused]
    have operated : globals.store.operate call (.hash .hash3)
          (.set (call.arg 1) (call.arg 2) 0) =
        (globals.store.setHash .hash3
            (kvsHashSet (globals.store.tables.hashes .hash3) (call.arg 1) 0
              (call.arg 2) 0).1,
          .status (kvsHashSet (globals.store.tables.hashes .hash3)
            (call.arg 1) 0 (call.arg 2) 0).2) := rfl
    rw [operated]
    rcases tracks.records.set (call.arg 1) (call.arg 2) with
      refused | ⟨code, table⟩
    · rw [refused]
      refine tracks.idle KvsStatus.noConfusion ?_
      simp only [Store.setHash, Function.update_eq_self]
    · dsimp only [codeOf]
      rw [code]
      obtain ⟨-, proper, lists⟩ := tracks
      have ids : ∀ keyword, addedIds keyword
          (log ++ [(⟨.setrec, call⟩, statusReply 0 .ok .error)]) =
            addedIds keyword log :=
        fun keyword => @written_of_ne .setidx
          (⟨.setrec, call⟩, statusReply 0 .ok .error)
          (show Proc.setrec ≠ .setidx by decide) keyword log
      constructor
      · have record : (fun id => currentRecord id
            (log ++ [(⟨.setrec, call⟩, statusReply 0 .ok .error)])) =
            Function.update (fun id => currentRecord id log) (call.arg 1)
              (some (call.arg 2)) := by
          funext id
          by_cases same : id = call.arg 1
          · subst same
            rw [Function.update_self, currentRecord, written_concat,
              if_pos ⟨rfl, rfl, rfl⟩, List.getLast?_concat]
          · rw [Function.update_of_ne same, currentRecord, written_concat,
              if_neg (fun wrote => same wrote.2.2.symm)]
            rfl
        rw [record]
        simp only [Store.setHash, Function.update_self]
        exact table
      · simp only [ids]
        exact proper
      · simp only [ids, Store.setHash, ne_eq, reduceCtorEq,
          not_false_eq_true, Function.update_of_ne]
        exact lists

/-- A `SETIDX` that succeeds leaves the list of its keyword with the id. -/
theorem Tracks.added {after : Globals Store} {hash : KvsHash}
    {values : Bytes → Option Bytes} (proper : call.arg 2 ≠ [])
    (tables : after.store.tables =
      (globals.store.setHash .hash4 hash).tables)
    (table : Lasting hash values)
    (others : ∀ keyword, keyword ≠ call.arg 1 →
      (∀ id ∈ addedIds keyword log, (44 : UInt8) ∉ id) →
        values keyword = listText (addedIds keyword log).eraseDups)
    (own : (∀ id ∈ addedIds (call.arg 1) log, (44 : UInt8) ∉ id) →
      values (call.arg 1) =
        listText (addedIds (call.arg 1) log ++ [call.arg 2]).eraseDups) :
    Tracks (log ++ [(⟨.setidx, call⟩, RespReply.plain .ok)]) after := by
  have records : ∀ id, currentRecord id
      (log ++ [(⟨.setidx, call⟩, RespReply.plain .ok)]) =
        currentRecord id log :=
    fun id => congrArg List.getLast? (@written_of_ne .setrec
      (⟨.setidx, call⟩, RespReply.plain .ok) nofun id log)
  have mine : addedIds (call.arg 1)
      (log ++ [(⟨.setidx, call⟩, RespReply.plain .ok)]) =
        addedIds (call.arg 1) log ++ [call.arg 2] := by
    rw [addedIds, written_concat, if_pos ⟨rfl, rfl, rfl⟩]
    rfl
  have theirs : ∀ keyword, keyword ≠ call.arg 1 → addedIds keyword
      (log ++ [(⟨.setidx, call⟩, RespReply.plain .ok)]) =
        addedIds keyword log := by
    intro keyword apart
    rw [addedIds, written_concat,
      if_neg (fun wrote => apart wrote.2.2.symm)]
    rfl
  constructor
  · simp only [records, tables, Store.setHash, ne_eq, reduceCtorEq,
      not_false_eq_true, Function.update_of_ne]
    exact tracks.records
  · intro keyword id member
    by_cases here : keyword = call.arg 1
    · subst here
      rw [mine, List.mem_append, List.mem_singleton] at member
      rcases member with old | rfl
      · exact tracks.proper _ id old
      · exact proper
    · rw [theirs keyword here] at member
      exact tracks.proper keyword id member
  · refine ⟨values, ?_, ?_⟩
    · simp only [tables, Store.setHash, Function.update_self]
      exact table
    · intro keyword free
      by_cases here : keyword = call.arg 1
      · subst here
        rw [mine] at free ⊢
        exact own (fun id member => free id (List.mem_append_left _ member))
      · rw [theirs keyword here] at free ⊢
        exact others keyword here free

/-- `SETIDX` adds an id that is not listed yet at the end of its list. -/
theorem Tracks.setidx :
    Tracks (log ++ [(⟨.setidx, call⟩, (Proc.setidx.run call globals).2)])
      (Proc.setidx.run call globals).1 := by
  have ran : Proc.setidx.run call globals =
      ({ globals with store := (cmdSetidx call globals.store).1 },
        (cmdSetidx call globals.store).2) := rfl
  rw [ran, cmdSetidx]
  by_cases misused : call.argc ≠ 3
  · rw [if_pos misused]
    exact tracks.idle KvsStatus.noConfusion rfl
  · rw [if_neg misused]
    dsimp only
    by_cases empty : call.arg 2 = []
    · rw [empty, kvsHashAppend_empty]
      refine tracks.idle KvsStatus.noConfusion ?_
      simp only [Store.setHash, Function.update_eq_self]
    · obtain ⟨values, table, texts⟩ := tracks.lists
      have proper := tracks.proper (call.arg 1)
      rcases table.append call.flags.enableTtl (call.world.now 0)
          (call.arg 1) empty with ⟨old, listed, result⟩ |
          ⟨unlisted, refused | ⟨code, after⟩⟩
      · rw [result]
        refine tracks.added call empty rfl table
          (fun keyword _ => texts keyword) ?_
        intro free
        have text := texts _ free
        have known : call.arg 2 ∈ addedIds (call.arg 1) log := by
          rw [← listed_iff proper free, ← text]
          exact ⟨old, listed⟩
        rw [text, eraseDups_concat, if_pos known]
      · rw [refused]
        refine tracks.idle KvsStatus.noConfusion ?_
        simp only [Store.setHash, Function.update_eq_self]
      · rw [code]
        refine tracks.added call empty rfl after ?_ ?_
        · intro keyword apart free
          rw [Function.update_of_ne apart]
          exact texts keyword free
        · intro free
          have text := texts _ free
          have fresh : call.arg 2 ∉ addedIds (call.arg 1) log := by
            rw [← listed_iff proper free, ← text]
            exact unlisted
          rw [Function.update_self, listText_appended proper free fresh, text]

end Steps

/-- What the run writes is what the tables hold at its end. -/
theorem Tracks.run {log : List (Invocation × RespReply)}
    {globals : Globals Store} (tracks : Tracks log globals)
    {inputs : List Invocation}
    (writes : ∀ input ∈ inputs, input.proc = .setrec ∨ input.proc = .setidx) :
    Tracks (log ++ history globals inputs)
      (Clib.Simulation.run invoke globals inputs).1 := by
  induction inputs generalizing log globals with
  | nil =>
      rw [history, List.zip_nil_left, List.append_nil]
      exact tracks
  | cons input rest induction =>
      have step : Tracks (log ++ [(input, (invoke globals input).2)])
          (invoke globals input).1 := by
        obtain ⟨proc, call⟩ := input
        rcases writes _ List.mem_cons_self with rfl | rfl
        · exact tracks.setrec call
        · exact tracks.setidx call
      have last := induction step
        (fun other member => writes other (List.mem_cons_of_mem _ member))
      rw [List.append_assoc] at last
      exact last

/-! ## Runs without a refusal -/

/-- A `SETREC` or a `SETIDX` with its arguments, and with an id that can be
listed. -/
structure Sound (input : Invocation) : Prop where
  proc : input.proc = .setrec ∨ input.proc = .setidx
  three : input.call.argc = 3
  listed : input.proc = .setidx →
    input.call.arg 2 ≠ [] ∧ (44 : UInt8) ∉ input.call.arg 2

/-- Commands that all succeed. -/
def accepted (inputs : List Invocation) : List (Invocation × RespReply) :=
  inputs.map (fun input => (input, RespReply.plain .ok))

theorem written_accepted (proc : Proc) (key : Bytes)
    (inputs : List Invocation) :
    written proc key (accepted inputs) =
      (inputs.filter (fun input =>
        decide (input.proc = proc ∧ input.call.arg 1 = key))).map
          (fun input => input.call.arg 2) := by
  have same : (fun event => decide (Wrote proc key event)) ∘
      (fun input => (input, RespReply.plain .ok)) =
        fun input => decide (input.proc = proc ∧ input.call.arg 1 = key) := by
    funext input
    simp [Wrote, RespReply.plain]
  rw [written, accepted, List.filter_map, same, List.map_map]
  rfl

/-- Keys under which something was written. -/
theorem mem_of_written {proc : Proc} {key : Bytes} {inputs : List Invocation}
    (wrote : written proc key (accepted inputs) ≠ []) :
    key ∈ (inputs.map (fun input => input.call.arg 1)).toFinset := by
  obtain ⟨value, member⟩ := List.exists_mem_of_ne_nil _ wrote
  rw [written_accepted] at member
  obtain ⟨input, inside, -⟩ := List.mem_map.mp member
  obtain ⟨sent, own⟩ := List.mem_filter.mp inside
  rw [List.mem_toFinset, List.mem_map]
  exact ⟨input, sent, (of_decide_eq_true own).2⟩

/-- A table takes another command while there were fewer commands than it can
have slots. -/
theorem Tracks.accepts {front : List Invocation} {globals : Globals Store}
    (tracks : Tracks (accepted front) globals)
    (before : ∀ input ∈ front, Sound input) (few : front.length < slotLimit)
    {input : Invocation} (sound : Sound input) :
    (invoke globals input).2 = RespReply.plain .ok := by
  have card : (front.map
      (fun input => input.call.arg 1)).toFinset.card < slotLimit :=
    (List.toFinset_card_le _).trans_lt (by rwa [List.length_map])
  obtain ⟨proc, call⟩ := input
  obtain ⟨which, three, listed⟩ := sound
  change call.argc = 3 at three
  rcases which with rfl | rfl
  · have code := tracks.records.accepts (fun id present => mem_of_written
      (fun none => present (by rw [currentRecord, none]; rfl))) card
      (call.arg 1) (call.arg 2)
    have ran : (invoke globals ⟨.setrec, call⟩).2 =
        (cmdSetrec call globals.store).2 := rfl
    rw [ran, cmdSetrec, if_neg (not_not.mpr three)]
    change statusReply (kvsHashSet (globals.store.tables.hashes .hash3)
      (call.arg 1) 0 (call.arg 2) 0).2 .ok .error = _
    rw [code]
    rfl
  · obtain ⟨proper, -⟩ := listed rfl
    obtain ⟨values, table, texts⟩ := tracks.lists
    have free : ∀ keyword, ∀ id ∈ addedIds keyword (accepted front),
        (44 : UInt8) ∉ id := by
      intro keyword id member
      rw [addedIds, written_accepted] at member
      obtain ⟨input, inside, rfl⟩ := List.mem_map.mp member
      obtain ⟨sent, own⟩ := List.mem_filter.mp inside
      exact ((before input sent).listed (of_decide_eq_true own).1).2
    have within : ∀ keyword, values keyword ≠ none →
        keyword ∈ (front.map (fun input => input.call.arg 1)).toFinset := by
      intro keyword present
      refine @mem_of_written .setidx _ _ (fun none => present ?_)
      rw [texts keyword (free keyword), addedIds, none]
      rfl
    have ran : (invoke globals ⟨.setidx, call⟩).2 =
        (cmdSetidx call globals.store).2 := rfl
    have code : (kvsHashAppend call.flags.enableTtl (call.world.now 0)
        (globals.store.tables.hashes .hash4) (call.arg 1) 0
        (call.arg 2)).2 = 0 := by
      rw [table.append_eq _ _ _ proper]
      split_ifs
      · rfl
      · exact table.accepts within card _ _
    rw [ran, cmdSetidx, if_neg (not_not.mpr three)]
    dsimp only
    rw [code]
    rfl

/-- Fewer commands than a table can have slots all succeed. -/
theorem Tracks.run_accepted {front : List Invocation}
    {globals : Globals Store} (tracks : Tracks (accepted front) globals)
    {inputs : List Invocation}
    (sound : ∀ input ∈ front ++ inputs, Sound input)
    (few : (front ++ inputs).length ≤ slotLimit) :
    history globals inputs = accepted inputs := by
  induction inputs generalizing front globals with
  | nil => rfl
  | cons input rest induction =>
      rw [List.length_append, List.length_cons] at few
      have own : Sound input :=
        sound input (List.mem_append_right _ List.mem_cons_self)
      have reply := tracks.accepts
        (fun other member => sound other (List.mem_append_left _ member))
        (by omega) own
      have next : Tracks (accepted (front ++ [input]))
          (invoke globals input).1 := by
        have after := tracks.run
          (fun other (member : other ∈ [input]) =>
            List.mem_singleton.mp member ▸ own.proc)
        have log : history globals [input] = accepted [input] := by
          rw [history, accepted, Clib.Simulation.run, reply]
          rfl
        rw [log] at after
        rw [accepted, List.map_append]
        exact after
      have later := @induction (front ++ [input]) _ next
        (by rwa [List.append_assoc])
        (by simpa [Nat.add_assoc, Nat.add_comm] using few)
      rw [history, Clib.Simulation.run, reply, accepted, List.zip_cons_cons,
        List.map_cons, ← accepted, ← later]
      rfl

/-! ## What `GETIDX` gives back -/

/-- The ids that a client reads off a reply; there are none to read where
`resp_pack` runs away with the body. -/
def idsOf (reply : RespReply) : Option (List Bytes) :=
  if reply.Runaway then none
  else
    match reply.body with
    | none => some []
    | some text => some (pieces 44 (copied text reply.bodyLen))

/-- `GETIDX` answers with these ids, each of them once, and adding one of them
again changes nothing. -/
structure Decodes (keyword : Bytes) (ids : List Bytes)
    (globals : Globals Store) : Prop where
  list : ∀ call : Call, call.argc = 2 → call.arg 1 = keyword →
    idsOf (Proc.getidx.run call globals).2 = some ids.eraseDups
  again : ∀ call : Call, call.argc = 3 → call.arg 1 = keyword →
    call.arg 2 ∈ ids → (Proc.setidx.run call globals).1 = globals

/-- A `GETIDX` reads the text of the list. -/
theorem run_getidx {globals : Globals Store} {values : Bytes → Option Bytes}
    (table : Lasting (globals.store.tables.hashes .hash4) values)
    {call : Call} (two : call.argc = 2) :
    (Proc.getidx.run call globals).2 =
      kvsSetReplyBody (values (call.arg 1)) := by
  have ran : (Proc.getidx.run call globals).2 =
      (reading (decide (call.argc ≠ 2)) (.hash .hash4) call
        globals.store).2 := rfl
  have operated : foundOf (globals.store.operate call (.hash .hash4)
        (.get (call.world.now 0) (call.arg 1))).2 =
      (kvsHashGet call.flags.enableTtl (call.world.now 0)
        (globals.store.tables.hashes .hash4) (call.arg 1) 0).2 := rfl
  rw [ran, reading, if_neg (by simpa using two)]
  dsimp only
  rw [operated, table.get]

/-- A client reads the ids of a text whose length is an `int`. -/
theorem idsOf_bulk {text : Bytes} (short : text.length < 2 ^ 31) :
    idsOf (RespReply.bulk text) = some (pieces 44 text) := by
  have int : toInt32 text.length = text.length :=
    toInt32_of_range (by omega) (by omega)
  have sane : ¬ (RespReply.bulk text).Runaway := by
    rw [runaway_bulk]
    omega
  rw [idsOf, if_neg sane]
  simp only [RespReply.bulk]
  rw [int, copied_whole]

/-- A longer text is cut off, or runs away. -/
theorem idsOf_long {text : Bytes} (long : 2 ^ 31 ≤ text.length) :
    idsOf (RespReply.bulk text) ≠ some (pieces 44 text) := by
  intro same
  rw [idsOf] at same
  split_ifs at same with runs
  have nonneg : 0 ≤ toInt32 text.length :=
    Int.not_lt.mp (fun negative => runs ((runaway_bulk text).mpr negative))
  have most := (toInt32_bounds text.length).2
  simp only [RespReply.bulk, Option.some.injEq] at same
  have whole : copied text (toInt32 text.length) = text := by
    rw [← @joined_pieces _ 44 _ (copied text _), same, joined_pieces]
  have length := congrArg List.length whole
  rw [copied, if_neg (Int.not_lt.mpr nonneg), List.length_take] at length
  omega

/-- The text of the list of a keyword. -/
def listLength (ids : List Bytes) : Nat :=
  (joined 44 ids.eraseDups).length

/-- What a `GETIDX` replies. -/
theorem Tracks.getidx {log : List (Invocation × RespReply)}
    {globals : Globals Store} (tracks : Tracks log globals) {call : Call}
    (two : call.argc = 2)
    (free : ∀ id ∈ addedIds (call.arg 1) log, (44 : UInt8) ∉ id) :
    addedIds (call.arg 1) log = [] ∧
        (Proc.getidx.run call globals).2 = RespReply.plain .noExists ∨
      addedIds (call.arg 1) log ≠ [] ∧
        (Proc.getidx.run call globals).2 =
          RespReply.bulk (joined 44 (addedIds (call.arg 1) log).eraseDups) := by
  obtain ⟨values, table, texts⟩ := tracks.lists
  rw [run_getidx table two, texts _ free]
  by_cases nonempty : addedIds (call.arg 1) log = []
  · rw [nonempty]
    exact Or.inl ⟨rfl, rfl⟩
  · have distinct := eraseDups_ne_nil nonempty
    have filled := listText_ne_nil (tracks.proper _) nonempty
    rw [listText, if_neg distinct, Option.getD_some] at filled
    rw [listText, if_neg distinct, kvsSetReplyBody,
      if_pos (List.length_pos_of_ne_nil filled)]
    exact Or.inr ⟨nonempty, rfl⟩

theorem Tracks.decodes {log : List (Invocation × RespReply)}
    {globals : Globals Store} (tracks : Tracks log globals) {keyword : Bytes}
    (free : ∀ id ∈ addedIds keyword log, (44 : UInt8) ∉ id)
    (short : listLength (addedIds keyword log) < 2 ^ 31) :
    Decodes keyword (addedIds keyword log) globals := by
  obtain ⟨values, table, texts⟩ := tracks.lists
  have proper := tracks.proper keyword
  have text := texts keyword free
  constructor
  · rintro call two rfl
    rcases tracks.getidx two free with ⟨none, reply⟩ | ⟨some, reply⟩
    · rw [reply, none]
      rfl
    · rw [reply, idsOf_bulk short, pieces_joined (eraseDups_ne_nil some)
        (fun id member => free id (List.mem_eraseDups.mp member))]
  · rintro call three rfl member
    have ran : Proc.setidx.run call globals =
        ({ globals with store := (cmdSetidx call globals.store).1 },
          (cmdSetidx call globals.store).2) := rfl
    have listed := (listed_iff proper free (call.arg 2)).mpr member
    rw [← text] at listed
    rw [ran, cmdSetidx, if_neg (by simpa using three)]
    dsimp only
    rw [table.append_eq _ _ _ (proper _ member), if_pos listed]
    simp only [Store.setHash, Function.update_eq_self]

/-- A `GETIDX`. -/
def askCall (keyword : Bytes) : Call :=
  { flags := plainFlags
    mem := keyword
    req :=
      { argc := 2
        argv := [0, 0]
        argvLen := [0, keyword.length]
        isDynamic := false }
    world := default }

theorem askCall_arg (keyword : Bytes) : (askCall keyword).arg 1 = keyword := by
  have read : (askCall keyword).arg 1 =
      ((keyword.drop 0).take (keyword.length : Int).toNat) := rfl
  rw [read, Int.toNat_natCast, List.drop_zero, List.take_length]

/-- An id with a comma never comes back. -/
theorem Decodes.free {keyword : Bytes} {ids : List Bytes}
    {globals : Globals Store} (decodes : Decodes keyword ids globals) :
    ∀ id ∈ ids, (44 : UInt8) ∉ id := by
  intro id member
  have read := decodes.list (askCall keyword) rfl (askCall_arg keyword)
  have inside := List.mem_eraseDups.mpr member
  rw [idsOf] at read
  split_ifs at read
  split at read
  · rw [← Option.some.inj read] at inside
    cases inside
  · rw [← Option.some.inj read] at inside
    exact free_of_mem_pieces inside

/-- A text that is too long for an `int` does not come back. -/
theorem Decodes.short {log : List (Invocation × RespReply)}
    {globals : Globals Store} (tracks : Tracks log globals) {keyword : Bytes}
    (decodes : Decodes keyword (addedIds keyword log) globals) :
    listLength (addedIds keyword log) < 2 ^ 31 := by
  by_contra! long
  have free := decodes.free
  have read := decodes.list (askCall keyword) rfl (askCall_arg keyword)
  have reply := @Tracks.getidx log globals tracks (askCall keyword) rfl
    ((askCall_arg keyword).symm ▸ free)
  rw [askCall_arg] at reply
  rcases reply with ⟨none, -⟩ | ⟨some, reply⟩
  · rw [none] at long
    exact absurd long (by decide)
  · refine idsOf_long long ?_
    rw [← reply, read, pieces_joined (eraseDups_ne_nil some)
      (fun id member => free id (List.mem_eraseDups.mp member))]

/-- The list of a keyword decodes to what was added exactly when no added id
contains a comma and an `int` holds the length of the list. -/
theorem setidx_decodes_iff (worlds : Nat → World) {inputs : List Invocation}
    (adds : ∀ input ∈ inputs, input.proc = .setidx) (keyword : Bytes) :
    Decodes keyword
        (addedIds keyword (history (freshSession worlds).globals inputs))
        (run invoke (freshSession worlds).globals inputs).1 ↔
      (∀ id ∈ addedIds keyword
        (history (freshSession worlds).globals inputs), (44 : UInt8) ∉ id) ∧
        listLength (addedIds keyword
          (history (freshSession worlds).globals inputs)) < 2 ^ 31 := by
  have tracks := (tracks_fresh worlds).run
    (fun input member => Or.inr (adds input member))
  exact ⟨fun decodes => ⟨decodes.free, Decodes.short tracks decodes⟩,
    fun both => tracks.decodes both.1 both.2⟩

/-- Two ids under one keyword, the first of them twice. -/
def indexRun : List Invocation :=
  [invocationOf .setidx [ascii "SETIDX", ascii "w", ascii "a"],
    invocationOf .setidx [ascii "SETIDX", ascii "x", ascii "a,b"],
    invocationOf .setidx [ascii "SETIDX", ascii "w", ascii "b"],
    invocationOf .setidx [ascii "SETIDX", ascii "w", ascii "a"]]

theorem setidx_decodes_indexRun :
    Decodes (ascii "w")
      (addedIds (ascii "w")
        (history (freshSession (fun _ => default)).globals indexRun))
      (run invoke (freshSession (fun _ => default)).globals indexRun).1 :=
  (setidx_decodes_iff (fun _ => default) (by decide +kernel)
    (ascii "w")).mpr ⟨by decide +kernel, by decide +kernel⟩

/-- An id with a comma comes back as two ids, and is added again by the same
command. -/
theorem setidx_splits_comma :
    let input := invocationOf .setidx
      [ascii "SETIDX", ascii "w", ascii "a,b"]
    let ask := invocationOf .getidx [ascii "GETIDX", ascii "w"]
    let globals := (freshSession (fun _ => default)).globals
    addedIds (ascii "w") (history globals [input]) = [ascii "a,b"] ∧
      idsOf (invoke (run invoke globals [input]).1 ask).2 =
        some [ascii "a", ascii "b"] ∧
      (invoke (run invoke globals [input, input]).1 ask).2.body =
        some (ascii "a,b,a,b") := by
  decide +kernel

end Kivo.Server.IdLists
