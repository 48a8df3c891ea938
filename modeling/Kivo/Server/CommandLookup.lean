import Kivo.Clib.Probing
import Kivo.Server.CommandTable

/-!
# Looking up a command

The first call of `lookup_command` fills `g_cmd_hash` from `g_cmd_table`; every
call walks through it from the slot of the hash of its name.  The two hashes
are computed by different loops, one up to the end of the name and one up to
its length, and agree on what `strncasecmp` takes for equal.  So a call ends
and finds what a scan of the table finds.
-/

namespace Kivo.Server.CommandLookup

open Kivo.Clib.Memory
open Kivo.Clib.Probing
open Kivo.Resp.Stream
open Kivo.Server.CommandTable

/-! ## The code -/

/-- `g_cmd_hash` and `g_cmd_hash_inited`. -/
structure CmdGlobals where
  slots : CmdHash
  inited : Bool

/-- The globals at program start. -/
def CmdGlobals.zero : CmdGlobals :=
  { slots := List.replicate cmdHashSize none, inited := false }

/-- The slot that `kvs_cmd_init` starts at. -/
def commandHome (command : Command) : Nat :=
  cmdSlot (cmdHash command.name)

/-- `kvs_cmd_init`; `none` when a loop passes every slot, and so never ends. -/
def kvsCmdInit (globals : CmdGlobals) : Option CmdGlobals :=
  if globals.inited then some globals
  else
    (gCmdTable.foldlM (enter commandHome cmdHashSize cmdHashSize)
      (List.replicate cmdHashSize none)).map
        (fun slots => { slots := slots, inited := true })

/-- `compare_len` of `lookup_command`. -/
def compareLen (mem : Bytes) (name len : Int) : Int :=
  if 0 < len then len
  else toInt32 (cString (bytesFrom mem name)).length

/-- `lookup_command` on its globals; `none` when a loop passes every slot, and
so never ends. -/
def lookupCommandIn (globals : CmdGlobals) (mem : Bytes) (name len : Int) :
    Option (CmdGlobals × Option Command) :=
  (kvsCmdInit globals).bind (fun ready =>
    (probeFrom ready.slots cmdHashSize
      (fun command => nameIs mem name (compareLen mem name len) command.name)
      cmdHashSize
      (cmdSlot (cmdHash
        (cString (slice mem name (compareLen mem name len)))))).map
          (fun found => (ready, found)))

/-- The globals that calls of `lookup_command` lead to. -/
inductive Reached : CmdGlobals → Prop where
  | zero : Reached CmdGlobals.zero
  | lookup {globals next : CmdGlobals} {mem : Bytes} {name len : Int}
      {found : Option Command} (before : Reached globals)
      (called : lookupCommandIn globals mem name len = some (next, found)) :
      Reached next

/-! ## The two hashes -/

theorem cmdSlot_lt (hash : UInt32) : cmdSlot hash < cmdHashSize :=
  Nat.mod_lt _ (by decide)

/-- The hash depends on the letters only, not on their case. -/
theorem cmdHash_map (name : Bytes) :
    cmdHash name =
      (name.map toUpper).foldl
        (fun (hash : UInt32) (byte : UInt8) =>
          (hash <<< 5) + hash + byte.toUInt32) 5381 := by
  rw [cmdHash, List.foldl_map]

/-- The names of the table have no terminator inside. -/
theorem gCmdTable_nulFree : ∀ command ∈ gCmdTable,
    (0 : UInt8) ∉ command.name.map toUpper := by
  decide

/-- A name that is found in the table has the hash of its entry. -/
theorem cmdHash_of_sameName {name : Bytes} {command : Command}
    (member : command ∈ gCmdTable)
    (same : sameName name command.name = true) :
    cmdHash (cString name) = cmdHash command.name := by
  have letters : name.map toUpper = command.name.map toUpper :=
    eq_of_beq same
  have nulFree : (0 : UInt8) ∉ name := by
    intro inside
    apply gCmdTable_nulFree command member
    rw [← letters]
    exact List.mem_map.mpr ⟨0, inside, by decide⟩
  rw [cString_of_nulFree nulFree, cmdHash_map, cmdHash_map, letters]

/-- What `lookup_command` compares with starts at its own slot. -/
theorem commandHome_of_nameIs {mem : Bytes} {name len : Int}
    {command : Command} (member : command ∈ gCmdTable)
    (fits : nameIs mem name len command.name = true) :
    commandHome command = cmdSlot (cmdHash (cString (slice mem name len))) := by
  rw [nameIs, Bool.and_eq_true] at fits
  rw [commandHome, cmdHash_of_sameName member fits.2]

/-! ## The table -/

/-- When the table is filled, it holds the commands. -/
def Filled (globals : CmdGlobals) : Prop :=
  globals.inited = true →
    Built commandHome cmdHashSize gCmdTable globals.slots

/-- `kvs_cmd_init` ends and fills the table. -/
theorem kvsCmdInit_filled {globals : CmdGlobals} (filled : Filled globals) :
    ∃ ready, kvsCmdInit globals = some ready ∧ ready.inited = true ∧
      Built commandHome cmdHashSize gCmdTable ready.slots := by
  rw [kvsCmdInit]
  split_ifs with inited
  · exact ⟨globals, rfl, inited, filled inited⟩
  · obtain ⟨slots, entered, built⟩ :=
      @built_of_items _ commandHome cmdHashSize gCmdTable
        (fun _ _ => cmdSlot_lt _) (by decide)
    rw [entered]
    exact ⟨_, rfl, rfl, built⟩

/-- `lookup_command` ends and finds what a scan of the table finds. -/
theorem lookupCommandIn_filled {globals : CmdGlobals}
    (filled : Filled globals) (mem : Bytes) (name len : Int) :
    ∃ next, lookupCommandIn globals mem name len =
        some (next, gCmdTable.find? (fun command =>
          nameIs mem name (compareLen mem name len) command.name)) ∧
      Filled next := by
  obtain ⟨ready, init, -, built⟩ := kvsCmdInit_filled filled
  refine ⟨ready, ?_, fun _ => built⟩
  rw [lookupCommandIn, init, Option.bind_some,
    built.probe (cmdSlot_lt _)
      (fun command member fits => commandHome_of_nameIs member fits),
    Option.map_some]

theorem Reached.filled {globals : CmdGlobals} (reached : Reached globals) :
    Filled globals := by
  induction reached with
  | zero => exact nofun
  | @lookup globals next mem name len found before called induction =>
      obtain ⟨other, called', filled⟩ :=
        lookupCommandIn_filled induction mem name len
      obtain ⟨rfl, -⟩ := Prod.mk.inj
        (Option.some.inj (called.symm.trans called'))
      exact filled

/-- The names of the table differ in more than the case of their letters. -/
theorem gCmdTable_distinct :
    (gCmdTable.map (fun command => command.name.map toUpper)).Nodup := by
  decide

/-- A scan of the table finds the one entry of a name. -/
theorem scan_iff {name : Bytes} {command : Command} :
    gCmdTable.find? (fun other => sameName name other.name) = some command ↔
      command ∈ gCmdTable ∧ sameName name command.name = true := by
  constructor
  · intro found
    have fits := List.find?_some found
    exact ⟨List.mem_of_find?_eq_some found, fits⟩
  · rintro ⟨member, same⟩
    have hits : (gCmdTable.find?
        (fun other => sameName name other.name)).isSome = true :=
      List.find?_isSome.mpr ⟨command, member, same⟩
    obtain ⟨other, found⟩ := Option.isSome_iff_exists.mp hits
    have fits := List.find?_some found
    have letters : other.name.map toUpper = command.name.map toUpper :=
      (eq_of_beq fits).symm.trans (eq_of_beq same)
    rw [found, List.inj_on_of_nodup_map gCmdTable_distinct
      (List.mem_of_find?_eq_some found) member letters]

/--
For every name of at least one byte, wherever it is stored and whatever was
looked up before: `lookup_command` ends, and returns what a scan of the table
finds, the entry whose name is equal but for the case of the letters, or
`NULL` when there is none.
-/
theorem lookupCommand_scans {globals : CmdGlobals} (reached : Reached globals)
    {mem : Bytes} {address : Int} {name : Bytes} (nonempty : name ≠ [])
    (stored : Holds mem address name) :
    ∃ next found,
      lookupCommandIn globals mem address name.length = some (next, found) ∧
        found = gCmdTable.find? (fun command => sameName name command.name) ∧
          ∀ command, found = some command ↔
            command ∈ gCmdTable ∧ sameName name command.name = true := by
  obtain ⟨next, called, -⟩ :=
    lookupCommandIn_filled reached.filled mem address name.length
  have positive : (0 : Int) < name.length :=
    Int.natCast_pos.mpr (List.length_pos_of_ne_nil nonempty)
  have compared : ∀ command : Command,
      nameIs mem address (compareLen mem address name.length) command.name =
        sameName name command.name := by
    intro command
    rw [compareLen, if_pos positive]
    exact nameIs_of_slice stored.slice rfl command.name
  simp only [compared] at called
  exact ⟨next, _, called, rfl, fun command => scan_iff⟩

/-- A name in small letters. -/
theorem lookupCommand_scans_small :
    ∃ next, lookupCommandIn CmdGlobals.zero (ascii "setctx") 0 6 =
      some (next, some ⟨ascii "SETCTX", .setctx⟩) := by
  obtain ⟨next, found, called, -, only⟩ :=
    @lookupCommand_scans CmdGlobals.zero .zero (ascii "setctx") 0
      (ascii "setctx") (by decide) ⟨le_refl 0, List.prefix_rfl⟩
  have hit := (only ⟨ascii "SETCTX", .setctx⟩).mpr (by decide)
  rw [hit] at called
  exact ⟨next, called⟩

/-! ## The filled table -/

theorem freeSlot_of_freeFrom {slots : CmdHash} {fuel idx free : Nat}
    (found : freeFrom slots cmdHashSize fuel idx = some free) :
    freeSlot slots fuel idx = free := by
  induction fuel generalizing idx with
  | zero => cases found
  | succ fuel induction =>
      rw [freeFrom, slotAt] at found
      rw [freeSlot]
      cases here : slots[idx]?.join with
      | none =>
          rw [here] at found
          exact Option.some.inj found
      | some command =>
          rw [here] at found
          exact induction found

theorem enterCommands_of_enter {commands : List Command} {slots next : CmdHash}
    (entered : commands.foldlM (enter commandHome cmdHashSize cmdHashSize)
      slots = some next) :
    commands.foldl enterCommand slots = next := by
  induction commands generalizing slots with
  | nil => exact Option.some.inj entered
  | cons command rest induction =>
      rw [List.foldlM_cons] at entered
      obtain ⟨middle, first, later⟩ := Option.bind_eq_some_iff.mp entered
      obtain ⟨free, led, rfl⟩ := Option.map_eq_some_iff.mp first
      rw [List.foldl_cons, enterCommand]
      have place := freeSlot_of_freeFrom led
      rw [commandHome] at place
      rw [place]
      exact induction later

/-- `g_cmd_hash` after `kvs_cmd_init` holds the commands. -/
theorem gCmdHash_built :
    Built commandHome cmdHashSize gCmdTable gCmdHash := by
  obtain ⟨slots, entered, built⟩ :=
    @built_of_items _ commandHome cmdHashSize gCmdTable
      (fun _ _ => cmdSlot_lt _) (by decide)
  rw [gCmdHash, enterCommands_of_enter entered]
  exact built

theorem probe_of_probeFrom {fits : Command → Bool} {fuel idx : Nat}
    {found : Option Command}
    (probed : probeFrom gCmdHash cmdHashSize fits fuel idx = some found) :
    probe fits fuel idx = found := by
  induction fuel generalizing idx with
  | zero => cases probed
  | succ fuel induction =>
      rw [probeFrom, slotAt] at probed
      rw [probe]
      cases here : gCmdHash[idx]?.join with
      | none =>
          rw [here] at probed
          exact Option.some.inj probed
      | some command =>
          rw [here] at probed
          dsimp only at probed ⊢
          split_ifs at probed ⊢ with fitting
          · exact Option.some.inj probed
          · exact induction probed

/-- A probe of the filled table is a scan of the commands. -/
theorem probe_scan {fits : Command → Bool} {idx : Nat}
    (inside : idx < cmdHashSize)
    (agrees : ∀ command ∈ gCmdTable, fits command = true →
      commandHome command = idx) :
    probe fits cmdHashSize idx = gCmdTable.find? fits :=
  probe_of_probeFrom (gCmdHash_built.probe inside agrees)

/-- `lookup_command` is a scan of the commands. -/
theorem lookupCommand_scan (mem : Bytes) (name len : Int) :
    lookupCommand mem name len = gCmdTable.find? (fun command =>
      nameIs mem name (compareLen mem name len) command.name) :=
  probe_scan (cmdSlot_lt _)
    (fun _ member fits => commandHome_of_nameIs member fits)

end Kivo.Server.CommandLookup
