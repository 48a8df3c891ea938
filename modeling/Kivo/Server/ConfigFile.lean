import Kivo.Clib.Lines
import Kivo.Clib.PaddedNumeral
import Kivo.Persistence.Startup

/-!
# The configuration file

`load_config` reads the file piece by piece, takes two words out of a piece and
stores what the second one says under the first.  `main` makes the flags of the
server of it.

A file is written here as a list of lines: comments, blank lines and
assignments with any white space and with anything behind them.  What is loaded
is decided by the last line that names a setting.
-/

namespace Kivo.Server.ConfigFile

open Kivo.Clib.Memory
open Kivo.Clib.Numeral
open Kivo.Clib.Scanning
open Kivo.Clib.PaddedNumeral
open Kivo.Clib.Lines
open Kivo.Persistence.Startup (Config)

/-! ## The code -/

/-- `server_config_t`. -/
structure ServerConfig where
  port : Int
  persistence : Int
  snapshot : Int
  expire : Int
  mempool : Int
  replication : Int
  transport : Int
  embedding : Int
deriving DecidableEq, Repr

/-- What `load_config` stores before it opens the file. -/
def ServerConfig.initial : ServerConfig :=
  { port := 2000
    persistence := 0
    snapshot := 0
    expire := 0
    mempool := 0
    replication := 0
    transport := 0
    embedding := 1 }

/-- `parse_persistence`. -/
def parsePersistence (val : Bytes) : Int :=
  if val = ascii "ON" then 1 else 0

/-- `parse_onoff`. -/
def parseOnoff (val : Bytes) : Int :=
  if val = ascii "ON" then 1 else 0

/-- `parse_replication`. -/
def parseReplication (val : Bytes) : Int :=
  if val = ascii "MASTER" then 1
  else if val = ascii "SLAVE" then 2
  else 0

/-- `parse_transport`. -/
def parseTransport (val : Bytes) : Int :=
  if val = ascii "RDMA" then 1
  else if val = ascii "TCP" then 2
  else 0

/-- The keys of the file, in the order in which they are tested. -/
inductive Setting where
  | port
  | persistence
  | snapshot
  | expire
  | mempool
  | replication
  | transport
  | embedding
deriving DecidableEq, Repr

def Setting.all : List Setting :=
  [.port, .persistence, .snapshot, .expire, .mempool, .replication,
    .transport, .embedding]

def Setting.key : Setting → Bytes
  | .port => ascii "port"
  | .persistence => ascii "persistence"
  | .snapshot => ascii "snapshot"
  | .expire => ascii "expire"
  | .mempool => ascii "mempool"
  | .replication => ascii "replication"
  | .transport => ascii "transport"
  | .embedding => ascii "embedding"

/-- What a value says. -/
def Setting.parse : Setting → Bytes → Int
  | .port => atoi
  | .persistence => parsePersistence
  | .snapshot => parseOnoff
  | .expire => parseOnoff
  | .mempool => parseOnoff
  | .replication => parseReplication
  | .transport => parseTransport
  | .embedding => parseOnoff

def Setting.field : Setting → ServerConfig → Int
  | .port => ServerConfig.port
  | .persistence => ServerConfig.persistence
  | .snapshot => ServerConfig.snapshot
  | .expire => ServerConfig.expire
  | .mempool => ServerConfig.mempool
  | .replication => ServerConfig.replication
  | .transport => ServerConfig.transport
  | .embedding => ServerConfig.embedding

def Setting.store (value : Int) (cfg : ServerConfig) : Setting → ServerConfig
  | .port => { cfg with port := value }
  | .persistence => { cfg with persistence := value }
  | .snapshot => { cfg with snapshot := value }
  | .expire => { cfg with expire := value }
  | .mempool => { cfg with mempool := value }
  | .replication => { cfg with replication := value }
  | .transport => { cfg with transport := value }
  | .embedding => { cfg with embedding := value }

/-- `if (strcmp(key, ..) == 0) cfg->.. = ..`, for the settings of a list. -/
def assignEach (key val : Bytes) (settings : List Setting)
    (cfg : ServerConfig) : ServerConfig :=
  settings.foldl
    (fun cfg setting =>
      if key = setting.key then setting.store (setting.parse val) cfg
      else cfg)
    cfg

/-- The body of the loop over the lines. -/
def readPiece (cfg : ServerConfig) (line : Bytes) : ServerConfig :=
  if line.head? = some 35 ∨ line.head? = some 10 ∨ line.head? = some 13 then
    cfg
  else
    match scanPair 63 line with
    | some (key, val) => assignEach key val Setting.all cfg
    | none => cfg

/-- `load_config`: what it returns, and the configuration it fills in.  A file
that cannot be opened is `none`. -/
def loadConfig : Option Bytes → Int × ServerConfig
  | none => (-1, .initial)
  | some text => (0, (readPieces 255 text).foldl readPiece .initial)

/-- The flags that `main` makes of the configuration. -/
def mainConfig (cfg : ServerConfig) : Config :=
  { flags :=
      { enablePersistence := cfg.persistence == 1
        enableTtl := cfg.expire != 0
        enableReplMaster := cfg.replication == 1
        enableReplSlave := cfg.replication == 2
        useTcpSync := cfg.transport == 2 }
    enableSnapshot := cfg.snapshot == 1 }

/-! ## Settings -/

theorem ServerConfig.eq_of_fields {cfg other : ServerConfig}
    (same : ∀ setting : Setting, setting.field cfg = setting.field other) :
    cfg = other := by
  cases cfg
  cases other
  exact congr (congr (congr (congr (congr (congr (congr (congrArg _
    (same .port)) (same .persistence)) (same .snapshot)) (same .expire))
    (same .mempool)) (same .replication)) (same .transport)) (same .embedding)

theorem field_store (setting other : Setting) (value : Int)
    (cfg : ServerConfig) :
    setting.field (other.store value cfg) =
      if setting = other then value else setting.field cfg := by
  cases setting <;> cases other <;> rfl

theorem mem_all (setting : Setting) : setting ∈ Setting.all := by
  cases setting <;> decide

/-- One test. -/
theorem field_test (key val : Bytes) (setting first : Setting)
    (cfg : ServerConfig) :
    setting.field
        (if key = first.key then first.store (first.parse val) cfg else cfg) =
      if setting = first ∧ key = setting.key then setting.parse val
      else setting.field cfg := by
  by_cases here : setting = first
  · subst here
    by_cases named : key = setting.key
    · rw [if_pos named, field_store, if_pos rfl, if_pos ⟨rfl, named⟩]
    · rw [if_neg named, if_neg (fun both => named both.2)]
  · have other : ¬ (setting = first ∧ key = setting.key) :=
      fun both => here both.1
    rw [if_neg other]
    by_cases named : key = first.key
    · rw [if_pos named, field_store, if_neg here]
    · rw [if_neg named]

/-- The tests store under the key and nowhere else. -/
theorem field_assignEach (key val : Bytes) (setting : Setting)
    (settings : List Setting) (cfg : ServerConfig) :
    setting.field (assignEach key val settings cfg) =
      if setting ∈ settings ∧ key = setting.key then setting.parse val
      else setting.field cfg := by
  induction settings generalizing cfg with
  | nil => exact (if_neg (fun both => List.not_mem_nil both.1)).symm
  | cons first rest induction =>
      refine (induction _).trans ?_
      rw [field_test]
      by_cases named : key = setting.key
      · by_cases later : setting ∈ rest
        · rw [if_pos ⟨later, named⟩,
            if_pos ⟨List.mem_cons_of_mem first later, named⟩]
        · simp only [List.mem_cons, later, or_false, false_and, if_false]
      · simp only [named, and_false, if_false]

/-! ## Lines -/

/-- A line without its end. -/
inductive Line where
  | comment (text : Bytes)
  | blank (text : Bytes)
  | assignment (before key between value after : Bytes)

def Line.text : Line → Bytes
  | .comment text => 35 :: text
  | .blank text => text
  | .assignment before key between value after =>
      before ++ (key ++ (between ++ (value ++ after)))

/-- What a line is made of: a blank line has nothing but white space; an
assignment has two words of at most 63 bytes, and what follows them is apart
from the second one. -/
def Line.Shaped : Line → Prop
  | .comment _ => True
  | .blank text => Blank text
  | .assignment before key between value after =>
      Blank before ∧ before.head? ≠ some 13 ∧
        Word 63 key ∧ (before = [] → key.head? ≠ some 35) ∧
        Blank between ∧ between ≠ [] ∧ Word 63 value ∧
        ∀ byte ∈ after.head?, isSpace byte = true ∨ byte = 0

/-- A line that `fgets` reads whole. -/
structure Line.Proper (line : Line) : Prop where
  shaped : line.Shaped
  unbroken : (10 : UInt8) ∉ line.text
  fits : line.text.length < 255

/-- The file of some lines. -/
def render (lines : List Line) : Bytes :=
  lines.flatMap (fun line => line.text ++ [10])

/-- The value that a line gives a setting. -/
def Line.named (setting : Setting) : Line → Option Bytes
  | .assignment _ key _ value _ =>
      if key = setting.key then some value else none
  | _ => none

/-- The value that the last line gives that names a setting. -/
def lastValue (setting : Setting) (lines : List Line) : Option Bytes :=
  (lines.filterMap (Line.named setting)).getLast?

/-- The end of a line, which the last line of a file may lack. -/
def LineEnd (tail : Bytes) : Prop :=
  tail = [10] ∨ tail = []

section Lines

variable {line : Line} {tail : Bytes}

theorem endsWord_after {after : Bytes} (lineEnd : LineEnd tail)
    (apart : ∀ byte ∈ after.head?, isSpace byte = true ∨ byte = 0) :
    EndsWord (cString (after ++ tail)) := by
  cases after with
  | nil =>
      rcases lineEnd with rfl | rfl
      · exact (by decide : isSpace 10 = true)
      · trivial
  | cons byte after =>
      rcases apart byte rfl with space | rfl
      · rw [List.cons_append, cString_cons]
        · exact space
        · rintro rfl
          exact absurd space (by decide)
      · trivial

/-- No assignment starts like a comment or an empty line. -/
theorem head_kept {before key rest : Bytes} (blank : Blank before)
    (unbroken : (10 : UInt8) ∉ before) (visible : before.head? ≠ some 13)
    (word : Word 63 key) (bare : before = [] → key.head? ≠ some 35) :
    ¬ ((before ++ (key ++ rest)).head? = some 35 ∨
      (before ++ (key ++ rest)).head? = some 10 ∨
      (before ++ (key ++ rest)).head? = some 13) := by
  have solid : ∀ byte, isSpace byte = true → key.head? ≠ some byte := by
    intro byte space first
    have member := List.mem_of_mem_head? first
    rw [word.solid byte member] at space
    cases space
  cases before with
  | nil =>
      rw [List.nil_append, List.head?_append_of_ne_nil _ word.nonempty]
      rintro (mark | lf | cr)
      · exact bare rfl mark
      · exact solid 10 (by decide) lf
      · exact solid 13 (by decide) cr
  | cons byte others =>
      rw [List.cons_append, List.head?_cons]
      have space := blank byte List.mem_cons_self
      rintro (mark | lf | cr)
      · rw [Option.some.inj mark] at space
        exact absurd space (by decide)
      · exact unbroken (Option.some.inj lf ▸ List.mem_cons_self)
      · exact visible (congrArg some (Option.some.inj cr))

/-- A line stores its value under the setting that it names. -/
theorem field_readPiece (proper : line.Proper) (lineEnd : LineEnd tail)
    (setting : Setting) (cfg : ServerConfig) :
    setting.field (readPiece cfg (line.text ++ tail)) =
      ((line.named setting).map setting.parse).getD (setting.field cfg) := by
  cases line with
  | comment text => rfl
  | blank text =>
      have blank : Blank (text ++ tail) := by
        intro byte member
        rcases List.mem_append.mp member with inside | last
        · exact proper.shaped byte inside
        · rcases lineEnd with rfl | rfl
          · rw [List.mem_singleton.mp last]
            decide
          · cases last
      rw [readPiece, Line.text, scanPair_blank blank]
      split_ifs <;> rfl
  | assignment before key between value after =>
      obtain ⟨blank, visible, word, bare, gap, apart, word', ends⟩ :=
        proper.shaped
      have unbroken : (10 : UInt8) ∉ before :=
        fun member => proper.unbroken (List.mem_append_left _ member)
      have pair := scanPair_words blank word gap apart word'
        (endsWord_after lineEnd ends)
      have whole : (Line.assignment before key between value after).text ++
          tail =
          before ++ (key ++ (between ++ (value ++ (after ++ tail)))) := by
        simp only [Line.text, List.append_assoc]
      rw [readPiece, if_neg, whole, pair]
      · dsimp only
        rw [field_assignEach, Line.named]
        by_cases named : key = setting.key
        · rw [if_pos ⟨mem_all setting, named⟩, if_pos named]
          rfl
        · rw [if_neg (fun both => named both.2), if_neg named]
          rfl
      · rw [whole]
        exact head_kept blank unbroken visible word bare

end Lines

/-! ## Files -/

section Files

variable {lines front : List Line} {last : Line}

theorem render_cons (line : Line) (rest : List Line) :
    render (line :: rest) = line.text ++ 10 :: render rest := by
  simp [render]

theorem render_append (front : List Line) (last : Line) :
    render (front ++ [last]) = render front ++ last.text ++ [10] := by
  simp [render]

/-- Lines that fit are read one by one. -/
theorem readPieces_render (proper : ∀ line ∈ lines, line.Proper)
    (rest : Bytes) :
    readPieces 255 (render lines ++ rest) =
      lines.map (fun line => line.text ++ [10]) ++ readPieces 255 rest := by
  induction lines with
  | nil => rfl
  | cons line lines induction =>
      have here := proper line List.mem_cons_self
      rw [render_cons, List.append_assoc, List.cons_append,
        readPieces_line here.unbroken here.fits, induction]
      · rfl
      · exact fun other member => proper other (List.mem_cons_of_mem _ member)

theorem lastValue_append (setting : Setting) :
    lastValue setting (front ++ [last]) =
      (last.named setting).or (lastValue setting front) := by
  rw [lastValue, lastValue, List.filterMap_append, List.getLast?_append]
  cases named : last.named setting with
  | none => simp [named]
  | some value => simp [named]

theorem value_or {initial : Int} (parse : Bytes → Int)
    (first second : Option Bytes) :
    (first.map parse).getD ((second.map parse).getD initial) =
      ((first.or second).map parse).getD initial := by
  cases first <;> rfl

/-- The loop over some lines stores what their last values say. -/
theorem field_lines (proper : ∀ line ∈ lines, line.Proper)
    (setting : Setting) (cfg : ServerConfig) :
    setting.field
        ((lines.map (fun line => line.text ++ [10])).foldl readPiece cfg) =
      ((lastValue setting lines).map setting.parse).getD
        (setting.field cfg) := by
  induction lines using List.reverseRecOn with
  | nil => rfl
  | append_singleton front last induction =>
      have before := induction
        (fun line member => proper line (List.mem_append_left _ member))
      rw [List.map_append, List.foldl_append, lastValue_append, ← value_or,
        ← before]
      exact field_readPiece (proper last (by simp)) (Or.inl rfl) setting _

/-- A configuration is loaded as the last lines say that name its settings. -/
theorem field_loadConfig (proper : ∀ line ∈ lines, line.Proper) {text : Bytes}
    (written : text = render lines ∨ text ++ [10] = render lines)
    (setting : Setting) :
    setting.field (loadConfig (some text)).2 =
      ((lastValue setting lines).map setting.parse).getD
        (setting.field .initial) := by
  rcases written with rfl | unended
  · have pieces := readPieces_render proper []
    rw [List.append_nil, show readPieces 255 [] = [] from rfl,
      List.append_nil] at pieces
    rw [loadConfig, pieces]
    exact field_lines proper setting .initial
  · induction lines using List.reverseRecOn with
    | nil => simp [render] at unended
    | append_singleton front last _ =>
        have before : ∀ line ∈ front, line.Proper :=
          fun line member => proper line (List.mem_append_left _ member)
        have here := proper last (by simp)
        rw [render_append, List.append_cancel_right_eq] at unended
        have pieces : (readPieces 255 text).foldl readPiece .initial =
            readPiece ((front.map (fun line => line.text ++ [10])).foldl
              readPiece .initial) (last.text ++ []) := by
          rw [unended, readPieces_render before, List.foldl_append,
            List.append_nil]
          by_cases empty : last.text = []
          · rw [empty]
            rfl
          · rw [readPieces_last here.unbroken here.fits.le empty]
            rfl
        rw [loadConfig, pieces, field_readPiece here (Or.inr rfl),
          field_lines before, value_or, lastValue_append]

end Files

/-! ## Configurations that can be written -/

/-- The values of a setting. -/
def Setting.Range (value : Int) : Setting → Prop
  | .port => -2 ^ 31 ≤ value ∧ value < 2 ^ 31
  | .replication => value = 0 ∨ value = 1 ∨ value = 2
  | .transport => value = 0 ∨ value = 1 ∨ value = 2
  | _ => value = 0 ∨ value = 1

instance (value : Int) (setting : Setting) :
    Decidable (setting.Range value) :=
  match setting with
  | .port => inferInstanceAs (Decidable (_ ∧ _))
  | .replication | .transport => inferInstanceAs (Decidable (_ ∨ _ ∨ _))
  | .persistence | .snapshot | .expire | .mempool | .embedding =>
      inferInstanceAs (Decidable (_ ∨ _))

/-- How a value is written. -/
def Setting.print (value : Int) : Setting → Bytes
  | .port => decimalInt value
  | .replication =>
      if value = 1 then ascii "MASTER"
      else if value = 2 then ascii "SLAVE"
      else ascii "OFF"
  | .transport =>
      if value = 1 then ascii "RDMA"
      else if value = 2 then ascii "TCP"
      else ascii "OFF"
  | _ => if value = 1 then ascii "ON" else ascii "OFF"

/-- A written value says what it was. -/
theorem parse_print {setting : Setting} {value : Int}
    (range : setting.Range value) :
    setting.parse (setting.print value) = value := by
  cases setting with
  | port => exact atoi_decimalInt range.1 range.2
  | replication => rcases range with rfl | rfl | rfl <;> decide
  | transport => rcases range with rfl | rfl | rfl <;> decide
  | _ => rcases range with rfl | rfl <;> decide

/-- Whatever a value says is one of the values of its setting. -/
theorem parse_range (setting : Setting) (value : Bytes) :
    setting.Range (setting.parse value) := by
  cases setting with
  | port => exact toInt32_bounds _
  | persistence =>
      change parsePersistence value = 0 ∨ parsePersistence value = 1
      rw [parsePersistence]
      split_ifs <;> simp
  | replication =>
      change parseReplication value = 0 ∨ parseReplication value = 1 ∨
        parseReplication value = 2
      rw [parseReplication]
      split_ifs <;> simp
  | transport =>
      change parseTransport value = 0 ∨ parseTransport value = 1 ∨
        parseTransport value = 2
      rw [parseTransport]
      split_ifs <;> simp
  | _ =>
      change parseOnoff value = 0 ∨ parseOnoff value = 1
      rw [parseOnoff]
      split_ifs <;> simp

theorem readPiece_range {cfg : ServerConfig}
    (range : ∀ setting : Setting, setting.Range (setting.field cfg))
    (line : Bytes) (setting : Setting) :
    setting.Range (setting.field (readPiece cfg line)) := by
  rw [readPiece]
  split_ifs
  · exact range setting
  · cases scanPair 63 line with
    | none => exact range setting
    | some pair =>
        dsimp only
        rw [field_assignEach]
        split_ifs
        · exact parse_range setting pair.2
        · exact range setting

/-- Whatever the file holds, the values are in range. -/
theorem loadConfig_range (file : Option Bytes) (setting : Setting) :
    setting.Range (setting.field (loadConfig file).2) := by
  have initial : ∀ setting : Setting,
      setting.Range (setting.field .initial) := by
    intro setting
    cases setting <;> decide
  cases file with
  | none => exact initial setting
  | some text =>
      rw [loadConfig]
      generalize readPieces 255 text = pieces
      generalize ServerConfig.initial = cfg at initial
      induction pieces generalizing cfg with
      | nil => exact initial setting
      | cons piece rest induction =>
          exact induction _ (readPiece_range initial piece)

/--
A configuration is loaded back from every file whose last lines about the
settings are written as it says, whatever else the file holds: comments, blank
lines, keys without a meaning, earlier lines about the same settings, any white
space and any text behind the values.  A setting without a line keeps what
`load_config` starts from.
-/
theorem config_round_trip {cfg : ServerConfig}
    (range : ∀ setting : Setting, setting.Range (setting.field cfg))
    {lines : List Line} (proper : ∀ line ∈ lines, line.Proper)
    (said : ∀ setting : Setting,
      lastValue setting lines = some (setting.print (setting.field cfg)) ∨
        (lastValue setting lines = none ∧
          setting.field cfg = setting.field .initial))
    {text : Bytes}
    (written : text = render lines ∨ text ++ [10] = render lines) :
    loadConfig (some text) = (0, cfg) := by
  refine Prod.ext rfl (ServerConfig.eq_of_fields (fun setting => ?_))
  rw [field_loadConfig proper written]
  rcases said setting with value | ⟨none, same⟩
  · rw [value, Option.map_some, Option.getD_some, parse_print (range setting)]
  · rw [none, same]
    rfl

/-- A file that names the port twice; its last line has no end. -/
def sampleLines : List Line :=
  [.comment (ascii " old"),
    .assignment [] (ascii "port") [32] (ascii "1") [],
    .blank [],
    .assignment [9] (ascii "port") [32] (ascii "-7") (ascii " # new"),
    .assignment [] (ascii "replication") [32] (ascii "SLAVE") []]

/-- The last port counts, and the other settings stay. -/
theorem config_round_trip_sample :
    loadConfig (some (ascii
        "# old\nport 1\n\n\tport -7 # new\nreplication SLAVE")) =
      (0, { ServerConfig.initial with port := -7, replication := 2 }) := by
  refine @config_round_trip
    { ServerConfig.initial with port := -7, replication := 2 } ?_ sampleLines
    ?_ ?_ _ (Or.inr (by decide))
  · intro setting
    cases setting <;> decide
  · intro line member
    simp only [sampleLines, List.mem_cons, List.not_mem_nil, or_false]
      at member
    rcases member with rfl | rfl | rfl | rfl | rfl
    · exact ⟨trivial, by decide, by decide⟩
    · exact ⟨⟨by decide, by decide, word_of_isWord (by decide), by decide,
        by decide, by decide, word_of_isWord (by decide), by simp⟩,
        by decide, by decide⟩
    · exact ⟨(by decide : Blank []), by decide, by decide⟩
    · have apart : ∀ byte ∈ (ascii " # new").head?,
          isSpace byte = true ∨ byte = 0 := by
        intro byte first
        rw [← Option.mem_some_iff.mp first]
        exact Or.inl (by decide)
      exact ⟨⟨by decide, by decide, word_of_isWord (by decide), by decide,
        by decide, by decide, word_of_isWord (by decide), apart⟩,
        by decide, by decide⟩
    · exact ⟨⟨by decide, by decide, word_of_isWord (by decide), by decide,
        by decide, by decide, word_of_isWord (by decide), by simp⟩,
        by decide, by decide⟩
  · intro setting
    cases setting with
    | port | replication => exact Or.inl rfl
    | _ => exact Or.inr ⟨rfl, rfl⟩

/-! ## One line for every setting -/

/-- A setting as it is written. -/
def Setting.line (cfg : ServerConfig) (setting : Setting) : Line :=
  .assignment [] setting.key [32] (setting.print (setting.field cfg)) []

theorem word_decimalInt {number : Int} (least : -2 ^ 31 ≤ number)
    (most : number < 2 ^ 31) : Word 63 (decimalInt number) := by
  have short : (decimal number.natAbs).length ≤ 62 := by
    rw [decimal_length_le_iff (by decide)]
    have small : number.natAbs ≤ 2 ^ 31 := by omega
    exact small.trans_lt (by decide)
  have digits : ∀ byte ∈ decimal number.natAbs,
      isSpace byte = false ∧ byte ≠ 0 := by
    intro byte member
    have digit := isDigit_of_mem_decimal member
    refine ⟨(isDigit_separated digit).1, ?_⟩
    rintro rfl
    exact absurd digit (by decide)
  rw [decimalInt]
  split_ifs
  · refine ⟨List.cons_ne_nil _ _, Nat.succ_le_succ short, ?_, ?_⟩
    · intro byte member
      rcases List.mem_cons.mp member with rfl | later
      · decide
      · exact (digits byte later).1
    · intro member
      rcases List.mem_cons.mp member with zero | later
      · cases zero
      · exact (digits 0 later).2 rfl
  · exact ⟨decimal_ne_nil _, short.trans (by decide),
      fun byte member => (digits byte member).1,
      fun member => (digits 0 member).2 rfl⟩

theorem word_print {setting : Setting} {value : Int}
    (range : setting.Range value) : Word 63 (setting.print value) := by
  cases setting with
  | port => exact word_decimalInt range.1 range.2
  | replication | transport =>
      rcases range with rfl | rfl | rfl <;> exact word_of_isWord (by decide)
  | _ => rcases range with rfl | rfl <;> exact word_of_isWord (by decide)

theorem word_key (setting : Setting) : Word 63 setting.key := by
  cases setting <;> exact word_of_isWord (by decide)

theorem line_proper {cfg : ServerConfig}
    (range : ∀ setting : Setting, setting.Range (setting.field cfg))
    (setting : Setting) : (setting.line cfg).Proper := by
  have key := word_key setting
  have value := word_print (range setting)
  have text : (setting.line cfg).text =
      setting.key ++ 32 :: setting.print (setting.field cfg) := by
    simp [Setting.line, Line.text]
  refine ⟨⟨by simp [Blank], by simp, key, fun _ => ?_, ?_, by decide, value,
    by simp⟩, ?_, ?_⟩
  · cases setting <;> decide
  · intro byte member
    rw [List.mem_singleton.mp member]
    decide
  · rw [text]
    intro member
    rcases List.mem_append.mp member with inside | later
    · exact absurd (key.solid 10 inside) (by decide)
    · rcases List.mem_cons.mp later with space | inside
      · cases space
      · exact absurd (value.solid 10 inside) (by decide)
  · rw [text, List.length_append, List.length_cons]
    have first := key.fits
    have second := value.fits
    omega

theorem lastValue_line (cfg : ServerConfig) (setting : Setting) :
    lastValue setting (Setting.all.map (Setting.line cfg)) =
      some (setting.print (setting.field cfg)) := by
  cases setting <;> rfl

/-- The configurations that some file yields are those with values in
range. -/
theorem loadConfig_exact (cfg : ServerConfig) :
    (∃ text, loadConfig (some text) = (0, cfg)) ↔
      ∀ setting : Setting, setting.Range (setting.field cfg) := by
  constructor
  · rintro ⟨text, loaded⟩ setting
    have range := loadConfig_range (some text) setting
    rwa [loaded] at range
  · intro range
    refine ⟨render (Setting.all.map (Setting.line cfg)),
      config_round_trip range ?_ (fun setting =>
        Or.inl (lastValue_line cfg setting)) (Or.inl rfl)⟩
    intro line member
    obtain ⟨setting, -, rfl⟩ := List.mem_map.mp member
    exact line_proper range setting

/-! ## The flags of the server -/

/-- A configuration that makes the given flags, unless they ask for a master
that is a slave. -/
def configOf (config : Config) : ServerConfig :=
  { ServerConfig.initial with
    persistence := if config.flags.enablePersistence then 1 else 0
    snapshot := if config.enableSnapshot then 1 else 0
    expire := if config.flags.enableTtl then 1 else 0
    replication :=
      if config.flags.enableReplMaster then 1
      else if config.flags.enableReplSlave then 2
      else 0
    transport := if config.flags.useTcpSync then 2 else 0 }

theorem configOf_range (config : Config) (setting : Setting) :
    setting.Range (setting.field (configOf config)) := by
  have switch : ∀ chosen : Bool, (if chosen then (1 : Int) else 0) = 0 ∨
      (if chosen then (1 : Int) else 0) = 1 := by decide
  have choice : ∀ first second : Bool,
      (if first then (1 : Int) else if second then 2 else 0) = 0 ∨
        (if first then (1 : Int) else if second then 2 else 0) = 1 ∨
        (if first then (1 : Int) else if second then 2 else 0) = 2 := by
    decide
  cases setting with
  | port => exact (by decide : Setting.Range 2000 .port)
  | persistence => exact switch config.flags.enablePersistence
  | snapshot => exact switch config.enableSnapshot
  | expire => exact switch config.flags.enableTtl
  | mempool => exact switch false
  | replication =>
      exact choice config.flags.enableReplMaster config.flags.enableReplSlave
  | transport => exact choice false config.flags.useTcpSync
  | embedding => exact switch true

theorem mainConfig_configOf {config : Config}
    (single : ¬ (config.flags.enableReplMaster = true ∧
      config.flags.enableReplSlave = true)) :
    mainConfig (configOf config) = config := by
  have switch : ∀ chosen : Bool,
      ((if chosen then (1 : Int) else 0) == 1) = chosen ∧
        ((if chosen then (1 : Int) else 0) != 0) = chosen ∧
        ((if chosen then (2 : Int) else 0) == 2) = chosen := by decide
  have choice : ∀ first second : Bool, ¬ (first = true ∧ second = true) →
      ((if first then (1 : Int) else if second then 2 else 0) == 1) =
          first ∧
        ((if first then (1 : Int) else if second then 2 else 0) == 2) =
          second := by decide
  simp only [mainConfig, configOf, switch, choice _ _ single]

/-- The flags that some file makes are those of a server that is not both a
master and a slave. -/
theorem mainConfig_reachable (config : Config) :
    (∃ text, mainConfig (loadConfig (some text)).2 = config) ↔
      ¬ (config.flags.enableReplMaster = true ∧
        config.flags.enableReplSlave = true) := by
  constructor
  · rintro ⟨text, rfl⟩ ⟨master, slave⟩
    have one := eq_of_beq master
    have two := eq_of_beq slave
    rw [one] at two
    cases two
  · intro single
    obtain ⟨text, loaded⟩ :=
      (loadConfig_exact (configOf config)).mpr (configOf_range config)
    refine ⟨text, ?_⟩
    rw [loaded]
    exact mainConfig_configOf single

end Kivo.Server.ConfigFile
