import Kivo.Clib.Chain
import Kivo.Clib.Wire

/-!
# Byte-addressed heap

The memory of a process is a function from addresses to bytes.  A field of a
structure is read and written as a little-endian number of some width; a write
changes the bytes of its field and no other byte.  Intrusive lists are chains
of the words that their nodes start with, so that unlinking a node is one store
through a pointer to the link that leads to it.
-/

namespace Kivo.Clib.Heap

open Kivo.Clib.Chain
open Kivo.Clib.Memory (Bytes)
open Kivo.Clib.Wire

/-- The bytes of a process, by address. -/
abbrev Image := Nat → UInt8

/-! ## Fields -/

/-- The bytes of a range. -/
def readBytes (image : Image) (address length : Nat) : Bytes :=
  (List.range length).map (fun offset => image (address + offset))

/-- The image with some bytes written from an address on. -/
def writeBytes (image : Image) (address : Nat) (bytes : Bytes) : Image :=
  fun place =>
    if address ≤ place ∧ place < address + bytes.length then
      bytes.getD (place - address) 0
    else image place

/-- The number in a field of some width. -/
def load (width : Nat) (image : Image) (address : Nat) : Nat :=
  leValue (readBytes image address width)

/-- The image with a number written to a field of some width. -/
def store (width : Nat) (image : Image) (address value : Nat) : Image :=
  writeBytes image address (leBytes width value)

/-- Two images have the same bytes in a range. -/
def SameOn (image image' : Image) (address length : Nat) : Prop :=
  ∀ place, address ≤ place → place < address + length →
    image' place = image place

variable {image image' : Image} {address other length width value : Nat}

theorem SameOn.part {from' length' : Nat}
    (same : SameOn image image' address length)
    (starts : address ≤ from') (ends : from' + length' ≤ address + length) :
    SameOn image image' from' length' :=
  fun place lower upper => same place (by omega) (by omega)

theorem SameOn.trans {image'' : Image}
    (first : SameOn image image' address length)
    (second : SameOn image' image'' address length) :
    SameOn image image'' address length :=
  fun place lower upper =>
    (second place lower upper).trans (first place lower upper)

@[simp]
theorem readBytes_length (image : Image) (address length : Nat) :
    (readBytes image address length).length = length := by
  rw [readBytes, List.length_map, List.length_range]

theorem readBytes_congr (same : SameOn image image' address length) :
    readBytes image' address length = readBytes image address length := by
  apply List.map_congr_left
  intro offset member
  exact same _ (by omega) (by have := List.mem_range.mp member; omega)

theorem load_congr (same : SameOn image image' address width) :
    load width image' address = load width image address := by
  rw [load, load, readBytes_congr same]

theorem writeBytes_sameOn {bytes : Bytes}
    (apart : other + length ≤ address ∨ address + bytes.length ≤ other) :
    SameOn image (writeBytes image address bytes) other length := by
  intro place lower upper
  rw [writeBytes, if_neg (by omega)]

theorem store_sameOn
    (apart : other + length ≤ address ∨ address + width ≤ other) :
    SameOn image (store width image address value) other length :=
  writeBytes_sameOn (by rw [leBytes_length]; exact apart)

theorem readBytes_writeBytes (image : Image) (address : Nat) (bytes : Bytes) :
    readBytes (writeBytes image address bytes) address bytes.length =
      bytes := by
  apply List.ext_getElem
  · rw [readBytes_length]
  · intro index bound bound'
    simp only [readBytes, List.getElem_map, List.getElem_range]
    rw [writeBytes, if_pos (by omega), Nat.add_sub_cancel_left,
      List.getD_eq_getElem _ _ bound']

/-- A field holds what was stored in it, as far as its width goes. -/
theorem load_store (width : Nat) (image : Image) (address value : Nat) :
    load width (store width image address value) address =
      value % 256 ^ width := by
  have read := readBytes_writeBytes image address (leBytes width value)
  rw [leBytes_length] at read
  rw [load, store, read, leValue_leBytes]

theorem load_store_fits (fits : value < 256 ^ width) :
    load width (store width image address value) address = value := by
  rw [load_store, Nat.mod_eq_of_lt fits]

/-- A store leaves the fields beside its own as they are. -/
theorem load_store_apart {width' : Nat}
    (apart : other + width' ≤ address ∨ address + width ≤ other) :
    load width' (store width image address value) other =
      load width' image other :=
  load_congr (store_sameOn apart)

theorem load_lt (width : Nat) (image : Image) (address : Nat) :
    load width image address < 256 ^ width := by
  have bound := leValue_lt (readBytes image address width)
  rwa [readBytes_length] at bound

/-! ## Intrusive lists

A node of the list starts with the word that leads to the next node, so that a
pointer to a link is the address of a node or of the word that holds the head
of the list. -/

/-- The words of two nodes do not overlap. -/
def WordsApart (first second : Nat) : Prop :=
  first + 8 ≤ second ∨ second + 8 ≤ first

/-- `while (*pp && *pp != node) pp = *pp; if (*pp) *pp = node->next`. -/
def unlink (node : Nat) : Nat → Nat → Image → Option Image
  | 0, _, _ => none
  | fuel + 1, pointer, image =>
      if load 8 image pointer = 0 then some image
      else if load 8 image pointer = node then
        some (store 8 image pointer (load 8 image node))
      else unlink node fuel (load 8 image pointer) image

/-- Unlink every node that a test picks out. -/
def unlinkAll (picks : Nat → Bool) : Nat → Nat → Image → Option Image
  | 0, _, _ => none
  | fuel + 1, pointer, image =>
      if load 8 image pointer = 0 then some image
      else if picks (load 8 image pointer) then
        unlinkAll picks fuel pointer
          (store 8 image pointer (load 8 image (load 8 image pointer)))
      else unlinkAll picks fuel (load 8 image pointer) image

variable {head node : Nat} {nodes first second : List Nat} {fuel : Nat}

/-- A list whose words are left alone stays a list. -/
theorem Linked.sameOn
    (linked : Linked (load 8 image) 0 head nodes)
    (same : ∀ cell ∈ head :: nodes, SameOn image image' cell 8) :
    Linked (load 8 image') 0 head nodes :=
  linked.congr (fun cell member => load_congr (same cell member))

/-- A list is entered through another link. -/
theorem Linked.rehead {head' : Nat}
    (linked : Linked (load 8 image) 0 head nodes)
    (enters : load 8 image' head' = load 8 image head)
    (same : ∀ cell ∈ nodes, SameOn image image' cell 8) :
    Linked (load 8 image') 0 head' nodes := by
  cases nodes with
  | nil => exact ⟨enters.trans linked.1, trivial⟩
  | cons node rest =>
      exact ⟨enters.trans linked.1, Linked.sameOn linked.2 same⟩

theorem unlink_eq (linked : Linked (load 8 image) 0 head (first ++ node :: second))
    (proper : ∀ passed ∈ first, passed ≠ 0 ∧ passed ≠ node)
    (nonnull : node ≠ 0) (enough : first.length < fuel) :
    unlink node fuel head image =
      some (store 8 image (first.getLastD head) (load 8 image node)) := by
  induction first generalizing head fuel with
  | nil =>
      obtain ⟨fuel, rfl⟩ := Nat.exists_eq_add_of_lt enough
      have step : load 8 image head = node := linked.1
      rw [List.length_nil, Nat.zero_add, unlink, step, if_neg nonnull,
        if_pos rfl, List.getLastD_nil]
  | cons passed first induction =>
      obtain ⟨fuel, rfl⟩ := Nat.exists_eq_add_of_lt enough
      have step : load 8 image head = passed := linked.1
      obtain ⟨present, different⟩ := proper passed List.mem_cons_self
      rw [unlink, step, if_neg present, if_neg different,
        List.getLastD_cons]
      exact induction linked.2
        (fun other member => proper other (List.mem_cons_of_mem _ member))
        (by rw [List.length_cons]; omega)

/-- The links that the loop writes are those of the head and of the nodes. -/
theorem unlinkAll_ok {picks : Nat → Bool}
    (linked : Linked (load 8 image) 0 head nodes)
    (proper : ∀ passed ∈ nodes, passed ≠ 0)
    (apart : (head :: nodes).Pairwise WordsApart)
    (enough : nodes.length < fuel) :
    ∃ image', unlinkAll picks fuel head image = some image' ∧
      Linked (load 8 image') 0 head (nodes.filter (fun passed => !picks passed)) ∧
        ∀ place, (∀ cell ∈ head :: nodes, place < cell ∨ cell + 8 ≤ place) →
          image' place = image place := by
  induction nodes generalizing head image fuel with
  | nil =>
      obtain ⟨fuel, rfl⟩ := Nat.exists_eq_add_of_lt enough
      refine ⟨image, ?_, linked, fun _ _ => rfl⟩
      rw [List.length_nil, Nat.zero_add, unlinkAll, if_pos linked.1]
  | cons passed rest induction =>
      obtain ⟨fuel, rfl⟩ := Nat.exists_eq_add_of_lt enough
      have step : load 8 image head = passed := linked.1
      have tail : Linked (load 8 image) 0 passed rest := linked.2
      have present := proper passed List.mem_cons_self
      have proper' : ∀ other ∈ rest, other ≠ 0 :=
        fun other member => proper other (List.mem_cons_of_mem _ member)
      obtain ⟨headApart, restApart⟩ := List.pairwise_cons.mp apart
      have enough' : rest.length < (passed :: rest).length + fuel := by
        rw [List.length_cons]
        omega
      rw [unlinkAll, step, if_neg present]
      cases picked : picks passed with
      | true =>
          have skipped : Linked (load 8
              (store 8 image head (load 8 image passed))) 0 head rest := by
            apply Linked.rehead tail (load_store_fits (load_lt 8 image passed))
            intro cell member
            exact store_sameOn
              (headApart cell (List.mem_cons_of_mem _ member)).symm
          obtain ⟨image', done, chain, frame⟩ := induction skipped proper'
            (List.pairwise_cons.mpr
              ⟨fun cell member =>
                headApart cell (List.mem_cons_of_mem _ member),
                (List.pairwise_cons.mp restApart).2⟩) enough'
          refine ⟨image', ?_, ?_, ?_⟩
          · rw [if_pos rfl, done]
          · rw [List.filter_cons_of_neg (by simp [picked])]
            exact chain
          · intro place outside
            rw [frame place (fun cell member => outside cell (by
              rcases List.mem_cons.mp member with rfl | member
              · exact List.mem_cons_self
              · exact List.mem_cons_of_mem _
                  (List.mem_cons_of_mem _ member)))]
            have beside := outside head List.mem_cons_self
            exact @store_sameOn image head place 1 8 _ (by omega) place
              le_rfl (by omega)
      | false =>
          obtain ⟨image', done, chain, frame⟩ :=
            induction tail proper' restApart enough'
          refine ⟨image', ?_, ?_, ?_⟩
          · rw [if_neg (by simp), done]
          · rw [List.filter_cons_of_pos (by simp [picked])]
            refine ⟨?_, chain⟩
            have kept : SameOn image image' head 8 := by
              intro place lower upper
              apply frame
              intro cell member
              have beside := headApart cell member
              rw [WordsApart] at beside
              omega
            rw [load_congr kept, step]
          · intro place outside
            apply frame
            intro cell member
            exact outside cell (List.mem_cons_of_mem _ member)

/-! ## What the system hands out -/

/-- A range of addresses. -/
structure Region where
  base : Nat
  length : Nat
  deriving DecidableEq

/-- Two regions do not overlap. -/
def Region.Apart (first second : Region) : Prop :=
  first.base + first.length ≤ second.base ∨
    second.base + second.length ≤ first.base

instance (first second : Region) : Decidable (first.Apart second) :=
  inferInstanceAs (Decidable (_ ∨ _))

instance : Std.Symm Region.Apart where
  symm _ _ := Or.symm

/-- What the allocator of the C library answers: an address, and the bytes that
happen to lie there. -/
structure Grant where
  base : Nat
  contents : Image

/-- A process: its bytes, and the regions it has been given and has not given
back. -/
structure Process where
  image : Image
  held : List Region

/-- A grant is used. -/
def Process.take (process : Process) (grant : Grant) (length : Nat) :
    Process where
  image place :=
    if grant.base ≤ place ∧ place < grant.base + length then
      grant.contents place
    else process.image place
  held := ⟨grant.base, length⟩ :: process.held

/-- `free(base)`. -/
def Process.release (process : Process) (base : Nat) : Process :=
  { process with
    held := process.held.filter (fun region => region.base ≠ base) }

/-- The grant is a proper address range that overlaps nothing held. -/
structure Fresh (process : Process) (grant : Grant) (length : Nat) :
    Prop where
  positive : 0 < grant.base
  bounded : grant.base + length ≤ 2 ^ 64
  apart : ∀ region ∈ process.held, Region.Apart ⟨grant.base, length⟩ region

instance freshDecidable (process : Process) (grant : Grant) (length : Nat) :
    Decidable (Fresh process grant length) :=
  decidable_of_iff
    (0 < grant.base ∧ grant.base + length ≤ 2 ^ 64 ∧
      ∀ region ∈ process.held, Region.Apart ⟨grant.base, length⟩ region)
    ⟨fun ⟨positive, bounded, apart⟩ => ⟨positive, bounded, apart⟩,
      fun fresh => ⟨fresh.positive, fresh.bounded, fresh.apart⟩⟩

/-- Different regions that are held do not overlap. -/
def Process.Sound (process : Process) : Prop :=
  process.held.Pairwise Region.Apart

theorem Process.Sound.apart {process : Process} (sound : process.Sound)
    {first second : Region} (firstHeld : first ∈ process.held)
    (secondHeld : second ∈ process.held) (different : first ≠ second) :
    first.Apart second :=
  List.Pairwise.forall sound firstHeld secondHeld different

theorem Process.Sound.take {process : Process} (sound : process.Sound)
    {grant : Grant} {length : Nat} (fresh : Fresh process grant length) :
    (process.take grant length).Sound :=
  List.pairwise_cons.mpr ⟨fresh.apart, sound⟩

theorem Process.Sound.release {process : Process} (sound : process.Sound)
    (base : Nat) : (process.release base).Sound :=
  sound.filter _

theorem Process.take_sameOn {process : Process} {grant : Grant}
    {length : Nat} {region : Region}
    (apart : Region.Apart ⟨grant.base, length⟩ region) :
    SameOn process.image (process.take grant length).image region.base
      region.length := by
  intro place lower upper
  have outside : ¬ (grant.base ≤ place ∧ place < grant.base + length) := by
    rw [Region.Apart] at apart
    dsimp only at apart
    omega
  exact if_neg outside

end Kivo.Clib.Heap
