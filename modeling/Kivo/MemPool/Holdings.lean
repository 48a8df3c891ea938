import Kivo.MemPool.General

/-!
# The world of the general allocator

Nine pools, the fallback allocations and everything else that the process holds
lie apart.  Every part of a call changes one pool or the fallback allocations,
and leaves the bytes of the others alone.
-/

namespace Kivo.MemPool.Holdings

open Kivo.Clib.Heap
open Kivo.Clib.Memory (Bytes)
open Kivo.Clib.Simulation (Throughout)
open Kivo.MemPool.Slab
open Kivo.MemPool.Carving
open Kivo.MemPool.Representation
open Kivo.MemPool.SlabRuns
open Kivo.MemPool.General

/-! ## Who holds what -/

/-- The allocator, the live chunks of each pool, and the live fallback
allocations: what was returned for them, with the size asked for. -/
structure World where
  allocator : Allocator
  slab : Nat → List Nat
  fallback : List Region

namespace World

abbrev process (world : World) : Process := world.allocator.process

/-- A pool that was created for a class. -/
def Serves (world : World) (chunk pool : Nat) : Prop :=
  (chunk, pool) ∈ slabClasses.zip world.allocator.slabPools ∧ pool ≠ 0

/-- The pointer is a live chunk of a slab pool. -/
def FromSlab (world : World) (ptr : Nat) : Prop :=
  ∃ chunk pool, world.Serves chunk pool ∧ ptr ∈ world.slab pool

/-- The pointer is a live fallback allocation. -/
def FromFallback (world : World) (ptr : Nat) : Prop :=
  ∃ region ∈ world.fallback, region.base = ptr

end World

/-- A fallback allocation with its header. -/
def withHeader (region : Region) : Region :=
  ⟨region.base - 16, region.length + 16⟩

/-- A fallback allocation in the memory of the process. -/
structure Fallen (process : Process) (region : Region) : Prop where
  behind : 16 < region.base
  bounded : region.base + region.length ≤ 2 ^ 64
  held : withHeader region ∈ process.held
  size : load 8 process.image (region.base - 16) = region.length
  magic : load 8 process.image (region.base - 8) = fallbackMagic

/-- Everything that the allocator has handed out or keeps for itself lies
apart. -/
structure Consistent (count : Nat) (world : World) (layouts : Nat → Layout) :
    Prop where
  sound : world.process.Sound
  pooled : ∀ chunk pool, world.Serves chunk pool →
    Pooled chunk pool world.process (world.slab pool) (layouts pool) ∧
      Busy chunk (layouts pool) ∧ nodes (layouts pool) ≤ count
  oneClass : ∀ chunk chunk' pool, world.Serves chunk pool →
    world.Serves chunk' pool → chunk = chunk'
  blocksApart : ∀ chunk chunk' pool pool', world.Serves chunk pool →
    world.Serves chunk' pool' → pool ≠ pool' →
      ∀ block ∈ (layouts pool).blocks, block ∉ (layouts pool').blocks
  fallen : ∀ region ∈ world.fallback, Fallen world.process region
  fallenApart : world.fallback.Pairwise
    (fun first second => (withHeader first).Apart (withHeader second))
  fallenPool : ∀ region ∈ world.fallback, ∀ chunk pool,
    world.Serves chunk pool → (withHeader region).Apart ⟨pool, 48⟩ ∧
      ∀ block ∈ (layouts pool).blocks,
        (withHeader region).Apart ⟨block, 65536⟩
  unset : world.allocator.initialized = false →
    world.allocator.slabPools = List.replicate slabClasses.length 0 ∧
      ∀ pool, world.slab pool = []

variable {count fuel : Nat} {world : World} {layouts : Nat → Layout}
  {chunk pool ptr : Nat} {process process' : Process} {live : List Nat}
  {layout : Layout} {region : Region}

theorem World.Serves.slab (serves : world.Serves chunk pool) :
    chunk ∈ slabClasses :=
  (List.of_mem_zip serves.1).1

theorem World.Serves.size (serves : world.Serves chunk pool) :
    ChunkSize chunk :=
  chunkSize_slab serves.slab

theorem Fallen.frame (fallen : Fallen process region)
    (same : SameOn process.image process'.image (withHeader region).base
      (withHeader region).length)
    (held : withHeader region ∈ process'.held) :
    Fallen process' region := by
  have behind := fallen.behind
  rw [withHeader] at same
  dsimp only at same
  exact {
    behind := behind
    bounded := fallen.bounded
    held := held
    size := (load_congr (same.part (by omega) (by omega))).trans fallen.size
    magic :=
      (load_congr (same.part (by omega) (by omega))).trans fallen.magic }

/-! ## Replacing one part of the world -/

/-- The world after a call on one pool. -/
def World.withPool (world : World) (pool : Nat) (process : Process)
    (live : List Nat) : World where
  allocator := { world.allocator with process := process }
  slab := Function.update world.slab pool live
  fallback := world.fallback

/-- The world after a call that concerned fallback allocations. -/
def World.withFallback (world : World) (process : Process)
    (fallback : List Region) : World where
  allocator := { world.allocator with process := process }
  slab := world.slab
  fallback := fallback

/-- The world with other bytes. -/
def World.withImage (world : World) (image : Image) : World :=
  { world with
    allocator := { world.allocator with
      process := { world.process with image := image } } }

/-- The regions that belong to a pool: its own structure and its blocks. -/
def Owns (pool : Nat) (layout : Layout) (region : Region) : Prop :=
  region = ⟨pool, 48⟩ ∨
    ∃ block ∈ layout.blocks, region = ⟨block, 65536⟩

section Parts

variable (consistent : Consistent count world layouts)

include consistent

theorem Consistent.pools_apart {chunk' pool' : Nat}
    (serves : world.Serves chunk pool) (serves' : world.Serves chunk' pool')
    (different : pool ≠ pool') : Region.Apart ⟨pool, 48⟩ ⟨pool', 48⟩ :=
  consistent.sound.apart (consistent.pooled _ _ serves).1.poolHeld
    (consistent.pooled _ _ serves').1.poolHeld
    (fun same => different (congrArg Region.base same))

theorem Consistent.pool_block {chunk' pool' block : Nat}
    (serves : world.Serves chunk pool) (serves' : world.Serves chunk' pool')
    (member : block ∈ (layouts pool').blocks) :
    Region.Apart ⟨pool, 48⟩ ⟨block, 65536⟩ :=
  consistent.sound.apart (consistent.pooled _ _ serves).1.poolHeld
    ((consistent.pooled _ _ serves').1.blocksHeld block member)
    (fun same => absurd (congrArg Region.length same)
      (show (48 : Nat) ≠ 65536 by decide))

theorem Consistent.blocks_regions {chunk' pool' block block' : Nat}
    (serves : world.Serves chunk pool) (serves' : world.Serves chunk' pool')
    (different : pool ≠ pool') (member : block ∈ (layouts pool).blocks)
    (member' : block' ∈ (layouts pool').blocks) :
    Region.Apart ⟨block, 65536⟩ ⟨block', 65536⟩ := by
  apply consistent.sound.apart
    ((consistent.pooled _ _ serves).1.blocksHeld block member)
    ((consistent.pooled _ _ serves').1.blocksHeld block' member')
  intro same
  have bases : block = block' := congrArg Region.base same
  subst bases
  exact consistent.blocksApart _ _ _ _ serves serves' different _ member
    member'

/-- A created pool means that the pools are initialised. -/
theorem Consistent.initialized (serves : world.Serves chunk pool) :
    world.allocator.initialized = true := by
  rw [← Bool.not_eq_false]
  intro unset
  have zeros := (consistent.unset unset).1
  have member := (List.of_mem_zip serves.1).2
  rw [zeros] at member
  exact serves.2 (List.eq_of_mem_replicate member)

/-- One pool changes, and nothing that lies apart from it. -/
theorem Consistent.replacePool {count' : Nat}
    (serves : world.Serves chunk pool) (grows : count ≤ count')
    (pooled : Pooled chunk pool process' live layout)
    (busy : Busy chunk layout) (few : nodes layout ≤ count')
    (blocks : ∀ block ∈ layout.blocks, block ∈ (layouts pool).blocks ∨
      ∀ region ∈ world.process.held, Region.Apart ⟨block, 65536⟩ region)
    (outside : ∀ region ∈ world.process.held, 0 < region.length →
      region.Apart ⟨pool, 48⟩ →
      (∀ block ∈ (layouts pool).blocks, region.Apart ⟨block, 65536⟩) →
      region ∈ process'.held ∧
        SameOn world.process.image process'.image region.base
          region.length) :
    Consistent count' (world.withPool pool process' live)
      (Function.update layouts pool layout) := by
  have others : ∀ chunk' pool', world.Serves chunk' pool' → pool' ≠ pool →
      Pooled chunk' pool' process' (world.slab pool') (layouts pool') := by
    intro chunk' pool' serves' different
    obtain ⟨pooled', -, -⟩ := consistent.pooled _ _ serves'
    have own := outside ⟨pool', 48⟩ pooled'.poolHeld (Nat.zero_lt_succ _)
      (consistent.pools_apart serves' serves different)
      (fun block member => consistent.pool_block serves' serves member)
    have inBlocks : ∀ block ∈ (layouts pool').blocks,
        ⟨block, 65536⟩ ∈ process'.held ∧
          SameOn world.process.image process'.image block 65536 := by
      intro block member
      exact outside ⟨block, 65536⟩ (pooled'.blocksHeld block member)
        (Nat.zero_lt_succ _)
        (Or.symm (consistent.pool_block serves serves' member))
        (fun block' member' => consistent.blocks_regions serves' serves
          different member member')
    exact pooled'.frame pooled.sound own.2
      (fun block member => (inBlocks block member).2) own.1
      (fun block member => (inBlocks block member).1) serves'.size
  have fallenSame : ∀ region ∈ world.fallback,
      withHeader region ∈ process'.held ∧
        SameOn world.process.image process'.image (withHeader region).base
          (withHeader region).length := by
    intro region member
    have apart := consistent.fallenPool region member _ _ serves
    exact outside _ (consistent.fallen region member).held
      (Nat.succ_pos _) apart.1 apart.2
  have blockApart : ∀ block ∈ layout.blocks, ∀ chunk' pool',
      world.Serves chunk' pool' → pool' ≠ pool →
        block ∉ (layouts pool').blocks := by
    intro block member chunk' pool' serves' different inOther
    rcases blocks block member with old | fresh
    · exact consistent.blocksApart _ _ _ _ serves serves' different.symm _
        old inOther
    · have overlap := fresh _
        ((consistent.pooled _ _ serves').1.blocksHeld block inOther)
      rw [Region.Apart] at overlap
      dsimp only at overlap
      omega
  exact {
    sound := pooled.sound
    pooled := by
      intro chunk' pool' serves'
      by_cases here : pool' = pool
      · subst here
        obtain rfl : chunk' = chunk :=
          consistent.oneClass _ _ _ serves' serves
        rw [World.withPool]
        dsimp only
        rw [Function.update_self, Function.update_self]
        exact ⟨pooled, busy, few⟩
      · obtain ⟨-, busy', few'⟩ := consistent.pooled _ _ serves'
        rw [World.withPool]
        dsimp only
        rw [Function.update_of_ne here, Function.update_of_ne here]
        exact ⟨others _ _ serves' here, busy', few'.trans grows⟩
    oneClass := consistent.oneClass
    blocksApart := by
      intro chunk₁ chunk₂ pool₁ pool₂ serves₁ serves₂ different block member
      by_cases first : pool₁ = pool
      · subst first
        rw [Function.update_self] at member
        rw [Function.update_of_ne different.symm]
        exact blockApart block member _ _ serves₂ different.symm
      · rw [Function.update_of_ne first] at member
        by_cases second : pool₂ = pool
        · subst second
          rw [Function.update_self]
          exact fun inNew => blockApart block inNew _ _ serves₁ first member
        · rw [Function.update_of_ne second]
          exact consistent.blocksApart _ _ _ _ serves₁ serves₂ different _
            member
    fallen := by
      intro region member
      obtain ⟨held, same⟩ := fallenSame region member
      exact (consistent.fallen region member).frame same held
    fallenApart := consistent.fallenApart
    fallenPool := by
      intro region member chunk' pool' serves'
      have apart := consistent.fallenPool region member _ _ serves'
      refine ⟨apart.1, ?_⟩
      intro block inBlocks
      by_cases here : pool' = pool
      · subst here
        rw [Function.update_self] at inBlocks
        rcases blocks block inBlocks with old | fresh
        · exact apart.2 block old
        · exact Or.symm (fresh _ (consistent.fallen region member).held)
      · rw [Function.update_of_ne here] at inBlocks
        exact apart.2 block inBlocks
    unset := by
      intro unset
      have set := consistent.initialized serves
      exact absurd (set.symm.trans unset) (by decide) }

/-- Fallback allocations change, and no byte of a pool. -/
theorem Consistent.replaceFallback {fallback : List Region}
    (sound : process'.Sound)
    (pools : ∀ chunk pool, world.Serves chunk pool →
      ∀ region, Owns pool (layouts pool) region →
        region ∈ process'.held ∧
          SameOn world.process.image process'.image region.base
            region.length)
    (fallen : ∀ region ∈ fallback, Fallen process' region)
    (fallenApart : fallback.Pairwise
      (fun first second => (withHeader first).Apart (withHeader second)))
    (fallenPool : ∀ region ∈ fallback, ∀ chunk pool,
      world.Serves chunk pool → (withHeader region).Apart ⟨pool, 48⟩ ∧
        ∀ block ∈ (layouts pool).blocks,
          (withHeader region).Apart ⟨block, 65536⟩) :
    Consistent count (world.withFallback process' fallback) layouts where
  sound := sound
  pooled := by
    intro chunk pool serves
    obtain ⟨pooled, busy, few⟩ := consistent.pooled _ _ serves
    have own := pools _ _ serves ⟨pool, 48⟩ (Or.inl rfl)
    have inBlocks : ∀ block ∈ (layouts pool).blocks,
        ⟨block, 65536⟩ ∈ process'.held ∧
          SameOn world.process.image process'.image block 65536 :=
      fun block member =>
        pools _ _ serves ⟨block, 65536⟩ (Or.inr ⟨block, member, rfl⟩)
    exact ⟨pooled.frame sound own.2
      (fun block member => (inBlocks block member).2) own.1
      (fun block member => (inBlocks block member).1) serves.size, busy, few⟩
  oneClass := consistent.oneClass
  blocksApart := consistent.blocksApart
  fallen := fallen
  fallenApart := fallenApart
  fallenPool := fallenPool
  unset := consistent.unset

/-- What belongs to a pool is held, and has bytes. -/
theorem Consistent.owned (serves : world.Serves chunk pool)
    (owns : Owns pool (layouts pool) region) :
    region ∈ world.process.held ∧ 0 < region.length := by
  have pooled := (consistent.pooled _ _ serves).1
  rcases owns with rfl | ⟨block, member, rfl⟩
  · exact ⟨pooled.poolHeld, Nat.zero_lt_succ _⟩
  · exact ⟨pooled.blocksHeld block member, Nat.zero_lt_succ _⟩

end Parts

/-! ## What the parts of the calls keep -/

section Operations

variable (consistent : Consistent count world layouts)

include consistent

/-- A pool hands out a chunk, or nothing happens. -/
theorem Consistent.alloc {memalign : Option Grant}
    (serves : world.Serves chunk pool)
    (answers : Aligned world.process memalign) :
    memPoolAlloc pool memalign world.process = (world.process, 0) ∨
      ∃ process' ptr layout',
        memPoolAlloc pool memalign world.process = (process', ptr) ∧
          ptr ≠ 0 ∧
          Consistent (count + 1)
            (world.withPool pool process' (ptr :: world.slab pool))
            (Function.update layouts pool layout') ∧
          ∀ region ∈ world.process.held, 0 < region.length →
            region.Apart ⟨pool, 48⟩ →
            (∀ block ∈ (layouts pool).blocks,
              region.Apart ⟨block, 65536⟩) →
            region ∈ process'.held ∧
              SameOn world.process.image process'.image region.base
                region.length := by
  obtain ⟨pooled, busy, few⟩ := consistent.pooled _ _ serves
  rcases memPoolAlloc_taken serves.size pooled answers with
    refused | ⟨process', ptr, layout', allocated, taken⟩
  · exact Or.inl refused
  · have fewer := taken.nodes_le
    have outside : ∀ region ∈ world.process.held, 0 < region.length →
        region.Apart ⟨pool, 48⟩ →
        (∀ block ∈ (layouts pool).blocks, region.Apart ⟨block, 65536⟩) →
        region ∈ process'.held ∧
          SameOn world.process.image process'.image region.base
            region.length := by
      intro region held _ fromPool fromBlocks
      refine ⟨?_, taken.spared _ _ ⟨fromPool, ?_⟩ ?_⟩
      · rcases taken.held with ⟨-, same⟩ | ⟨grant, -, -, more⟩
        · rw [same]
          exact held
        · rw [more]
          exact List.mem_cons_of_mem _ held
      · intro block member
        have apart := fromBlocks block member
        rw [Region.Apart] at apart
        dsimp only at apart
        omega
      · intro grant granted
        exact Or.symm ((answers grant granted).1.apart region held)
    refine Or.inr ⟨process', ptr, layout', allocated,
      Pooled.taken_pos serves.size taken.pooled, ?_, outside⟩
    refine consistent.replacePool serves (Nat.le_succ _) taken.pooled
      (taken.busy busy) (by omega) ?_ outside
    intro block member
    rcases taken.held with ⟨same, -⟩ | ⟨grant, granted, more, -⟩
    · rw [same] at member
      exact Or.inl member
    · rw [more] at member
      rcases List.mem_cons.mp member with rfl | member
      · exact Or.inr (answers grant granted).1.apart
      · exact Or.inl member

/-- The C library gives room for a fallback allocation. -/
theorem Consistent.fallback {grant : Grant} {size : Nat}
    (small : size + 16 < 2 ^ 64)
    (fresh : Fresh world.process grant (fallbackHeader + size)) :
    ∃ process', mallocFallback size (some grant) world.allocator =
        ({ world.allocator with process := process' }, grant.base + 16) ∧
      Consistent count (world.withFallback process'
        (⟨grant.base + 16, size⟩ :: world.fallback)) layouts ∧
      ∀ region ∈ world.process.held,
        region ∈ process'.held ∧
          SameOn world.process.image process'.image region.base
            region.length := by
  have positive := fresh.positive
  have bounded := fresh.bounded
  have wraps : (fallbackHeader + size) % 2 ^ 64 = fallbackHeader + size := by
    rw [fallbackHeader]
    omega
  set taken := world.process.take grant (fallbackHeader + size) with taken_eq
  set image := store 8 (store 8 taken.image grant.base size) (grant.base + 8)
    fallbackMagic with image_eq
  have outside : ∀ region ∈ world.process.held,
      region ∈ taken.held ∧
        SameOn world.process.image image region.base region.length := by
    intro region held
    have apart := fresh.apart region held
    refine ⟨List.mem_cons_of_mem _ held, (Process.take_sameOn apart).trans
      ((store_sameOn ?_).trans (store_sameOn ?_))⟩
    · rw [Region.Apart, fallbackHeader] at apart
      dsimp only at apart
      omega
    · rw [Region.Apart, fallbackHeader] at apart
      dsimp only at apart
      omega
  have whole : withHeader ⟨grant.base + 16, size⟩ =
      ⟨grant.base, fallbackHeader + size⟩ := by
    rw [withHeader, fallbackHeader]
    dsimp only
    rw [Nat.add_sub_cancel, Nat.add_comm]
  refine ⟨{ taken with image := image }, ?_, ?_, outside⟩
  · rw [mallocFallback]
    dsimp only
    rw [wraps]
    rfl
  · refine consistent.replaceFallback (consistent.sound.take fresh) ?_ ?_ ?_ ?_
    · intro chunk pool serves region owns
      exact outside region (consistent.owned serves owns).1
    · intro region member
      rcases List.mem_cons.mp member with rfl | member
      · refine ⟨?_, ?_, ?_, ?_, ?_⟩
        · dsimp only
          omega
        · rw [fallbackHeader] at bounded
          dsimp only
          omega
        · rw [whole]
          exact List.mem_cons_self
        · dsimp only
          rw [Nat.add_sub_cancel, image_eq, load_store_apart (by omega),
            load_store_fits (by omega)]
        · have behind : grant.base + 16 - 8 = grant.base + 8 := by omega
          dsimp only
          rw [behind, image_eq, load_store_fits (by decide)]
      · have held := (consistent.fallen region member).held
        exact (consistent.fallen region member).frame (outside _ held).2
          (outside _ held).1
    · refine List.pairwise_cons.mpr ⟨?_, consistent.fallenApart⟩
      intro region member
      rw [whole]
      exact fresh.apart _ (consistent.fallen region member).held
    · intro region member chunk pool serves
      rcases List.mem_cons.mp member with rfl | member
      · rw [whole]
        refine ⟨fresh.apart _ (consistent.owned serves (Or.inl rfl)).1, ?_⟩
        intro block inBlocks
        exact fresh.apart _
          (consistent.owned serves (Or.inr ⟨block, inBlocks, rfl⟩)).1
      · exact consistent.fallenPool region member _ _ serves

/-- A live chunk goes back to its pool. -/
theorem Consistent.freeSlab (serves : world.Serves chunk pool)
    (member : ptr ∈ world.slab pool) (enough : count + 1 < fuel) :
    ∃ process' layout',
      memPoolFreeWithBlock fuel pool ptr (getBlockFromPtr ptr)
        world.process = some process' ∧
        Consistent (count + 1)
          (world.withPool pool process' ((world.slab pool).erase ptr))
          (Function.update layouts pool layout') := by
  obtain ⟨pooled, busy, few⟩ := consistent.pooled _ _ serves
  obtain ⟨process', layout', freed, returned⟩ :=
    memPoolFreeWithBlock_returned serves.size pooled busy member
      (show nodes (layouts pool) + 1 < fuel by omega)
  have fewer := returned.nodes_le
  have place := pooled.place serves.size
    (List.mem_append_right (layouts pool).free member)
  refine ⟨process', layout', freed, consistent.replacePool serves
    (Nat.le_succ _) returned.pooled returned.busy (by omega) ?_ ?_⟩
  · intro block inBlocks
    rcases returned.held with ⟨same, -⟩ | ⟨fewerBlocks, -⟩
    · rw [same] at inBlocks
      exact Or.inl inBlocks
    · rw [fewerBlocks] at inBlocks
      exact Or.inl (List.mem_of_mem_erase inBlocks)
  · intro region held nonempty fromPool fromBlocks
    refine ⟨?_, returned.spared _ _ ⟨fromPool, fromBlocks⟩⟩
    rcases returned.held with ⟨-, same⟩ | ⟨-, filtered⟩
    · rw [same]
      exact held
    · rw [filtered]
      refine List.mem_filter.mpr ⟨held, decide_eq_true ?_⟩
      have apart := fromBlocks _ place.1
      rw [Region.Apart] at apart
      dsimp only at apart
      omega

/-- A fallback allocation goes back to the C library. -/
theorem Consistent.freeFallback (member : region ∈ world.fallback) :
    Consistent count (world.withFallback
      (world.process.release (region.base - 16))
      (world.fallback.erase region)) layouts := by
  have fallen := consistent.fallen region member
  have stays : ∀ other ∈ world.process.held, 0 < other.length →
      (withHeader region).Apart other →
      other ∈ (world.process.release (region.base - 16)).held ∧
        SameOn world.process.image
          (world.process.release (region.base - 16)).image other.base
          other.length := by
    intro other held nonempty apart
    refine ⟨List.mem_filter.mpr ⟨held, decide_eq_true ?_⟩,
      fun _ _ _ => rfl⟩
    rw [Region.Apart, withHeader] at apart
    dsimp only at apart
    omega
  have others : ∀ other ∈ world.fallback.erase region,
      other ∈ world.fallback ∧ (withHeader region).Apart (withHeader other) := by
    intro other inRest
    have perm := List.perm_cons_erase member
    have pairwise := (perm.pairwise_iff (fun {_ _} apart => Or.symm apart)).mp
      consistent.fallenApart
    exact ⟨List.mem_of_mem_erase inRest,
      (List.pairwise_cons.mp pairwise).1 other inRest⟩
  refine consistent.replaceFallback (consistent.sound.release _) ?_ ?_ ?_ ?_
  · intro chunk pool serves other owns
    obtain ⟨held, nonempty⟩ := consistent.owned serves owns
    have apart := consistent.fallenPool region member _ _ serves
    apply stays other held nonempty
    rcases owns with rfl | ⟨block, inBlocks, rfl⟩
    · exact apart.1
    · exact apart.2 block inBlocks
  · intro other inRest
    obtain ⟨inFallback, apart⟩ := others other inRest
    have old := consistent.fallen other inFallback
    have kept := stays _ old.held (Nat.succ_pos _) apart
    exact old.frame kept.2 kept.1
  · exact consistent.fallenApart.sublist List.erase_sublist
  · intro other inRest
    exact consistent.fallenPool other (others other inRest).1

/-- A caller writes into a live chunk. -/
theorem Consistent.writeSlab {address : Nat} {bytes : Bytes}
    (serves : world.Serves chunk pool) (member : ptr ∈ world.slab pool)
    (lower : ptr ≤ address) (upper : address + bytes.length ≤ ptr + chunk) :
    Consistent count (world.withImage
      (writeBytes world.process.image address bytes)) layouts := by
  obtain ⟨pooled, busy, few⟩ := consistent.pooled _ _ serves
  have place := pooled.place serves.size
    (List.mem_append_right (layouts pool).free member)
  have replaced := consistent.replacePool serves le_rfl
    (write_pooled serves.size pooled member lower upper) busy few
    (fun block inBlocks => Or.inl inBlocks) (by
      intro region held _ _ fromBlocks
      have apart := fromBlocks _ place.1
      rw [Region.Apart] at apart
      dsimp only at apart
      exact ⟨held, writeBytes_sameOn (by omega)⟩)
  rw [World.withPool, Function.update_eq_self,
    Function.update_eq_self] at replaced
  exact replaced

/-- A caller writes into a fallback allocation. -/
theorem Consistent.writeFallback {address : Nat} {bytes : Bytes}
    (member : region ∈ world.fallback) (lower : region.base ≤ address)
    (upper : address + bytes.length ≤ region.base + region.length) :
    Consistent count (world.withImage
      (writeBytes world.process.image address bytes)) layouts := by
  have outside : ∀ other : Region, (withHeader region).Apart other →
      SameOn world.process.image
        (writeBytes world.process.image address bytes) other.base
          other.length := by
    intro other apart
    rw [Region.Apart, withHeader] at apart
    dsimp only at apart
    exact writeBytes_sameOn (by omega)
  refine consistent.replaceFallback consistent.sound ?_ ?_
    consistent.fallenApart consistent.fallenPool
  · intro chunk pool serves other owns
    have apart := consistent.fallenPool region member _ _ serves
    refine ⟨(consistent.owned serves owns).1, outside other ?_⟩
    rcases owns with rfl | ⟨block, inBlocks, rfl⟩
    · exact apart.1
    · exact apart.2 block inBlocks
  · intro other inFallback
    have old := consistent.fallen other inFallback
    by_cases here : other = region
    · subst here
      have behind := old.behind
      exact {
        behind := behind
        bounded := old.bounded
        held := old.held
        size := (load_congr (writeBytes_sameOn (by omega))).trans old.size
        magic :=
          (load_congr (writeBytes_sameOn (by omega))).trans old.magic }
    · have apart : (withHeader region).Apart (withHeader other) := by
        have symmetric : Std.Symm (fun first second : Region =>
            (withHeader first).Apart (withHeader second)) :=
          ⟨fun _ _ apart => Or.symm apart⟩
        exact consistent.fallenApart.forall member inFallback
          (fun same => here same.symm)
      exact old.frame (outside _ apart) old.held

end Operations

/-! ## The pools are created -/

/-- `malloc` answers the creation of the pools with fresh memory. -/
def CreatesFresh : List Nat → List (Option Grant) → Process → Prop
  | [], _, _ => True
  | size :: sizes, answers, process =>
      (∀ grant, answers.head?.getD none = some grant →
        Fresh process grant memPoolStruct) ∧
        CreatesFresh sizes answers.tail
          (memPoolCreate size (answers.head?.getD none) process).1

theorem memPoolCreate_frame {size : Nat} {answer : Option Grant}
    (fresh : ∀ grant, answer = some grant →
      Fresh process grant memPoolStruct)
    (held : region ∈ process.held) :
    region ∈ (memPoolCreate size answer process).1.held ∧
      SameOn process.image (memPoolCreate size answer process).1.image
        region.base region.length := by
  unfold memPoolCreate
  split_ifs
  · exact ⟨held, fun _ _ _ => rfl⟩
  · cases answer with
    | none => exact ⟨held, fun _ _ _ => rfl⟩
    | some grant =>
        have apart := (fresh grant rfl).apart region held
        refine ⟨List.mem_cons_of_mem _ held,
          (Process.take_sameOn apart).trans ?_⟩
        rw [Region.Apart, memPoolStruct] at apart
        dsimp only at apart
        refine ((((((store_sameOn ?_).trans (store_sameOn ?_)).trans
          (store_sameOn ?_)).trans (store_sameOn ?_)).trans
            (store_sameOn ?_)).trans (store_sameOn ?_)) <;> omega

/-- A pool that was created is empty and lies apart from what was held. -/
theorem memPoolCreate_pooled {answer : Option Grant}
    (slab : chunk ∈ slabClasses) (sound : process.Sound)
    (fresh : ∀ grant, answer = some grant →
      Fresh process grant memPoolStruct) :
    (memPoolCreate chunk answer process).1.Sound ∧
      ((memPoolCreate chunk answer process).2 ≠ 0 →
        Pooled chunk (memPoolCreate chunk answer process).2
          (memPoolCreate chunk answer process).1 [] Layout.empty ∧
          ∀ region ∈ process.held, Region.Apart
            ⟨(memPoolCreate chunk answer process).2, 48⟩ region) := by
  have nonzero : chunk ≠ 0 := by
    have holds := (chunkSize_slab slab).holdsLink
    omega
  cases answer with
  | none =>
      have nothing : memPoolCreate chunk none process = (process, 0) := by
        rw [memPoolCreate, if_neg nonzero]
      rw [nothing]
      exact ⟨sound, fun null => (null rfl).elim⟩
  | some grant =>
      have reached := created_reached slab sound (fresh grant rfl)
      have pool : (memPoolCreate chunk (some grant) process).2 =
          grant.base := by
        rw [memPoolCreate, if_neg nonzero]
      rw [pool]
      exact ⟨reached.pooled.sound, fun _ =>
        ⟨reached.pooled, (fresh grant rfl).apart⟩⟩

theorem createPools_pooled {sizes : List Nat} {answers : List (Option Grant)}
    (slabs : ∀ size ∈ sizes, size ∈ slabClasses) (sound : process.Sound)
    (fresh : CreatesFresh sizes answers process) :
    (createPools sizes answers process).1.Sound ∧
      (∀ region ∈ process.held,
        region ∈ (createPools sizes answers process).1.held ∧
          SameOn process.image (createPools sizes answers process).1.image
            region.base region.length) ∧
      (∀ size pool, (size, pool) ∈
        sizes.zip (createPools sizes answers process).2 → pool ≠ 0 →
          Pooled size pool (createPools sizes answers process).1 []
            Layout.empty ∧
          ∀ region ∈ process.held, Region.Apart ⟨pool, 48⟩ region) ∧
      ∀ size size' pool, (size, pool) ∈
        sizes.zip (createPools sizes answers process).2 →
          (size', pool) ∈ sizes.zip (createPools sizes answers process).2 →
            pool ≠ 0 → size = size' := by
  induction sizes generalizing answers process with
  | nil =>
      refine ⟨sound, fun region held => ⟨held, fun _ _ _ => rfl⟩, ?_, ?_⟩
      · intro size pool member
        simp [createPools] at member
      · intro size size' pool member
        simp [createPools] at member
  | cons size sizes induction =>
      obtain ⟨freshHere, freshLater⟩ := fresh
      have slab := slabs size List.mem_cons_self
      obtain ⟨sound₁, pooled₁⟩ :=
        memPoolCreate_pooled slab sound freshHere
      have frame₁ := fun region (held : region ∈ process.held) =>
        @memPoolCreate_frame process region size _ freshHere held
      obtain ⟨sound₂, frame₂, pooled₂, one₂⟩ := induction
        (fun other member => slabs other (List.mem_cons_of_mem _ member))
        sound₁ freshLater
      rw [createPools]
      dsimp only
      generalize made : memPoolCreate size (answers.head?.getD none) process =
        created at *
      obtain ⟨process₁, pool₁⟩ := created
      dsimp only at *
      generalize rest : createPools sizes answers.tail process₁ =
        created at *
      obtain ⟨process₂, pools⟩ := created
      dsimp only at *
      have firstPooled : pool₁ ≠ 0 →
          Pooled size pool₁ process₂ [] Layout.empty := by
        intro nonnull
        obtain ⟨pooled, -⟩ := pooled₁ nonnull
        have own := frame₂ _ pooled.poolHeld
        exact pooled.frame sound₂ own.2 (by simp [Layout.empty]) own.1
          (by simp [Layout.empty]) (chunkSize_slab slab)
      have different : ∀ other pool, (other, pool) ∈ sizes.zip pools →
          pool ≠ 0 → pool₁ ≠ 0 → pool ≠ pool₁ := by
        intro other pool member nonnull nonnull₁ same
        have apart := (pooled₂ other pool member nonnull).2 _
          (pooled₁ nonnull₁).1.poolHeld
        rw [Region.Apart] at apart
        dsimp only at apart
        omega
      refine ⟨sound₂, ?_, ?_, ?_⟩
      · intro region held
        have first := frame₁ region held
        have second := frame₂ region first.1
        exact ⟨second.1, first.2.trans second.2⟩
      · intro other pool member nonnull
        rw [List.zip_cons_cons] at member
        rcases List.mem_cons.mp member with same | member
        · obtain ⟨rfl, rfl⟩ := Prod.mk.inj same
          exact ⟨firstPooled nonnull, (pooled₁ nonnull).2⟩
        · obtain ⟨pooled, apart⟩ := pooled₂ other pool member nonnull
          exact ⟨pooled, fun region held => apart region (frame₁ _ held).1⟩
      · intro first second pool inFirst inSecond nonnull
        rw [List.zip_cons_cons] at inFirst inSecond
        rcases List.mem_cons.mp inFirst with same | before
        · obtain ⟨rfl, rfl⟩ := Prod.mk.inj same
          rcases List.mem_cons.mp inSecond with same' | later
          · exact (Prod.mk.inj same').1.symm
          · exact (different _ _ later nonnull nonnull rfl).elim
        · rcases List.mem_cons.mp inSecond with same' | later
          · obtain ⟨rfl, rfl⟩ := Prod.mk.inj same'
            exact (different _ _ before nonnull nonnull rfl).elim
          · exact one₂ _ _ _ before later nonnull

/-- `kvs_mempool_init` gives empty pools and touches nothing else. -/
theorem Consistent.init {answers : List (Option Grant)}
    (consistent : Consistent count world layouts)
    (fresh : world.allocator.initialized = false →
      CreatesFresh slabClasses answers world.process) :
    ∃ layouts', Consistent count
      { world with allocator := kvsMempoolInit answers world.allocator }
        layouts' ∧
      (∀ chunk pool, world.Serves chunk pool →
        layouts' pool = layouts pool ∧ World.Serves
          { world with allocator := kvsMempoolInit answers world.allocator }
            chunk pool) ∧
      ∀ region ∈ world.process.held,
        region ∈ (kvsMempoolInit answers world.allocator).process.held ∧
          SameOn world.process.image
            (kvsMempoolInit answers world.allocator).process.image
              region.base region.length := by
  cases set : world.allocator.initialized with
  | true =>
      have same : kvsMempoolInit answers world.allocator =
          world.allocator := by
        rw [kvsMempoolInit, if_pos set]
      rw [same]
      exact ⟨layouts, consistent, fun _ _ serves => ⟨rfl, serves⟩,
        fun region held => ⟨held, fun _ _ _ => rfl⟩⟩
  | false =>
      obtain ⟨zeros, none⟩ := consistent.unset set
      have unserved : ∀ chunk pool, ¬ world.Serves chunk pool := by
        intro chunk pool serves
        exact absurd (set.symm.trans (consistent.initialized serves))
          (by decide)
      obtain ⟨sound, frame, pooled, one⟩ :=
        createPools_pooled (fun _ member => member) consistent.sound
          (fresh set)
      have made : kvsMempoolInit answers world.allocator =
          ⟨(createPools slabClasses answers world.process).1, true,
            (createPools slabClasses answers world.process).2⟩ := by
        rw [kvsMempoolInit, set, if_neg Bool.false_ne_true]
      rw [made]
      refine ⟨fun _ => Layout.empty, ?_,
        fun chunk pool serves => (unserved chunk pool serves).elim, frame⟩
      exact {
        sound := sound
        pooled := by
          intro chunk pool serves
          obtain ⟨created, -⟩ := pooled chunk pool serves.1 serves.2
          rw [none pool]
          exact ⟨created, by simp [Busy, Layout.empty], Nat.zero_le _⟩
        oneClass := fun chunk chunk' pool serves serves' =>
          one chunk chunk' pool serves.1 serves'.1 serves.2
        blocksApart := by simp [Layout.empty]
        fallen := by
          intro region member
          have fallen := consistent.fallen region member
          have kept := frame _ fallen.held
          exact fallen.frame kept.2 kept.1
        fallenApart := consistent.fallenApart
        fallenPool := by
          intro region member chunk pool serves
          have apart := (pooled chunk pool serves.1 serves.2).2 _
            (consistent.fallen region member).held
          exact ⟨Or.symm apart, by simp [Layout.empty]⟩
        unset := fun unset => (Bool.false_ne_true unset.symm).elim }

/-! ## The calls -/

theorem gSizeMap_serves {size : Nat}
    (present : gSizeMap world.allocator size ≠ 0) :
    ∃ chunk, world.Serves chunk (gSizeMap world.allocator size) ∧
      size ≤ chunk := by
  rw [gSizeMap] at present ⊢
  cases found : (slabClasses.zip world.allocator.slabPools).find?
      (fun entry => size ≤ entry.1) with
  | none =>
      rw [found] at present
      exact (present rfl).elim
  | some entry =>
      rw [found] at present
      have large := List.find?_some found
      exact ⟨entry.1, ⟨List.mem_of_find?_eq_some found, present⟩,
        by simpa using large⟩

/-- The allocator that `kvs_malloc` works on, with the pools it needs. -/
def prepared (size : Nat) (answers : Answers) (allocator : Allocator) :
    Allocator :=
  if size ≤ maxSlabSize then initFor size answers allocator else allocator

/-- The C library answers a call of `kvs_malloc` with fresh memory. -/
structure Obliging (size : Nat) (answers : Answers) (allocator : Allocator) :
    Prop where
  small : size + 16 < 2 ^ 64
  pools : allocator.initialized = false →
    CreatesFresh slabClasses answers.pools allocator.process
  memalign : Aligned (prepared size answers allocator).process answers.memalign
  malloc : ∀ grant, answers.malloc = some grant →
    Fresh (prepared size answers allocator).process grant (fallbackHeader + size)

/-- The world after `kvs_malloc` has returned a pointer. -/
def World.handed (world : World) (allocator : Allocator) (size ptr : Nat) :
    World :=
  if ptr = 0 then { world with allocator := allocator }
  else if size ≤ maxSlabSize ∧ gSizeMap allocator size ≠ 0 then
    { world with
      allocator := allocator
      slab := Function.update world.slab (gSizeMap allocator size)
        (ptr :: world.slab (gSizeMap allocator size)) }
  else
    { world with
      allocator := allocator
      fallback := ⟨ptr, size⟩ :: world.fallback }

/-- The memory of live pointers that a request cannot touch: the pools of
smaller classes and the fallback allocations. -/
def Beside (world : World) (layouts : Nat → Layout) (size : Nat)
    (region : Region) : Prop :=
  (∃ chunk pool, world.Serves chunk pool ∧ chunk < size ∧
    Owns pool (layouts pool) region) ∨
      ∃ fallen ∈ world.fallback, region = withHeader fallen

theorem Consistent.prepare {size : Nat} {answers : Answers}
    (consistent : Consistent count world layouts)
    (obliging : Obliging size answers world.allocator) :
    ∃ layouts', Consistent count
      { world with allocator := prepared size answers world.allocator }
        layouts' ∧
      (∀ chunk pool, world.Serves chunk pool →
        layouts' pool = layouts pool ∧
          World.Serves
            { world with allocator := prepared size answers world.allocator }
            chunk pool) ∧
      ∀ region ∈ world.process.held,
        region ∈ (prepared size answers world.allocator).process.held ∧
          SameOn world.process.image
            (prepared size answers world.allocator).process.image
              region.base region.length := by
  rw [prepared]
  split_ifs with slabSized
  · rw [initFor]
    split_ifs with missing
    · exact consistent.init obliging.pools
    · exact ⟨layouts, consistent, fun _ _ serves => ⟨rfl, serves⟩,
        fun region held => ⟨held, fun _ _ _ => rfl⟩⟩
  · exact ⟨layouts, consistent, fun _ _ serves => ⟨rfl, serves⟩,
      fun region held => ⟨held, fun _ _ _ => rfl⟩⟩

/-- `kvs_malloc` in terms of the prepared allocator. -/
theorem kvsMalloc_eq {size : Nat} (nonzero : size ≠ 0) (answers : Answers)
    (allocator : Allocator) :
    kvsMalloc size answers allocator =
      if size ≤ maxSlabSize ∧
          gSizeMap (prepared size answers allocator) size ≠ 0 then
        ({ prepared size answers allocator with
          process := (memPoolAlloc
            (gSizeMap (prepared size answers allocator) size)
            answers.memalign (prepared size answers allocator).process).1 },
          (memPoolAlloc (gSizeMap (prepared size answers allocator) size)
            answers.memalign (prepared size answers allocator).process).2)
      else mallocFallback size answers.malloc
        (prepared size answers allocator) := by
  rw [kvsMalloc, if_neg nonzero, prepared]
  by_cases slabSized : size ≤ maxSlabSize
  · rw [if_pos slabSized, if_pos slabSized]
    by_cases present : gSizeMap (initFor size answers allocator) size ≠ 0
    · rw [if_pos present, if_pos ⟨slabSized, present⟩]
    · rw [if_neg present, if_neg (fun both => present both.2)]
  · rw [if_neg slabSized, if_neg slabSized,
      if_neg (fun both => slabSized both.1)]

theorem Consistent.mono {count' : Nat}
    (consistent : Consistent count world layouts) (grows : count ≤ count') :
    Consistent count' world layouts :=
  { consistent with
    pooled := fun chunk pool serves =>
      have parts := consistent.pooled chunk pool serves
      ⟨parts.1, parts.2.1, parts.2.2.trans grows⟩ }

/-- The memory beside a request is held, and lies apart from a pool that can
serve the request. -/
theorem Consistent.beside_apart {size : Nat}
    (consistent : Consistent count world layouts)
    (beside : Beside world layouts size region)
    (serves : world.Serves chunk pool) (large : size ≤ chunk) :
    region.Apart ⟨pool, 48⟩ ∧
      ∀ block ∈ (layouts pool).blocks, region.Apart ⟨block, 65536⟩ := by
  rcases beside with ⟨chunk', pool', serves', smaller, owns⟩ |
    ⟨fallen, member, rfl⟩
  · have different : pool' ≠ pool := by
      rintro rfl
      have same := consistent.oneClass _ _ _ serves serves'
      omega
    rcases owns with rfl | ⟨block, inBlocks, rfl⟩
    · exact ⟨consistent.pools_apart serves' serves different,
        fun block member => consistent.pool_block serves' serves member⟩
    · exact ⟨Or.symm (consistent.pool_block serves serves' inBlocks),
        fun block' member => consistent.blocks_regions serves' serves
          different inBlocks member⟩
  · exact consistent.fallenPool fallen member _ _ serves

theorem Consistent.beside_held {size : Nat}
    (consistent : Consistent count world layouts)
    (beside : Beside world layouts size region) :
    region ∈ world.process.held ∧ 0 < region.length := by
  rcases beside with ⟨chunk, pool, serves, -, owns⟩ | ⟨fallen, member, rfl⟩
  · exact consistent.owned serves owns
  · exact ⟨(consistent.fallen fallen member).held, Nat.succ_pos _⟩

/-- What `kvs_malloc` keeps. -/
theorem Consistent.malloc {size : Nat} {answers : Answers}
    (consistent : Consistent count world layouts)
    (obliging : Obliging size answers world.allocator) :
    ∃ layouts', Consistent (count + 1)
      (world.handed (kvsMalloc size answers world.allocator).1 size
        (kvsMalloc size answers world.allocator).2) layouts' ∧
      (∀ chunk pool, world.Serves chunk pool →
        World.Serves (world.handed (kvsMalloc size answers world.allocator).1
          size (kvsMalloc size answers world.allocator).2) chunk pool ∧
          (chunk < size → layouts' pool = layouts pool)) ∧
      ∀ region, Beside world layouts size region →
        SameOn world.process.image
          (kvsMalloc size answers world.allocator).1.process.image
            region.base region.length := by
  by_cases zero : size = 0
  · have nothing : kvsMalloc size answers world.allocator =
        (world.allocator, 0) := by
      rw [kvsMalloc, if_pos zero]
    rw [nothing, World.handed, if_pos rfl]
    exact ⟨layouts, consistent.mono (Nat.le_succ _),
      fun _ _ serves => ⟨serves, fun _ => rfl⟩, fun _ _ _ _ _ => rfl⟩
  obtain ⟨layouts₁, consistent₁, same₁, frame₁⟩ := consistent.prepare obliging
  have beside₁ : ∀ region, Beside world layouts size region →
      Beside { world with
        allocator := prepared size answers world.allocator } layouts₁ size
          region := by
    rintro region (⟨chunk, pool, serves, smaller, owns⟩ | fallen)
    · obtain ⟨same, serves₁⟩ := same₁ chunk pool serves
      refine Or.inl ⟨chunk, pool, serves₁, smaller, ?_⟩
      rw [same]
      exact owns
    · exact Or.inr fallen
  have first : ∀ region, Beside world layouts size region →
      SameOn world.process.image
        (prepared size answers world.allocator).process.image region.base
          region.length := by
    intro region beside
    exact (frame₁ region (consistent.beside_held beside).1).2
  rw [kvsMalloc_eq zero]
  by_cases fromSlab : size ≤ maxSlabSize ∧
      gSizeMap (prepared size answers world.allocator) size ≠ 0
  · rw [if_pos fromSlab]
    obtain ⟨chunk, serves, large⟩ := @gSizeMap_serves
      { world with allocator := prepared size answers world.allocator } size
      fromSlab.2
    rcases consistent₁.alloc serves obliging.memalign with
      refused | ⟨process', ptr, layout', allocated, nonnull, consistent₂,
        frame₂⟩
    · have refused' : memPoolAlloc
          (gSizeMap (prepared size answers world.allocator) size)
          answers.memalign (prepared size answers world.allocator).process =
            ((prepared size answers world.allocator).process, 0) := refused
      rw [refused', World.handed, if_pos rfl]
      exact ⟨layouts₁, consistent₁.mono (Nat.le_succ _),
        fun chunk pool serves =>
          ⟨(same₁ chunk pool serves).2, fun _ => (same₁ chunk pool serves).1⟩,
        first⟩
    · have allocated' : memPoolAlloc
          (gSizeMap (prepared size answers world.allocator) size)
          answers.memalign (prepared size answers world.allocator).process =
            (process', ptr) := allocated
      have shape : world.handed { prepared size answers world.allocator with
          process := process' } size ptr =
          World.withPool { world with
            allocator := prepared size answers world.allocator }
            (gSizeMap (prepared size answers world.allocator) size) process'
            (ptr :: world.slab
              (gSizeMap (prepared size answers world.allocator) size)) := by
        rw [World.handed, if_neg nonnull]
        exact if_pos fromSlab
      rw [allocated']
      dsimp only
      rw [shape]
      refine ⟨_, consistent₂, ?_, ?_⟩
      · intro chunk' pool' serves'
        obtain ⟨same, served⟩ := same₁ chunk' pool' serves'
        refine ⟨served, fun smaller => ?_⟩
        rw [Function.update_of_ne]
        · exact same
        · rintro rfl
          have classes := consistent₁.oneClass _ _ _ serves served
          omega
      intro region beside
      obtain ⟨held, nonempty⟩ := consistent₁.beside_held (beside₁ _ beside)
      obtain ⟨fromPool, fromBlocks⟩ :=
        consistent₁.beside_apart (beside₁ _ beside) serves large
      exact (first region beside).trans
        (frame₂ region held nonempty fromPool fromBlocks).2
  · rw [if_neg fromSlab]
    cases answer : answers.malloc with
    | none =>
        rw [mallocFallback, World.handed, if_pos rfl]
        exact ⟨layouts₁, consistent₁.mono (Nat.le_succ _),
          fun chunk pool serves =>
          ⟨(same₁ chunk pool serves).2, fun _ => (same₁ chunk pool serves).1⟩,
        first⟩
    | some grant =>
        obtain ⟨process', fell, consistent₂, frame₂⟩ :=
          consistent₁.fallback obliging.small (obliging.malloc grant answer)
        have fell' : mallocFallback size (some grant)
            (prepared size answers world.allocator) =
              ({ prepared size answers world.allocator with
                process := process' }, grant.base + 16) := fell
        have shape : world.handed { prepared size answers world.allocator with
            process := process' } size (grant.base + 16) =
            World.withFallback { world with
              allocator := prepared size answers world.allocator } process'
              (⟨grant.base + 16, size⟩ :: world.fallback) := by
          rw [World.handed, if_neg (by omega)]
          exact if_neg fromSlab
        rw [fell']
        dsimp only
        rw [shape]
        refine ⟨layouts₁, consistent₂.mono (Nat.le_succ _),
          fun chunk pool serves =>
            ⟨(same₁ chunk pool serves).2, fun _ => (same₁ chunk pool serves).1⟩,
          ?_⟩
        intro region beside
        have held := (consistent₁.beside_held (beside₁ _ beside)).1
        exact (first region beside).trans (frame₂ region held).2

end Kivo.MemPool.Holdings
