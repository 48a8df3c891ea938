import Kivo.MemPool.Carving

/-!
# The bytes of a slab pool

The bytes of a pool represent a layout: the links of the free list and of the
block list, the cursor and the headers of the blocks.  Every part of a call
takes a representation to a representation of the layout that the abstract
operation gives, and leaves the bytes beyond the pool alone.
-/

namespace Kivo.MemPool.Representation

open Kivo.Clib.Chain
open Kivo.Clib.Heap
open Kivo.Clib.Memory (Bytes)
open Kivo.MemPool.Slab
open Kivo.MemPool.Carving

/-! ## What the bytes say -/

/-- The header of a block. -/
structure Header (pool block capacity freeCount : Nat) (image : Image) :
    Prop where
  pool : load 8 image (block + 8) = pool
  capacity : load 4 image (block + 16) = capacity
  freeCount : load 4 image (block + 20) = freeCount
  magic : load 8 image (block + 24) = poolBlockMagic
  data : load 8 image (block + 32) = block + 40

/-- The bytes of a pool and of its blocks stand for a layout. -/
structure Represents (chunk pool : Nat) (image : Image) (layout : Layout) :
    Prop where
  chunkSize : load 8 image pool = chunk
  freeList : Linked (load 8 image) 0 (pool + 8) layout.free
  blocks : Linked (load 8 image) 0 (pool + 16) layout.blocks
  currentBlock : load 8 image (pool + 24) = layout.current
  nextFree : load 8 image (pool + 32) = layout.nextFree chunk
  remaining : load 8 image (pool + 40) = layout.remaining
  header : ∀ block ∈ layout.blocks,
    Header pool block (blockCapacity chunk) (layout.freeIn block) image

/-- A pool in the memory of its process. -/
structure Pooled (chunk pool : Nat) (process : Process) (live : List Nat)
    (layout : Layout) : Prop where
  carved : Carved chunk live layout
  represents : Represents chunk pool process.image layout
  sound : process.Sound
  positive : 0 < pool
  bounded : pool + 48 ≤ 2 ^ 64
  poolHeld : ⟨pool, 48⟩ ∈ process.held
  blocksHeld : ∀ block ∈ layout.blocks, ⟨block, 65536⟩ ∈ process.held

variable {chunk pool block ptr : Nat} {process : Process} {live : List Nat}
  {layout : Layout} {image image' : Image}

theorem Header.sameOn {capacity freeCount : Nat}
    (header : Header pool block capacity freeCount image)
    (same : SameOn image image' (block + 8) 32) :
    Header pool block capacity freeCount image' where
  pool := (load_congr (same.part (by omega) (by omega))).trans header.pool
  capacity :=
    (load_congr (same.part (by omega) (by omega))).trans header.capacity
  freeCount :=
    (load_congr (same.part (by omega) (by omega))).trans header.freeCount
  magic := (load_congr (same.part (by omega) (by omega))).trans header.magic
  data := (load_congr (same.part (by omega) (by omega))).trans header.data

/-- Only the count of free chunks of a header is written. -/
theorem Header.recount {capacity freeCount count : Nat}
    (header : Header pool block capacity freeCount image)
    (same : SameOn image image' block 20)
    (counted : load 4 image' (block + 20) = count)
    (same' : SameOn image image' (block + 24) 16) :
    Header pool block capacity count image' where
  pool := (load_congr (same.part (by omega) (by omega))).trans header.pool
  capacity :=
    (load_congr (same.part (by omega) (by omega))).trans header.capacity
  freeCount := counted
  magic := (load_congr (same'.part (by omega) (by omega))).trans header.magic
  data := (load_congr (same'.part (by omega) (by omega))).trans header.data

/-- Writing into live chunks and outside the pool changes nothing. -/
theorem Represents.frame (represents : Represents chunk pool image layout)
    (own : SameOn image image' pool 48)
    (headers : ∀ block ∈ layout.blocks, SameOn image image' block 40)
    (links : ∀ ptr ∈ layout.free, SameOn image image' ptr 8) :
    Represents chunk pool image' layout where
  chunkSize :=
    (load_congr (own.part (by omega) (by omega))).trans represents.chunkSize
  freeList :=
    Linked.rehead represents.freeList
      (load_congr (own.part (by omega) (by omega))) links
  blocks :=
    Linked.rehead represents.blocks
      (load_congr (own.part (by omega) (by omega)))
      (fun block member => (headers block member).part le_rfl (by omega))
  currentBlock :=
    (load_congr (own.part (by omega) (by omega))).trans
      represents.currentBlock
  nextFree :=
    (load_congr (own.part (by omega) (by omega))).trans represents.nextFree
  remaining :=
    (load_congr (own.part (by omega) (by omega))).trans represents.remaining
  header block member :=
    (represents.header block member).sameOn
      ((headers block member).part (by omega) (by omega))

/-- A range outside the pool and outside the first bytes of its blocks: their
headers, or all of them. -/
def Spared (pool : Nat) (blocks : List Nat) (extent place length : Nat) :
    Prop :=
  (place + length ≤ pool ∨ pool + 48 ≤ place) ∧
    ∀ block ∈ blocks, place + length ≤ block ∨ block + extent ≤ place

section Apartness

variable (pooled : Pooled chunk pool process live layout)

include pooled

/-- The pool and its blocks do not overlap. -/
theorem Pooled.pool_apart (member : block ∈ layout.blocks) :
    pool + 48 ≤ block ∨ block + 65536 ≤ pool :=
  pooled.sound.apart pooled.poolHeld (pooled.blocksHeld block member)
    (fun same => by
      have lengths := congrArg Region.length same
      exact absurd lengths (show (48 : Nat) ≠ 65536 by decide))

/-- Where a free or live chunk lies. -/
theorem Pooled.place (size : ChunkSize chunk)
    (member : ptr ∈ layout.free ++ live) :
    getBlockFromPtr ptr ∈ layout.blocks ∧
      getBlockFromPtr ptr % 65536 = 0 ∧
        getBlockFromPtr ptr + 40 ≤ ptr ∧
          ptr + chunk < getBlockFromPtr ptr + 65536 ∧
            (pool + 48 ≤ getBlockFromPtr ptr ∨
              getBlockFromPtr ptr + 65536 ≤ pool) ∧
              getBlockFromPtr ptr + 65536 ≤ 2 ^ 64 := by
  have place := ((pooled.carved.taken_iff ptr).mp member).place size
    pooled.carved
  exact ⟨place.1, pooled.carved.aligned _ place.1, place.2.1, place.2.2,
    pooled.pool_apart place.1, pooled.carved.bounded _ place.1⟩

end Apartness

/-- A pool whose bytes are left alone stays as it is. -/
theorem Pooled.frame {process' : Process}
    (pooled : Pooled chunk pool process live layout)
    (sound : process'.Sound)
    (own : SameOn process.image process'.image pool 48)
    (blocks : ∀ block ∈ layout.blocks,
      SameOn process.image process'.image block 65536)
    (poolHeld : ⟨pool, 48⟩ ∈ process'.held)
    (blocksHeld : ∀ block ∈ layout.blocks, ⟨block, 65536⟩ ∈ process'.held)
    (size : ChunkSize chunk) :
    Pooled chunk pool process' live layout := by
  refine ⟨pooled.carved, pooled.represents.frame own ?_ ?_, sound,
    pooled.positive, pooled.bounded, poolHeld, blocksHeld⟩
  · intro block member
    exact (blocks block member).part le_rfl (by omega)
  · intro free member
    have place := pooled.place size (List.mem_append_left live member)
    have holds := size.holdsLink
    exact (blocks _ place.1).part (by omega) (by omega)

/-! ## Taking a chunk -/

/-- The head of the free list is taken. -/
theorem popChunk_pooled {rest : List Nat} (size : ChunkSize chunk)
    (pooled : Pooled chunk pool process live layout)
    (head : layout.free = ptr :: rest) :
    (popChunk pool process).2 = ptr ∧
      (popChunk pool process).1.held = process.held ∧
        Pooled chunk pool (popChunk pool process).1 (ptr :: live)
          layout.popped ∧
        ∀ place length, Spared pool layout.blocks 40 place length →
          SameOn process.image (popChunk pool process).1.image place
            length := by
  have represents := pooled.represents
  have linked := represents.freeList
  rw [head] at linked
  have first : load 8 process.image (pool + 8) = ptr := linked.1
  have tail : Linked (load 8 process.image) 0 ptr rest := linked.2
  have taken : ptr ∈ layout.free ++ live := by
    rw [head]
    exact List.mem_append_left _ List.mem_cons_self
  obtain ⟨member, aligned, lower, upper, beside, fits⟩ :=
    pooled.place size taken
  have holds := size.holdsLink
  set block := getBlockFromPtr ptr with block_eq
  have header := represents.header block member
  have counted := layout.freeIn_popped head block
  rw [if_pos block_eq.symm] at counted
  set image₁ := store 8 process.image (pool + 8) (load 8 process.image ptr)
    with image₁_eq
  set image₂ := store 4 image₁ (block + 20)
    (load 4 image₁ (block + 20) + (2 ^ 32 - 1)) with image₂_eq
  have popped : popChunk pool process =
      ({ process with image := image₂ }, ptr) := by
    rw [popChunk, first]
  have own : ∀ offset length, offset + length ≤ 8 ∨ 16 ≤ offset →
      offset + length ≤ 48 →
      SameOn process.image image₂ (pool + offset) length := by
    intro offset length outside inside
    exact (store_sameOn (by omega)).trans (store_sameOn (by omega))
  have elsewhere : ∀ place length, (place + length ≤ pool ∨ pool + 48 ≤ place) →
      (place + length ≤ block + 20 ∨ block + 24 ≤ place) →
      SameOn process.image image₂ place length := by
    intro place length outside outside'
    exact (store_sameOn (by omega)).trans (store_sameOn (by omega))
  have count : load 4 image₂ (block + 20) = layout.popped.freeIn block := by
    have small := pooled.carved.freeIn_le size block
    have few := blockCapacity_le chunk
    rw [image₂_eq, load_store, image₁_eq, load_store_apart (by omega),
      header.freeCount, counted]
    norm_num
    omega
  have spared : ∀ place length, Spared pool layout.blocks 40 place length →
      SameOn process.image image₂ place length := by
    rintro place length ⟨fromPool, fromBlocks⟩
    have fromBlock := fromBlocks block member
    exact elsewhere place length fromPool (by omega)
  rw [popped]
  refine ⟨rfl, rfl, ⟨pooled.carved.popped head, ?_, pooled.sound,
    pooled.positive, pooled.bounded, pooled.poolHeld, pooled.blocksHeld⟩,
    spared⟩
  exact {
    chunkSize := (load_congr (own 0 8 (by omega) (by omega))).trans
      represents.chunkSize
    freeList := by
      rw [Layout.popped, head]
      refine Linked.rehead tail ?_ ?_
      · dsimp only
        rw [image₂_eq, load_store_apart (by omega), image₁_eq,
          load_store_fits (load_lt 8 _ _)]
      · intro cell inRest
        have inUse : cell ∈ layout.free ++ live := by
          rw [head]
          exact List.mem_append_left _ (List.mem_cons_of_mem _ inRest)
        have place := pooled.place size inUse
        exact elsewhere cell 8 (by omega) (by omega)
    blocks := by
      refine Linked.rehead represents.blocks
        (load_congr (own 16 8 (by omega) (by omega))) ?_
      intro other inBlocks
      have apart := pooled.pool_apart inBlocks
      have aligned' := pooled.carved.aligned other inBlocks
      exact elsewhere other 8 (by omega) (by omega)
    currentBlock := (load_congr (own 24 8 (by omega) (by omega))).trans
      represents.currentBlock
    nextFree := (load_congr (own 32 8 (by omega) (by omega))).trans
      represents.nextFree
    remaining := (load_congr (own 40 8 (by omega) (by omega))).trans
      represents.remaining
    header := by
      intro other inBlocks
      have apart := pooled.pool_apart inBlocks
      have aligned' := pooled.carved.aligned other inBlocks
      have counted' := layout.freeIn_popped head other
      by_cases here : other = block
      · subst here
        exact header.recount (elsewhere _ 20 (by omega) (by omega)) count
          (elsewhere _ 16 (by omega) (by omega))
      · rw [if_neg (fun same => here (block_eq.trans same).symm)] at counted'
        rw [Nat.add_zero] at counted'
        rw [← counted']
        exact (represents.header other inBlocks).sameOn
          (elsewhere _ 32 (by omega) (by omega)) }

/-- The next chunk of the current block is cut off. -/
theorem cutChunk_pooled (size : ChunkSize chunk)
    (pooled : Pooled chunk pool process live layout)
    (left : 0 < layout.remaining) :
    (cutChunk pool process).2 = layout.nextFree chunk ∧
      (cutChunk pool process).1.held = process.held ∧
        Pooled chunk pool (cutChunk pool process).1
          (layout.nextFree chunk :: live) layout.cut ∧
        ∀ place length, Spared pool layout.blocks 40 place length →
          SameOn process.image (cutChunk pool process).1.image place
            length := by
  have represents := pooled.represents
  have current : layout.current ∈ layout.blocks := by
    rcases pooled.carved.cursor with ⟨-, none⟩ | member
    · omega
    · exact member
  have nonnull : layout.current ≠ 0 :=
    (pooled.carved.positive _ current).ne'
  have fits := pooled.carved.bounded _ current
  have atMost := pooled.carved.remaining_le
  have few := blockCapacity_le chunk
  have next : layout.cut.nextFree chunk = layout.nextFree chunk + chunk := by
    have successor : blockCapacity chunk - (layout.remaining - 1) =
        blockCapacity chunk - layout.remaining + 1 := by omega
    rw [Layout.nextFree, Layout.nextFree, Layout.cut]
    dsimp only
    rw [if_neg nonnull, if_neg nonnull, successor, chunkAt, chunkAt,
      Nat.add_mul, Nat.one_mul]
    omega
  have cursor : layout.cut.nextFree chunk < layout.current + 65536 := by
    rw [Layout.nextFree, Layout.cut]
    dsimp only
    rw [if_neg nonnull]
    exact (size.cursor_bounds (Nat.sub_le _ _)).2
  set image₁ := store 8 process.image (pool + 32)
    (layout.nextFree chunk + chunk) with image₁_eq
  set image₂ := store 8 image₁ (pool + 40)
    (layout.remaining + (2 ^ 64 - 1)) with image₂_eq
  have cut : cutChunk pool process =
      ({ process with image := image₂ }, layout.nextFree chunk) := by
    rw [cutChunk, represents.nextFree, represents.chunkSize,
      load_store_apart (by omega), represents.remaining]
  have elsewhere : ∀ place length,
      (place + length ≤ pool + 32 ∨ pool + 48 ≤ place) →
      SameOn process.image image₂ place length := by
    intro place length outside
    exact (store_sameOn (by omega)).trans (store_sameOn (by omega))
  have spared : ∀ place length, Spared pool layout.blocks 40 place length →
      SameOn process.image image₂ place length := by
    rintro place length ⟨fromPool, -⟩
    exact elsewhere place length (by omega)
  rw [cut]
  refine ⟨rfl, rfl, ⟨pooled.carved.cut size left, ?_, pooled.sound,
    pooled.positive, pooled.bounded, pooled.poolHeld, pooled.blocksHeld⟩,
    spared⟩
  exact {
    chunkSize := (load_congr (elsewhere _ 8 (by omega))).trans
      represents.chunkSize
    freeList := by
      refine Linked.rehead represents.freeList
        (load_congr (elsewhere _ 8 (by omega))) ?_
      intro cell inFree
      have place := pooled.place size (List.mem_append_left live inFree)
      have holds := size.holdsLink
      exact elsewhere cell 8 (by omega)
    blocks := by
      refine Linked.rehead represents.blocks
        (load_congr (elsewhere _ 8 (by omega))) ?_
      intro other inBlocks
      have apart := pooled.pool_apart inBlocks
      exact elsewhere other 8 (by omega)
    currentBlock := (load_congr (elsewhere _ 8 (by omega))).trans
      represents.currentBlock
    nextFree := by
      dsimp only
      rw [image₂_eq, load_store_apart (by omega), image₁_eq,
        load_store_fits (by omega), next]
    remaining := by
      dsimp only
      rw [image₂_eq, load_store, Layout.cut]
      norm_num
      omega
    header := by
      intro other inBlocks
      have apart := pooled.pool_apart inBlocks
      exact (represents.header other inBlocks).sameOn
        (elsewhere _ 32 (by omega)) }

/-- A block that the system grants becomes the current one. -/
theorem addNewBlock_pooled {grant : Grant} (size : ChunkSize chunk)
    (pooled : Pooled chunk pool process live layout)
    (exhausted : layout.remaining = 0)
    (fresh : Fresh process grant poolBlockSize)
    (aligned : grant.base % poolBlockSize = 0) :
    ∃ process', addNewBlock pool (some grant) process = some process' ∧
      process'.held = ⟨grant.base, poolBlockSize⟩ :: process.held ∧
        Pooled chunk pool process' live (layout.opened chunk grant.base) ∧
        ∀ place length, Spared pool layout.blocks 40 place length →
          (place + length ≤ grant.base ∨
            grant.base + poolBlockSize ≤ place) →
          SameOn process.image process'.image place length := by
  have represents := pooled.represents
  have apart := fresh.apart _ pooled.poolHeld
  have positive := fresh.positive
  have bounded := fresh.bounded
  have poolBounded := pooled.bounded
  have few := blockCapacity_le chunk
  have absent : grant.base ∉ layout.blocks := by
    intro member
    have overlap := fresh.apart _ (pooled.blocksHeld _ member)
    rw [Region.Apart, poolBlockSize] at overlap
    dsimp only at overlap
    omega
  have others : ∀ block ∈ layout.blocks,
      grant.base + 65536 ≤ block ∨ block + 65536 ≤ grant.base := by
    intro block member
    exact fresh.apart _ (pooled.blocksHeld _ member)
  rw [Region.Apart] at apart
  simp only [poolBlockSize] at apart bounded aligned
  have taken : ∀ place length,
      (place + length ≤ grant.base ∨ grant.base + 65536 ≤ place) →
      SameOn process.image (process.take grant poolBlockSize).image place
        length := by
    intro place length outside
    exact @Process.take_sameOn process grant poolBlockSize
      ⟨place, length⟩ outside.symm
  set block := grant.base with block_eq
  have chunkSize : load 8 (process.take grant poolBlockSize).image pool =
      chunk :=
    (load_congr (taken pool 8 (by omega))).trans represents.chunkSize
  have blocksHead : load 8 (process.take grant poolBlockSize).image
      (pool + 16) = load 8 process.image (pool + 16) :=
    load_congr (taken (pool + 16) 8 (by omega))
  have headSmall := load_lt 8 process.image (pool + 16)
  set image₁ := store 8 (store 4 (store 4 (store 8 (store 8 (store 8 (store 8
    (process.take grant poolBlockSize).image block 0) (block + 8) pool)
      (block + 24) poolBlockMagic) (block + 32) (block + 40))
        (block + 16) (blockCapacity chunk)) (block + 20) 0)
          block (load 8 process.image (pool + 16)) with image₁_eq
  set image₂ := store 8 (store 8 (store 8 (store 8 image₁
    (pool + 16) block) (pool + 24) block) (pool + 32) (block + 40))
      (pool + 40) (blockCapacity chunk) with image₂_eq
  have capacity : (poolBlockSize - 40) / chunk = blockCapacity chunk := rfl
  have added : addNewBlock pool (some grant) process =
      some { process.take grant poolBlockSize with image := image₂ } := by
    simp (disch := omega) only [addNewBlock, poolBlockHeader,
      load_store_apart, load_store_fits, chunkSize, blocksHead, capacity,
      image₂_eq, image₁_eq, ← block_eq]
  have elsewhere : ∀ place length,
      (place + length ≤ block ∨ block + 65536 ≤ place) →
      (place + length ≤ pool + 16 ∨ pool + 48 ≤ place) →
      SameOn process.image image₂ place length := by
    intro place length outside outside'
    have inBlock : SameOn (process.take grant poolBlockSize).image image₁
        place length := by
      refine (((((((store_sameOn ?_).trans (store_sameOn ?_)).trans
        (store_sameOn ?_)).trans (store_sameOn ?_)).trans
          (store_sameOn ?_)).trans (store_sameOn ?_)).trans
            (store_sameOn ?_)) <;> omega
    have inPool : SameOn image₁ image₂ place length := by
      refine ((((store_sameOn ?_).trans (store_sameOn ?_)).trans
        (store_sameOn ?_)).trans (store_sameOn ?_)) <;> omega
    exact ((taken place length outside).trans inBlock).trans inPool
  have header : Header pool block (blockCapacity chunk) 0 image₂ := by
    constructor <;>
      simp (disch := first | omega | decide) only [image₂_eq, image₁_eq,
        load_store_apart, load_store_fits]
  have spared : ∀ place length, Spared pool layout.blocks 40 place length →
      (place + length ≤ block ∨ block + poolBlockSize ≤ place) →
      SameOn process.image image₂ place length := by
    rintro place length ⟨fromPool, -⟩ fromGrant
    exact elsewhere place length fromGrant (by omega)
  refine ⟨_, added, rfl, ⟨pooled.carved.opened exhausted aligned positive
    bounded absent, ?_, pooled.sound.take fresh, pooled.positive,
    pooled.bounded, List.mem_cons_of_mem _ pooled.poolHeld, ?_⟩, spared⟩
  · exact {
      chunkSize := (load_congr (elsewhere _ 8 (by omega) (by omega))).trans
        represents.chunkSize
      freeList := by
        refine Linked.rehead represents.freeList
          (load_congr (elsewhere _ 8 (by omega) (by omega))) ?_
        intro cell inFree
        have place := pooled.place size (List.mem_append_left live inFree)
        have beside := others _ place.1
        have holds := size.holdsLink
        exact elsewhere cell 8 (by omega) (by omega)
      blocks := by
        refine ⟨?_, Linked.rehead represents.blocks ?_ ?_⟩
        · simp (disch := omega) only [image₂_eq, load_store_apart,
            load_store_fits]
        · simp (disch := omega) only [image₂_eq, image₁_eq,
            load_store_apart, load_store_fits]
        · intro other inBlocks
          have beside := others other inBlocks
          have apart' := pooled.pool_apart inBlocks
          exact elsewhere other 8 (by omega) (by omega)
      currentBlock := by
        simp (disch := omega) only [image₂_eq, load_store_apart,
          load_store_fits, Layout.opened]
      nextFree := by
        rw [Layout.nextFree, Layout.opened]
        dsimp only
        rw [if_neg positive.ne', Nat.sub_self, chunkAt, Nat.zero_mul,
          poolBlockHeader]
        simp (disch := omega) only [image₂_eq, load_store_apart,
          load_store_fits, Nat.add_zero]
      remaining := by
        simp (disch := omega) only [image₂_eq, load_store_fits,
          Layout.opened]
      header := by
        intro other inBlocks
        have count : (layout.opened chunk block).freeIn other =
            layout.freeIn other := rfl
        rw [count]
        rcases List.mem_cons.mp inBlocks with rfl | inBlocks
        · rw [pooled.carved.freeIn_absent size absent]
          exact header
        · have beside := others other inBlocks
          have apart' := pooled.pool_apart inBlocks
          exact (represents.header other inBlocks).sameOn
            (elsewhere _ 32 (by omega) (by omega)) }
  · intro other inBlocks
    rcases List.mem_cons.mp inBlocks with rfl | inBlocks
    · exact List.mem_cons_self
    · exact List.mem_cons_of_mem _ (pooled.blocksHeld other inBlocks)

/-! ## Giving a chunk back -/

theorem pushChunk_pooled (size : ChunkSize chunk)
    (pooled : Pooled chunk pool process live layout) (member : ptr ∈ live) :
    Pooled chunk pool (pushChunk pool ptr (getBlockFromPtr ptr) process)
      (live.erase ptr) (layout.pushed ptr) ∧
      ∀ place length, Spared pool layout.blocks 65536 place length →
        SameOn process.image
          (pushChunk pool ptr (getBlockFromPtr ptr) process).image place
            length := by
  have represents := pooled.represents
  have taken : ptr ∈ layout.free ++ live := List.mem_append_right _ member
  have cut := (pooled.carved.taken_iff ptr).mp taken
  obtain ⟨inBlocks, aligned, lower, upper, beside, fits⟩ :=
    pooled.place size taken
  have holds := size.holdsLink
  have few := blockCapacity_le chunk
  set block := getBlockFromPtr ptr with block_eq
  have header := represents.header block inBlocks
  have counted := layout.freeIn_pushed ptr block
  rw [if_pos block_eq.symm] at counted
  have small := pooled.carved.freeIn_le size block
  set image₁ := store 8 process.image ptr (load 8 process.image (pool + 8))
    with image₁_eq
  set image₂ := store 8 image₁ (pool + 8) ptr with image₂_eq
  set image₃ := store 4 image₂ (block + 20)
    (load 4 image₂ (block + 20) + 1) with image₃_eq
  have shape : pushChunk pool ptr block process =
      { process with image := image₃ } := rfl
  have elsewhere : ∀ place length,
      (place + length ≤ ptr ∨ ptr + 8 ≤ place) →
      (place + length ≤ pool + 8 ∨ pool + 16 ≤ place) →
      (place + length ≤ block + 20 ∨ block + 24 ≤ place) →
      SameOn process.image image₃ place length := by
    intro place length fromChunk fromPool fromBlock
    exact ((store_sameOn (by omega)).trans (store_sameOn (by omega))).trans
      (store_sameOn (by omega))
  have count : load 4 image₃ (block + 20) =
      (layout.pushed ptr).freeIn block := by
    rw [image₃_eq, load_store, image₂_eq, load_store_apart (by omega),
      image₁_eq, load_store_apart (by omega), header.freeCount, counted]
    exact Nat.mod_eq_of_lt (by norm_num; omega)
  have spared : ∀ place length, Spared pool layout.blocks 65536 place length →
      SameOn process.image image₃ place length := by
    rintro place length ⟨fromPool, fromBlocks⟩
    have fromBlock := fromBlocks block inBlocks
    exact elsewhere place length (by omega) (by omega) (by omega)
  rw [shape]
  refine ⟨⟨pooled.carved.pushed member, ?_, pooled.sound, pooled.positive,
    pooled.bounded, pooled.poolHeld, pooled.blocksHeld⟩, spared⟩
  exact {
    chunkSize := (load_congr
      (elsewhere _ 8 (by omega) (by omega) (by omega))).trans
        represents.chunkSize
    freeList := by
      refine ⟨?_, Linked.rehead represents.freeList ?_ ?_⟩
      · simp (disch := omega) only [image₃_eq, image₂_eq, load_store_apart,
          load_store_fits]
      · simp (disch := first | omega | exact load_lt 8 _ _) only [image₃_eq,
          image₂_eq, image₁_eq, load_store_apart, load_store_fits]
      · intro cell inFree
        have inUse : cell ∈ layout.free ++ live :=
          List.mem_append_left live inFree
        have place := pooled.place size inUse
        have different : cell ≠ ptr := by
          rintro rfl
          exact (List.nodup_append.mp pooled.carved.taken_nodup).2.2 _
            inFree _ member rfl
        have apart := ((pooled.carved.taken_iff cell).mp inUse).apart size
          pooled.carved cut different
        exact elsewhere cell 8 (by omega) (by omega) (by omega)
    blocks := by
      refine Linked.rehead represents.blocks (load_congr
        (elsewhere _ 8 (by omega) (by omega) (by omega))) ?_
      intro other inBlocks'
      have apart := pooled.pool_apart inBlocks'
      have aligned' := pooled.carved.aligned other inBlocks'
      exact elsewhere other 8 (by omega) (by omega) (by omega)
    currentBlock := (load_congr
      (elsewhere _ 8 (by omega) (by omega) (by omega))).trans
        represents.currentBlock
    nextFree := (load_congr
      (elsewhere _ 8 (by omega) (by omega) (by omega))).trans
        represents.nextFree
    remaining := (load_congr
      (elsewhere _ 8 (by omega) (by omega) (by omega))).trans
        represents.remaining
    header := by
      intro other inBlocks'
      have apart := pooled.pool_apart inBlocks'
      have aligned' := pooled.carved.aligned other inBlocks'
      by_cases here : other = block
      · subst here
        exact header.recount
          (elsewhere _ 20 (by omega) (by omega) (by omega)) count
            (elsewhere _ 16 (by omega) (by omega) (by omega))
      · rw [layout.freeIn_pushed,
          if_neg (fun same => here (block_eq.trans same).symm), Nat.add_zero]
        exact (represents.header other inBlocks').sameOn
          (elsewhere _ 32 (by omega) (by omega) (by omega)) }

/-- Unlinking a block writes the word that leads to it. -/
theorem unlink_blocks {fuel : Nat}
    (pooled : Pooled chunk pool process live layout)
    (inBlocks : block ∈ layout.blocks) (enough : layout.blocks.length < fuel) :
    ∃ image', unlink block fuel (pool + 16) process.image = some image' ∧
      Linked (load 8 image') 0 (pool + 16) (layout.blocks.erase block) ∧
        ∀ place length, (place + length ≤ pool + 16 ∨ pool + 24 ≤ place) →
          (∀ other ∈ layout.blocks, place + length ≤ other ∨
            other + 8 ≤ place) →
          SameOn process.image image' place length := by
  have carved := pooled.carved
  have linked := pooled.represents.blocks
  have distinct := carved.nodup
  obtain ⟨first, second, split⟩ := List.append_of_mem inBlocks
  have places : ∀ cell ∈ (pool + 16) :: layout.blocks, cell = pool + 16 ∨
      cell % 65536 = 0 ∧ (pool + 48 ≤ cell ∨ cell + 65536 ≤ pool) := by
    intro cell member
    rcases List.mem_cons.mp member with same | member
    · exact Or.inl same
    · exact Or.inr ⟨carved.aligned _ member, pooled.pool_apart member⟩
  have outside : pool + 16 ∉ layout.blocks := by
    intro member
    have apart := pooled.pool_apart member
    omega
  rw [split] at linked distinct outside places enough
  have notFirst : block ∉ first := by
    intro member
    exact (List.nodup_append.mp distinct).2.2 _ member _ List.mem_cons_self rfl
  have erased : layout.blocks.erase block = first ++ second := by
    rw [split, List.erase_append_right _ notFirst, List.erase_cons_head]
  have entry : first.getLastD (pool + 16) ∈
      (pool + 16) :: (first ++ block :: second) :=
    List.mem_append_left (block :: second) (getLastD_mem first)
  refine ⟨_, unlink_eq linked ?_ ?_ ?_, ?_, ?_⟩
  · intro passed member
    have passedBlock : passed ∈ layout.blocks := by
      rw [split]
      exact List.mem_append_left _ member
    exact ⟨(carved.positive _ passedBlock).ne',
      fun same => notFirst (same ▸ member)⟩
  · exact (carved.positive _ inBlocks).ne'
  · rw [List.length_append] at enough
    omega
  · rw [erased]
    refine Linked.remove linked (List.nodup_cons.mpr ⟨outside, distinct⟩)
      (load_store_fits (load_lt 8 _ _)) ?_
    intro other member different
    have place := places other member
    have place' := places _ entry
    exact load_store_apart (by omega)
  · intro place length fromHead fromBlocks
    rw [split] at fromBlocks
    apply store_sameOn
    rcases List.mem_cons.mp entry with same | member
    · rw [same]
      exact fromHead
    · exact fromBlocks _ member

/-- Purging the free list writes words of the list. -/
theorem purge_free {fuel : Nat} (size : ChunkSize chunk)
    (pooled : Pooled chunk pool process live layout)
    (linked : Linked (load 8 image) 0 (pool + 8) layout.free)
    (enough : layout.free.length < fuel) :
    ∃ image', removeBlockFromFreelist fuel pool block image = some image' ∧
      Linked (load 8 image') 0 (pool + 8) (layout.released block).free ∧
        ∀ place length, (place + length ≤ pool + 8 ∨ pool + 16 ≤ place) →
          (∀ ptr ∈ layout.free, place + length ≤ ptr ∨ ptr + 8 ≤ place) →
          SameOn image image' place length := by
  have holds := size.holdsLink
  have wordsApart : ((pool + 8) :: layout.free).Pairwise WordsApart := by
    refine List.pairwise_cons.mpr ⟨?_, ?_⟩
    · intro link member
      have place := pooled.place size (List.mem_append_left live member)
      rw [WordsApart]
      omega
    · apply List.Nodup.pairwise_of_forall_ne
        (List.nodup_append.mp pooled.carved.taken_nodup).1
      intro link member link' member' different
      have apart := ((pooled.carved.taken_iff link).mp
        (List.mem_append_left _ member)).apart size pooled.carved
          ((pooled.carved.taken_iff link').mp
            (List.mem_append_left _ member')) different
      rw [WordsApart]
      omega
  have proper : ∀ link ∈ layout.free, link ≠ 0 := by
    intro link member
    have place := pooled.place size (List.mem_append_left live member)
    omega
  obtain ⟨image', purged, chain, frame⟩ :=
    @unlinkAll_ok _ _ _ _ (fun chunk => getBlockFromPtr chunk = block)
      linked proper wordsApart enough
  refine ⟨image', purged, ?_, ?_⟩
  · have kept : (layout.released block).free = layout.free.filter
        (fun ptr => !decide (getBlockFromPtr ptr = block)) := by
      rw [Layout.released]
      simp only [ne_eq, decide_not]
    rw [kept]
    exact chain
  · intro place length fromPool fromFree spot lower upper
    apply frame
    intro link member
    rcases List.mem_cons.mp member with rfl | member
    · omega
    · have outside := fromFree link member
      omega

/-- The cursor is forgotten when it is in the block. -/
theorem forget_cursor (forgotten : image' =
      if load 8 image (pool + 24) = block then
        store 8 (store 8 (store 8 image (pool + 24) 0) (pool + 32) 0)
          (pool + 40) 0
      else image)
    (current : load 8 image (pool + 24) = layout.current)
    (next : load 8 image (pool + 32) = layout.nextFree chunk)
    (remaining : load 8 image (pool + 40) = layout.remaining) :
    load 8 image' (pool + 24) = (layout.released block).current ∧
      load 8 image' (pool + 32) = (layout.released block).nextFree chunk ∧
      load 8 image' (pool + 40) = (layout.released block).remaining ∧
        ∀ place length, (place + length ≤ pool + 24 ∨ pool + 48 ≤ place) →
          SameOn image image' place length := by
  rw [Layout.nextFree, Layout.released]
  dsimp only
  rw [current] at forgotten
  by_cases here : layout.current = block
  · rw [if_pos here] at forgotten
    subst forgotten
    rw [if_pos here, if_pos here, if_pos rfl]
    refine ⟨?_, ?_, ?_, ?_⟩
    · simp (disch := omega) only [load_store_apart, load_store_fits]
    · simp (disch := omega) only [load_store_apart, load_store_fits]
    · simp (disch := omega) only [load_store_fits]
    · intro place length outside
      exact ((store_sameOn (by omega)).trans (store_sameOn (by omega))).trans
        (store_sameOn (by omega))
  · rw [if_neg here] at forgotten
    subst forgotten
    rw [if_neg here, if_neg here]
    exact ⟨current, next, remaining, fun _ _ _ _ _ _ => rfl⟩

/-- A block that is entirely free is given back. -/
theorem releaseBlock_pooled {fuel : Nat} (size : ChunkSize chunk)
    (pooled : Pooled chunk pool process live layout)
    (inBlocks : block ∈ layout.blocks)
    (full : layout.freeIn block = blockCapacity chunk)
    (enough : layout.blocks.length + layout.free.length < fuel) :
    ∃ process', releaseBlock fuel pool block process = some process' ∧
      process'.held = process.held.filter
        (fun region => region.base ≠ block) ∧
        Pooled chunk pool process' live (layout.released block) ∧
        ∀ place length, Spared pool layout.blocks 65536 place length →
          SameOn process.image process'.image place length := by
  have represents := pooled.represents
  have carved := pooled.carved
  have holds := size.holdsLink
  obtain ⟨image₁, unlinked, chain, unlinkSame⟩ :=
    unlink_blocks pooled inBlocks (show layout.blocks.length < fuel by omega)
  have freeLinked : Linked (load 8 image₁) 0 (pool + 8) layout.free := by
    apply Linked.sameOn represents.freeList
    intro link member
    rcases List.mem_cons.mp member with rfl | member
    · apply unlinkSame
      · omega
      · intro other inBlocks'
        have apart := pooled.pool_apart inBlocks'
        omega
    · have place := pooled.place size (List.mem_append_left live member)
      apply unlinkSame
      · omega
      · intro other inBlocks'
        have aligned := carved.aligned other inBlocks'
        omega
  obtain ⟨image₂, purged, purgedLinked, purgeSame⟩ :=
    @purge_free chunk pool block process live layout image₁ fuel size pooled
      freeLinked (by omega)
  have ownSame : ∀ offset length, (offset + length ≤ 8 ∨ 24 ≤ offset) →
      offset + length ≤ 48 →
      SameOn process.image image₂ (pool + offset) length := by
    intro offset length outside inside
    refine (unlinkSame _ _ (by omega) ?_).trans (purgeSame _ _ (by omega) ?_)
    · intro other inBlocks'
      have apart := pooled.pool_apart inBlocks'
      omega
    · intro ptr member
      have place := pooled.place size (List.mem_append_left live member)
      omega
  obtain ⟨current, next, remaining, resetSame⟩ := forget_cursor rfl
    ((load_congr (ownSame 24 8 (by omega) (by omega))).trans
      represents.currentBlock)
    ((load_congr (ownSame 32 8 (by omega) (by omega))).trans
      represents.nextFree)
    ((load_congr (ownSame 40 8 (by omega) (by omega))).trans
      represents.remaining)
  generalize image₃_eq : (if load 8 image₂ (pool + 24) = block then
      store 8 (store 8 (store 8 image₂ (pool + 24) 0) (pool + 32) 0)
        (pool + 40) 0
    else image₂) = image₃ at current next remaining resetSame
  have done : releaseBlock fuel pool block process =
      some ({ process with image := image₃ }.release block) := by
    rw [releaseBlock, unlinked, Option.bind_eq_bind, Option.bind_some,
      purged, Option.bind_some, ← image₃_eq]
    rfl
  have spared : ∀ place length, Spared pool layout.blocks 65536 place length →
      SameOn process.image image₃ place length := by
    rintro place length ⟨fromPool, fromBlocks⟩
    refine ((unlinkSame _ _ (by omega) ?_).trans
      (purgeSame _ _ (by omega) ?_)).trans (resetSame _ _ (by omega))
    · intro other inBlocks'
      have fromBlock := fromBlocks other inBlocks'
      omega
    · intro ptr inFree
      have place := pooled.place size (List.mem_append_left live inFree)
      have fromBlock := fromBlocks _ place.1
      omega
  refine ⟨_, done, rfl, ⟨carved.released size full, ?_,
    pooled.sound.release block, pooled.positive, pooled.bounded, ?_, ?_⟩,
    spared⟩
  · exact {
      chunkSize := (load_congr ((ownSame 0 8 (by omega) (by omega)).trans
        (resetSame _ 8 (by omega)))).trans represents.chunkSize
      freeList := by
        apply Linked.sameOn purgedLinked
        intro link member
        apply resetSame
        rcases List.mem_cons.mp member with rfl | member
        · omega
        · have place := pooled.place size
            (List.mem_append_left live (List.mem_of_mem_filter member))
          omega
      blocks := by
        apply Linked.sameOn chain
        intro other member
        have place : other = pool + 16 ∨ other % 65536 = 0 ∧
            (pool + 48 ≤ other ∨ other + 65536 ≤ pool) := by
          rcases List.mem_cons.mp member with same | member
          · exact Or.inl same
          · have inBlocks' := List.mem_of_mem_erase member
            exact Or.inr
              ⟨carved.aligned _ inBlocks', pooled.pool_apart inBlocks'⟩
        refine (purgeSame _ 8 (by omega) ?_).trans (resetSame _ 8 (by omega))
        intro ptr inFree
        have place' := pooled.place size (List.mem_append_left live inFree)
        omega
      currentBlock := current
      nextFree := next
      remaining := remaining
      header := by
        intro other member
        obtain ⟨different, member⟩ := carved.nodup.mem_erase_iff.mp member
        have aligned := carved.aligned _ member
        have apart := pooled.pool_apart member
        rw [Layout.freeIn_released different]
        refine (represents.header other member).sameOn
          (((unlinkSame _ 32 (by omega) ?_).trans
            (purgeSame _ 32 (by omega) ?_)).trans (resetSame _ 32 (by omega)))
        · intro other' inBlocks'
          have aligned' := carved.aligned _ inBlocks'
          omega
        · intro ptr inFree
          have place := pooled.place size (List.mem_append_left live inFree)
          omega }
  · have apart := pooled.pool_apart inBlocks
    refine List.mem_filter.mpr ⟨pooled.poolHeld, decide_eq_true ?_⟩
    dsimp only
    omega
  · intro other member
    obtain ⟨different, member⟩ := carved.nodup.mem_erase_iff.mp member
    exact List.mem_filter.mpr
      ⟨pooled.blocksHeld other member, decide_eq_true different⟩

end Kivo.MemPool.Representation
