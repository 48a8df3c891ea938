import Kivo.Clib.Heap

/-!
# Slab pools

A pool hands out chunks of one size.  It carves them from blocks of 64 KiB that
the system gives at addresses which are multiples of 64 KiB, so that the block
of a chunk is found by clearing the low sixteen bits of the chunk's address.
Chunks that were given back form a list that runs through the chunks
themselves; as long as that list is empty, chunks are cut from the current
block one after the other.

The structures live in the memory of the process, with the layout of a 64-bit
platform.

* `mem_pool`: `chunk_size` at 0, `free_list` at 8, `blocks` at 16,
  `current_block` at 24, `next_free` at 32 and `remaining` at 40.
* `pool_block`: `next` at 0, `pool` at 8, the 32-bit `capacity` at 16 and
  `free_count` at 20, `magic` at 24 and `data` at 32.

An answer of the system is an argument: the grant that `malloc` or
`posix_memalign` returns, or `none` when it fails.  Loops that follow links
have fuel and give `none` when it runs out.
-/

namespace Kivo.MemPool.Slab

open Kivo.Clib.Heap

/-! ## Constants -/

/-- `POOL_BLOCK_SIZE`. -/
def poolBlockSize : Nat := 64 * 1024

/-- `MAX_SLAB_SIZE`. -/
def maxSlabSize : Nat := 8192

/-- `POOL_BLOCK_MAGIC`. -/
def poolBlockMagic : Nat := 0xDEADBEEFCAFEBABE

/-- `sizeof(pool_block_t)`. -/
def poolBlockHeader : Nat := 40

/-- `sizeof(mem_pool_t)`. -/
def memPoolStruct : Nat := 48

/-- `slab_classes`. -/
def slabClasses : List Nat :=
  [32, 64, 128, 256, 512, 1024, 2048, 4096, 8192]

/-! ## Pools and blocks -/

/-- `get_block_from_ptr`: the low sixteen bits are cleared. -/
def getBlockFromPtr (ptr : Nat) : Nat :=
  ptr - ptr % poolBlockSize

/-- `mem_pool_create`: the pool, or the null pointer. -/
def memPoolCreate (userSize : Nat) (malloc : Option Grant)
    (process : Process) : Process × Nat :=
  if userSize = 0 then (process, 0)
  else
    match malloc with
    | none => (process, 0)
    | some grant =>
        let pool := grant.base
        let process := process.take grant memPoolStruct
        let chunkSize := (userSize + 7) % 2 ^ 64 / 8 * 8
        let image := store 8 process.image pool
          (if chunkSize < 8 then 8 else chunkSize)
        let image := store 8 image (pool + 8) 0
        let image := store 8 image (pool + 16) 0
        let image := store 8 image (pool + 24) 0
        let image := store 8 image (pool + 32) 0
        let image := store 8 image (pool + 40) 0
        ({ process with image := image }, pool)

/-- `add_new_block`; `none` for its `-1`. -/
def addNewBlock (pool : Nat) (memalign : Option Grant)
    (process : Process) : Option Process :=
  match memalign with
  | none => none
  | some grant =>
      let block := grant.base
      let process := process.take grant poolBlockSize
      let image := store 8 process.image block 0
      let image := store 8 image (block + 8) pool
      let image := store 8 image (block + 24) poolBlockMagic
      let image := store 8 image (block + 32) (block + poolBlockHeader)
      let image := store 4 image (block + 16)
        ((poolBlockSize - poolBlockHeader) / load 8 image pool)
      let image := store 4 image (block + 20) 0
      let image := store 8 image block (load 8 image (pool + 16))
      let image := store 8 image (pool + 16) block
      let image := store 8 image (pool + 24) block
      let image := store 8 image (pool + 32) (load 8 image (block + 32))
      let image := store 8 image (pool + 40) (load 4 image (block + 16))
      some { process with image := image }

/-- The sequential part of `mem_pool_alloc`: the next chunk of the current
block. -/
def cutChunk (pool : Nat) (process : Process) : Process × Nat :=
  let chunk := load 8 process.image (pool + 32)
  let image := store 8 process.image (pool + 32)
    (chunk + load 8 process.image pool)
  let image := store 8 image (pool + 40)
    (load 8 image (pool + 40) + (2 ^ 64 - 1))
  ({ process with image := image }, chunk)

/-- The part of `mem_pool_alloc` that takes the head of the free list. -/
def popChunk (pool : Nat) (process : Process) : Process × Nat :=
  let chunk := load 8 process.image (pool + 8)
  let image := store 8 process.image (pool + 8) (load 8 process.image chunk)
  let block := getBlockFromPtr chunk
  let image := store 4 image (block + 20)
    (load 4 image (block + 20) + (2 ^ 32 - 1))
  ({ process with image := image }, chunk)

/-- `mem_pool_alloc`: the chunk, or the null pointer. -/
def memPoolAlloc (pool : Nat) (memalign : Option Grant)
    (process : Process) : Process × Nat :=
  if pool = 0 then (process, 0)
  else if load 8 process.image (pool + 8) ≠ 0 then popChunk pool process
  else if load 8 process.image (pool + 40) = 0 then
    match addNewBlock pool memalign process with
    | none => (process, 0)
    | some process => cutChunk pool process
  else cutChunk pool process

/-! ## Giving chunks and blocks back -/

/-- `remove_block_from_freelist`. -/
def removeBlockFromFreelist (fuel pool block : Nat) (image : Image) :
    Option Image :=
  unlinkAll (fun chunk => getBlockFromPtr chunk = block) fuel (pool + 8) image

/-- What `mem_pool_free_with_block` and `mem_pool_trim` do with a block that is
entirely free: unlink it, purge the free list, forget the cursor, `free`. -/
def releaseBlock (fuel pool block : Nat) (process : Process) :
    Option Process := do
  let image ← unlink block fuel (pool + 16) process.image
  let image ← removeBlockFromFreelist fuel pool block image
  let image :=
    if load 8 image (pool + 24) = block then
      store 8 (store 8 (store 8 image (pool + 24) 0) (pool + 32) 0)
        (pool + 40) 0
    else image
  return { process with image := image }.release block

/-- The first part of `mem_pool_free_with_block`: the chunk becomes the head of
the free list. -/
def pushChunk (pool ptr block : Nat) (process : Process) : Process :=
  let image := store 8 process.image ptr (load 8 process.image (pool + 8))
  let image := store 8 image (pool + 8) ptr
  { process with
    image := store 4 image (block + 20) (load 4 image (block + 20) + 1) }

/-- `mem_pool_free_with_block`. -/
def memPoolFreeWithBlock (fuel pool ptr block : Nat) (process : Process) :
    Option Process :=
  let process := pushChunk pool ptr block process
  if load 4 process.image (block + 20) = load 4 process.image (block + 16) then
    releaseBlock fuel pool block process
  else some process

/-- The loop of `mem_pool_trim`; the inner loops have fuel of their own. -/
def trimLoop (inner pool : Nat) : Nat → Nat → Process → Option Process
  | 0, _, _ => none
  | fuel + 1, block, process =>
      if block = 0 then some process
      else
        let next := load 8 process.image block
        if load 4 process.image (block + 20) =
            load 4 process.image (block + 16) then
          (releaseBlock inner pool block process).bind
            (trimLoop inner pool fuel next)
        else trimLoop inner pool fuel next process

/-- `mem_pool_trim`. -/
def memPoolTrim (fuel pool : Nat) (process : Process) : Option Process :=
  if pool = 0 then some process
  else trimLoop fuel pool fuel (load 8 process.image (pool + 16)) process

end Kivo.MemPool.Slab
