import Kivo.MemPool.SlabRuns

/-!
# The general allocator

`kvs_malloc` serves small requests from nine slab pools and everything else
from the C library, with a header of sixteen bytes in front of what it returns:
the size, and a magic number.  `kvs_free` and `kvs_realloc` are given nothing
but a pointer.  They look at the eight bytes in front of it: the magic number
there means a fallback allocation; otherwise the address mask leads to the
header of a block, and the block's own magic number means a slab chunk.

The model is that of the pool being enabled; when it is disabled the three
functions are `malloc`, `free` and `realloc`.  What the C library does with a
pointer that it did not hand out is undefined: the model leaves the process as
it is there.
-/

namespace Kivo.MemPool.General

open Kivo.Clib.Heap
open Kivo.MemPool.Slab

/-- `FALLBACK_MAGIC`. -/
def fallbackMagic : Nat := 0xFBCAFEBABEDEAD

/-- `sizeof(fallback_header_t)`: `size` at 0 and `magic` at 8. -/
def fallbackHeader : Nat := 16

/-! ## Allocation -/

/-- The process with `g_initialized` and `slab_pools`. -/
structure Allocator where
  process : Process
  initialized : Bool
  slabPools : List Nat

/-- What the C library answers during a call: to the nine `malloc` calls of the
initialisation, to `posix_memalign`, and to the `malloc` of a fallback. -/
structure Answers where
  pools : List (Option Grant)
  memalign : Option Grant
  malloc : Option Grant

/-- The loop of `kvs_mempool_init` that creates the pools. -/
def createPools : List Nat → List (Option Grant) → Process →
    Process × List Nat
  | [], _, process => (process, [])
  | size :: sizes, answers, process =>
      let (process, pool) :=
        memPoolCreate size (answers.head?.getD none) process
      let (process, pools) := createPools sizes answers.tail process
      (process, pool :: pools)

/-- `kvs_mempool_init`. -/
def kvsMempoolInit (answers : List (Option Grant)) (allocator : Allocator) :
    Allocator :=
  if allocator.initialized then allocator
  else
    let (process, pools) := createPools slabClasses answers allocator.process
    ⟨process, true, pools⟩

/-- `g_size_map[size]`: the pool of the first class that is large enough. -/
def gSizeMap (allocator : Allocator) (size : Nat) : Nat :=
  ((slabClasses.zip allocator.slabPools).find?
    (fun entry => size ≤ entry.1)).elim 0 Prod.snd

/-- The part of `kvs_malloc` that asks the C library. -/
def mallocFallback (size : Nat) (answer : Option Grant)
    (allocator : Allocator) : Allocator × Nat :=
  match answer with
  | none => (allocator, 0)
  | some grant =>
      let process := allocator.process.take grant
        ((fallbackHeader + size) % 2 ^ 64)
      let image := store 8 process.image grant.base size
      let image := store 8 image (grant.base + 8) fallbackMagic
      ({ allocator with process := { process with image := image } },
        grant.base + fallbackHeader)

/-- The pools, initialised when the one for a size is missing. -/
def initFor (size : Nat) (answers : Answers) (allocator : Allocator) :
    Allocator :=
  if gSizeMap allocator size = 0 then kvsMempoolInit answers.pools allocator
  else allocator

/-- `kvs_malloc`. -/
def kvsMalloc (size : Nat) (answers : Answers) (allocator : Allocator) :
    Allocator × Nat :=
  if size = 0 then (allocator, 0)
  else if size ≤ maxSlabSize then
    let allocator := initFor size answers allocator
    let pool := gSizeMap allocator size
    if pool ≠ 0 then
      let (process, ptr) :=
        memPoolAlloc pool answers.memalign allocator.process
      ({ allocator with process := process }, ptr)
    else mallocFallback size answers.malloc allocator
  else mallocFallback size answers.malloc allocator

/-! ## Giving back and resizing -/

/-- The three ways in which a pointer can be treated. -/
inductive Route where
  | fallback
  | slab
  | library
  deriving DecidableEq, Repr

/-- The tests that `kvs_free` and `kvs_realloc` make on a pointer. -/
def route (image : Image) (ptr : Nat) : Route :=
  if load 8 image (ptr - 8) = fallbackMagic then .fallback
  else if load 8 image (getBlockFromPtr ptr + 24) = poolBlockMagic then .slab
  else .library

/-- What a call did: the routes it took, and the allocator it left, or `none`
when a loop ran out of fuel. -/
abbrev Traced (α : Type) := List Route × Option α

/-- `kvs_free`. -/
def kvsFree (fuel ptr : Nat) (allocator : Allocator) : Traced Allocator :=
  if ptr = 0 then ([], some allocator)
  else
    let image := allocator.process.image
    let taken := route image ptr
    ([taken],
      match taken with
      | .fallback =>
          some { allocator with
            process := allocator.process.release (ptr - fallbackHeader) }
      | .slab =>
          let block := getBlockFromPtr ptr
          (memPoolFreeWithBlock fuel (load 8 image (block + 8)) ptr block
            allocator.process).map
              (fun process => { allocator with process := process })
      | .library =>
          some { allocator with process := allocator.process.release ptr })

/-- The second half of `kvs_realloc`: allocate, `memcpy`, free. -/
def moveTo (fuel ptr oldSize size : Nat) (answers : Answers)
    (allocator : Allocator) : Traced (Allocator × Nat) :=
  let (allocator, newPtr) := kvsMalloc size answers allocator
  if newPtr = 0 then ([], some (allocator, 0))
  else
    let image := allocator.process.image
    let copied := writeBytes image newPtr (readBytes image ptr oldSize)
    let (routes, freed) := kvsFree fuel ptr
      { allocator with process := { allocator.process with image := copied } }
    (routes, freed.map (fun allocator => (allocator, newPtr)))

/-- `kvs_realloc`. -/
def kvsRealloc (fuel ptr size : Nat) (answers : Answers)
    (allocator : Allocator) : Traced (Allocator × Nat) :=
  if ptr = 0 then ([], some (kvsMalloc size answers allocator))
  else if size = 0 then
    let (routes, freed) := kvsFree fuel ptr allocator
    (routes, freed.map (fun allocator => (allocator, 0)))
  else
    let image := allocator.process.image
    match route image ptr with
    | .fallback =>
        let oldSize := load 8 image (ptr - fallbackHeader)
        if size ≤ oldSize then ([.fallback], some (allocator, ptr))
        else
          let (routes, moved) := moveTo fuel ptr oldSize size answers allocator
          (.fallback :: routes, moved)
    | .slab =>
        let pool := load 8 image (getBlockFromPtr ptr + 8)
        let oldSize := load 8 image pool
        if size ≤ oldSize then ([.slab], some (allocator, ptr))
        else
          let (routes, moved) := moveTo fuel ptr oldSize size answers allocator
          (.slab :: routes, moved)
    | .library => ([.library], some (allocator, 0))

end Kivo.MemPool.General
