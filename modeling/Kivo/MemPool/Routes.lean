import Kivo.MemPool.Holdings

/-!
# Which way a pointer goes

A run of the general allocator: calls of `kvs_malloc`, `kvs_realloc` and
`kvs_free`, and writes of the callers into what they were given.  The header in
front of a fallback allocation keeps its magic number.  In front of a slab
chunk there is the header of its block, or the end of another chunk; the
content of that chunk decides which way the pointer goes.
-/

namespace Kivo.MemPool.Routes

open Kivo.Clib.Heap
open Kivo.Clib.Memory (Bytes)
open Kivo.Clib.Simulation (Throughout)
open Kivo.MemPool.Slab
open Kivo.MemPool.Carving
open Kivo.MemPool.Representation
open Kivo.MemPool.SlabRuns
open Kivo.MemPool.General
open Kivo.MemPool.Holdings

variable {count fuel : Nat} {world : World} {layouts : Nat → Layout}
  {chunk pool ptr : Nat} {region : Region}

/-! ## Routes -/

/-- The route is that of where the pointer came from. -/
def RightRoute (world : World) (ptr : Nat) (taken : Route) : Prop :=
  (taken = .slab ↔ world.FromSlab ptr) ∧
    (taken = .fallback ↔ world.FromFallback ptr)

/-- If the pointer is a slab chunk with another chunk right in front of it in
the same block, then that chunk does not end in the magic number. -/
def Clean (world : World) (ptr : Nat) : Prop :=
  ∀ chunk pool, world.Serves chunk pool → ptr ∈ world.slab pool →
    ∀ front, front + chunk = ptr →
      getBlockFromPtr ptr + poolBlockHeader ≤ front →
        load 8 world.process.image (front + chunk - 8) ≠ fallbackMagic

section Dispatch

variable (consistent : Consistent count world layouts)

include consistent

/-- The route of a slab chunk depends on the eight bytes in front of it. -/
theorem route_slab (serves : world.Serves chunk pool)
    (member : ptr ∈ world.slab pool) :
    route world.process.image ptr =
      if load 8 world.process.image (ptr - 8) = fallbackMagic then .fallback
      else .slab := by
  obtain ⟨pooled, -, -⟩ := consistent.pooled _ _ serves
  have place := pooled.place serves.size
    (List.mem_append_right (layouts pool).free member)
  have header := pooled.represents.header _ place.1
  rw [route, header.magic, if_pos rfl]

/-- In front of the first chunk of a block is the header of the block. -/
theorem front_of_first (serves : world.Serves chunk pool)
    (member : ptr ∈ world.slab pool) (first : getBlockFromPtr ptr + 40 = ptr) :
    load 8 world.process.image (ptr - 8) ≠ fallbackMagic := by
  obtain ⟨pooled, -, -⟩ := consistent.pooled _ _ serves
  have place := pooled.place serves.size
    (List.mem_append_right (layouts pool).free member)
  have header := pooled.represents.header _ place.1
  have before : ptr - 8 = getBlockFromPtr ptr + 32 := by omega
  rw [before, header.data, fallbackMagic]
  omega

theorem clean_iff (serves : world.Serves chunk pool)
    (member : ptr ∈ world.slab pool) :
    Clean world ptr ↔
      load 8 world.process.image (ptr - 8) ≠ fallbackMagic := by
  obtain ⟨pooled, -, -⟩ := consistent.pooled _ _ serves
  have size := serves.size
  constructor
  · intro clean
    by_cases first : getBlockFromPtr ptr + 40 = ptr
    · exact front_of_first consistent serves member first
    · have taken := List.mem_append_right (layouts pool).free member
      have place := pooled.place size taken
      obtain ⟨block, inBlocks, index, inside, shape⟩ :=
        (pooled.carved.taken_iff ptr).mp taken
      have home : getBlockFromPtr ptr = block := by
        rw [shape]
        exact size.block_chunkAt (pooled.carved.aligned _ inBlocks)
          (inside.le.trans ((layouts pool).bumped_le chunk block))
      have behind : block + 40 + chunk ≤ ptr := by
        rw [chunkAt, poolBlockHeader] at shape
        cases index with
        | zero =>
            rw [Nat.zero_mul] at shape
            omega
        | succ index =>
            rw [Nat.succ_mul] at shape
            omega
      have front := clean chunk pool serves member (ptr - chunk) (by omega)
        (by rw [poolBlockHeader]; omega)
      rwa [Nat.sub_add_cancel (by omega)] at front
  · intro front chunk' pool' serves' member' other adjacent _
    rw [adjacent]
    exact front

/-- No pointer comes from a pool and from the C library. -/
theorem exclusive (fromSlab : world.FromSlab ptr)
    (fromFallback : world.FromFallback ptr) : False := by
  obtain ⟨chunk, pool, serves, member⟩ := fromSlab
  obtain ⟨region, fallen, rfl⟩ := fromFallback
  obtain ⟨pooled, -, -⟩ := consistent.pooled _ _ serves
  have place := pooled.place serves.size
    (List.mem_append_right (layouts pool).free member)
  have apart := (consistent.fallenPool region fallen _ _ serves).2 _ place.1
  rw [Region.Apart, withHeader] at apart
  dsimp only at apart
  omega

theorem route_fallback (fromFallback : world.FromFallback ptr) :
    route world.process.image ptr = .fallback := by
  obtain ⟨region, member, rfl⟩ := fromFallback
  rw [route, (consistent.fallen region member).magic, if_pos rfl]

/-- A live pointer takes the right route exactly when it is clean. -/
theorem rightRoute_iff
    (live : world.FromSlab ptr ∨ world.FromFallback ptr) :
    RightRoute world ptr (route world.process.image ptr) ↔
      Clean world ptr := by
  rcases live with fromSlab | fromFallback
  · have notFallback := fun fromFallback =>
      exclusive consistent fromSlab fromFallback
    obtain ⟨chunk, pool, serves, member⟩ := fromSlab
    rw [clean_iff consistent serves member,
      route_slab consistent serves member, RightRoute]
    by_cases magic :
        load 8 world.process.image (ptr - 8) = fallbackMagic
    · rw [if_pos magic]
      constructor
      · rintro ⟨slabIff, -⟩
        exact absurd (slabIff.mpr ⟨chunk, pool, serves, member⟩) (by decide)
      · intro clean
        exact (clean magic).elim
    · rw [if_neg magic]
      refine ⟨fun _ => magic, fun _ => ⟨?_, ?_⟩⟩
      · exact ⟨fun _ => ⟨chunk, pool, serves, member⟩, fun _ => rfl⟩
      · exact ⟨fun same => absurd same (by decide),
          fun fromFallback => (notFallback fromFallback).elim⟩
  · have notSlab := fun fromSlab =>
      exclusive consistent fromSlab fromFallback
    rw [route_fallback consistent fromFallback]
    refine ⟨fun _ chunk pool serves member =>
      (notSlab ⟨chunk, pool, serves, member⟩).elim, fun _ => ⟨?_, ?_⟩⟩
    · exact ⟨fun same => absurd same (by decide),
        fun fromSlab => (notSlab fromSlab).elim⟩
    · exact ⟨fun _ => fromFallback, fun _ => rfl⟩

end Dispatch

/-! ## Giving a pointer back -/

/-- The world after a live pointer has been given back; the header of a slab
chunk's block is read from an image in which the block is intact. -/
def World.freed (world : World) (image : Image) (allocator : Allocator)
    (ptr : Nat) : World :=
  match world.fallback.find? (fun region => region.base = ptr) with
  | some region =>
      { world with
        allocator := allocator
        fallback := world.fallback.erase region }
  | none =>
      let pool := load 8 image (getBlockFromPtr ptr + 8)
      { world with
        allocator := allocator
        slab := Function.update world.slab pool
          ((world.slab pool).erase ptr) }

theorem freed_congr {world world' : World} (slab : world.slab = world'.slab)
    (fallback : world.fallback = world'.fallback) (image : Image)
    (allocator : Allocator) (ptr : Nat) :
    World.freed world image allocator ptr =
      World.freed world' image allocator ptr := by
  rw [World.freed, World.freed, slab, fallback]

section Freeing

variable (consistent : Consistent count world layouts)

include consistent

theorem block_pool (serves : world.Serves chunk pool)
    (member : ptr ∈ world.slab pool) :
    load 8 world.process.image (getBlockFromPtr ptr + 8) = pool := by
  obtain ⟨pooled, -, -⟩ := consistent.pooled _ _ serves
  have place := pooled.place serves.size
    (List.mem_append_right (layouts pool).free member)
  exact (pooled.represents.header _ place.1).pool

theorem live_pos (live : world.FromSlab ptr ∨ world.FromFallback ptr) :
    ptr ≠ 0 := by
  rcases live with ⟨chunk, pool, serves, member⟩ | ⟨region, member, rfl⟩
  · obtain ⟨pooled, -, -⟩ := consistent.pooled _ _ serves
    have place := pooled.place serves.size
      (List.mem_append_right (layouts pool).free member)
    omega
  · have behind := (consistent.fallen region member).behind
    omega

theorem kvsFree_slab {image : Image} (serves : world.Serves chunk pool)
    (member : ptr ∈ world.slab pool)
    (clean : load 8 world.process.image (ptr - 8) ≠ fallbackMagic)
    (home : load 8 image (getBlockFromPtr ptr + 8) = pool)
    (enough : count + 1 < fuel) :
    ∃ process' layouts', kvsFree fuel ptr world.allocator =
        ([.slab], some { world.allocator with process := process' }) ∧
      Consistent (count + 1) (World.freed world image
        { world.allocator with process := process' } ptr) layouts' := by
  have fromSlab : world.FromSlab ptr := ⟨chunk, pool, serves, member⟩
  have nonnull := live_pos consistent (Or.inl fromSlab)
  have taken := route_slab consistent serves member
  rw [if_neg clean] at taken
  obtain ⟨process', layout', freed, kept⟩ :=
    consistent.freeSlab serves member enough
  have absent : world.fallback.find? (fun region => region.base = ptr) =
      none := by
    rw [List.find?_eq_none]
    intro region inFallback same
    exact exclusive consistent fromSlab
      ⟨region, inFallback, of_decide_eq_true same⟩
  refine ⟨process', Function.update layouts pool layout', ?_, ?_⟩
  · rw [kvsFree, if_neg nonnull]
    dsimp only
    rw [taken]
    dsimp only
    rw [block_pool consistent serves member, freed]
    rfl
  · rw [World.freed, absent]
    dsimp only
    rw [home]
    exact kept

theorem kvsFree_fallback {image : Image} (live : world.FromFallback ptr) :
    ∃ process', kvsFree fuel ptr world.allocator =
        ([.fallback], some { world.allocator with process := process' }) ∧
      Consistent count (World.freed world image
        { world.allocator with process := process' } ptr) layouts := by
  have nonnull := live_pos consistent (Or.inr live)
  have taken := route_fallback consistent live
  refine ⟨world.process.release (ptr - fallbackHeader), ?_, ?_⟩
  · rw [kvsFree, if_neg nonnull]
    dsimp only
    rw [taken]
  · obtain ⟨region, member, based⟩ := live
    cases found : world.fallback.find? (fun region => region.base = ptr) with
    | none =>
        rw [List.find?_eq_none] at found
        exact absurd (decide_eq_true based) (found region member)
    | some other =>
        have same : other.base = ptr := by
          have named := List.find?_some found
          simpa using named
        have kept := consistent.freeFallback (List.mem_of_find?_eq_some found)
        rw [World.freed, found]
        dsimp only
        rw [← same]
        exact kept

end Freeing

/-! ## Resizing -/

/-- A pointer that `kvs_malloc` has just returned is live, with room for the
size that was asked for. -/
theorem handed_new {allocator : Allocator} {size : Nat} (nonnull : ptr ≠ 0) :
    (∃ chunk pool, (world.handed allocator size ptr).Serves chunk pool ∧
      ptr ∈ (world.handed allocator size ptr).slab pool ∧ size ≤ chunk) ∨
      (world.handed allocator size ptr).fallback =
        ⟨ptr, size⟩ :: world.fallback := by
  by_cases fromSlab : size ≤ maxSlabSize ∧ gSizeMap allocator size ≠ 0
  · obtain ⟨chunk, serves, large⟩ :=
      @gSizeMap_serves { world with allocator := allocator } size fromSlab.2
    rw [World.handed, if_neg nonnull, if_pos fromSlab]
    refine Or.inl ⟨chunk, gSizeMap allocator size, serves, ?_, large⟩
    dsimp only
    rw [Function.update_self]
    exact List.mem_cons_self
  · rw [World.handed, if_neg nonnull, if_neg fromSlab]
    exact Or.inr rfl

theorem handed_slab {allocator : Allocator} {size newPtr : Nat}
    (member : ptr ∈ world.slab pool) :
    ptr ∈ (world.handed allocator size newPtr).slab pool := by
  rw [World.handed]
  split_ifs
  · exact member
  · dsimp only
    by_cases here : pool = gSizeMap allocator size
    · rw [here, Function.update_self]
      rw [here] at member
      exact List.mem_cons_of_mem _ member
    · rw [Function.update_of_ne here]
      exact member
  · exact member

theorem handed_fallback {allocator : Allocator} {size newPtr : Nat}
    (member : region ∈ world.fallback) :
    region ∈ (world.handed allocator size newPtr).fallback := by
  rw [World.handed]
  split_ifs
  · exact member
  · exact member
  · exact List.mem_cons_of_mem _ member

theorem handed_allocator (world : World) (allocator : Allocator)
    (size newPtr : Nat) :
    (world.handed allocator size newPtr).allocator = allocator := by
  rw [World.handed]
  split_ifs <;> rfl

/-- What is handed out depends on the pools of the allocator. -/
theorem handed_congr {allocator allocator' : Allocator} (size newPtr : Nat)
    (same : allocator.slabPools = allocator'.slabPools) :
    (world.handed allocator size newPtr).slab =
        (world.handed allocator' size newPtr).slab ∧
      (world.handed allocator size newPtr).fallback =
        (world.handed allocator' size newPtr).fallback := by
  have map : gSizeMap allocator size = gSizeMap allocator' size := by
    rw [gSizeMap, gSizeMap, same]
  rw [World.handed, World.handed, map]
  split_ifs <;> exact ⟨rfl, rfl⟩

/-- The memory beside a request stays beside it, and lies apart from what the
request is given. -/
theorem beside_handed {size oldSize newPtr : Nat} {home : Region}
    {layouts' : Nat → Layout} {allocator : Allocator}
    (consistent : Consistent count (world.handed allocator size newPtr)
      layouts')
    (serves : ∀ chunk pool, world.Serves chunk pool →
      (world.handed allocator size newPtr).Serves chunk pool ∧
        (chunk < size → layouts' pool = layouts pool))
    (beside : Beside world layouts size home) (nonnull : newPtr ≠ 0)
    (smaller : oldSize < size) :
    home.base + home.length < newPtr ∨ newPtr + oldSize ≤ home.base := by
  rcases @handed_new world newPtr allocator size nonnull with
    ⟨chunk, pool, served, member, large⟩ | fell
  · have stays : Beside (world.handed allocator size newPtr) layouts' size
        home := by
      rcases beside with ⟨chunk', pool', served', less, owns⟩ |
        ⟨fallen, inFallback, same⟩
      · obtain ⟨served'', same⟩ := serves chunk' pool' served'
        refine Or.inl ⟨chunk', pool', served'', less, ?_⟩
        rw [same less]
        exact owns
      · exact Or.inr ⟨fallen, handed_fallback inFallback, same⟩
    obtain ⟨pooled, -, -⟩ := consistent.pooled _ _ served
    have place := pooled.place served.size
      (List.mem_append_right (layouts' pool).free member)
    have apart := (consistent.beside_apart stays served large).2 _ place.1
    rw [Region.Apart] at apart
    dsimp only at apart
    omega
  · have member : ⟨newPtr, size⟩ ∈
        (world.handed allocator size newPtr).fallback := by
      rw [fell]
      exact List.mem_cons_self
    have behind := (consistent.fallen _ member).behind
    have apart : (withHeader ⟨newPtr, size⟩).Apart home := by
      rcases beside with ⟨chunk, pool, served, less, owns⟩ |
        ⟨fallen, inFallback, rfl⟩
      · obtain ⟨served', same⟩ := serves chunk pool served
        have fromPool := consistent.fallenPool _ member _ _ served'
        rw [same less] at fromPool
        rcases owns with rfl | ⟨block, inBlocks, rfl⟩
        · exact fromPool.1
        · exact fromPool.2 block inBlocks
      · have pairwise := consistent.fallenApart
        rw [fell] at pairwise
        exact (List.pairwise_cons.mp pairwise).1 fallen inFallback
    rw [Region.Apart, withHeader] at apart
    dsimp only at apart behind
    omega

/-- The memory around a live pointer, which a larger request leaves alone. -/
theorem exists_home {size oldSize : Nat}
    (consistent : Consistent count world layouts) (smaller : oldSize < size)
    (live : (∃ pool, world.Serves oldSize pool ∧ ptr ∈ world.slab pool) ∨
      ⟨ptr, oldSize⟩ ∈ world.fallback) :
    ∃ home, Beside world layouts size home ∧ home.base + 16 ≤ ptr ∧
      ptr ≤ home.base + home.length := by
  rcases live with ⟨pool, serves, member⟩ | member
  · obtain ⟨pooled, -, -⟩ := consistent.pooled _ _ serves
    have place := pooled.place serves.size
      (List.mem_append_right (layouts pool).free member)
    refine ⟨⟨getBlockFromPtr ptr, 65536⟩, Or.inl ⟨oldSize, pool, serves,
      smaller, Or.inr ⟨_, place.1, rfl⟩⟩, ?_, ?_⟩
    · dsimp only
      omega
    · dsimp only
      omega
  · have behind := (consistent.fallen _ member).behind
    refine ⟨withHeader ⟨ptr, oldSize⟩, Or.inr ⟨_, member, rfl⟩, ?_, ?_⟩
    · rw [withHeader]
      dsimp only at behind ⊢
      omega
    · rw [withHeader]
      dsimp only at behind ⊢
      omega

/-- The new place is written to: the old content is copied there. -/
theorem copy_ok {allocator : Allocator} {size oldSize newPtr : Nat}
    {bytes : Bytes} {layouts' : Nat → Layout}
    (consistent : Consistent count (world.handed allocator size newPtr)
      layouts')
    (nonnull : newPtr ≠ 0) (smaller : oldSize < size)
    (length : bytes.length = oldSize) :
    Consistent count ((world.handed allocator size newPtr).withImage
      (writeBytes allocator.process.image newPtr bytes)) layouts' := by
  have image : (world.handed allocator size newPtr).process.image =
      allocator.process.image := by
    rw [World.process, handed_allocator]
  rw [← image]
  rcases @handed_new world newPtr allocator size nonnull with
    ⟨chunk, pool, served, member, large⟩ | fell
  · exact consistent.writeSlab served member le_rfl (by omega)
  · have member : ⟨newPtr, size⟩ ∈
        (world.handed allocator size newPtr).fallback := by
      rw [fell]
      exact List.mem_cons_self
    exact consistent.writeFallback member le_rfl (by dsimp only; omega)

/-- After the content has been copied to a new place, the old pointer still
takes its route. -/
theorem moveTo_ok {size oldSize : Nat} {answers : Answers}
    (consistent : Consistent count world layouts)
    (obliging : Obliging size answers world.allocator)
    (smaller : oldSize < size) (enough : count + 2 < fuel)
    (live : (∃ pool, world.Serves oldSize pool ∧ ptr ∈ world.slab pool) ∨
      ⟨ptr, oldSize⟩ ∈ world.fallback)
    (clean : Clean world ptr) :
    ∃ routes allocator' newPtr layouts',
      moveTo fuel ptr oldSize size answers world.allocator =
        (routes, some (allocator', newPtr)) ∧
      (∀ taken ∈ routes, taken = route world.process.image ptr) ∧
      newPtr ≠ ptr ∧
      Consistent (count + 2)
        (if newPtr = 0 then { world with allocator := allocator' }
        else World.freed (world.handed allocator' size newPtr)
          world.process.image allocator' ptr) layouts' := by
  have fromLive : world.FromSlab ptr ∨ world.FromFallback ptr := by
    rcases live with ⟨pool, serves, member⟩ | member
    · exact Or.inl ⟨oldSize, pool, serves, member⟩
    · exact Or.inr ⟨_, member, rfl⟩
  have ptrPos := live_pos consistent fromLive
  obtain ⟨home, beside, lower, upper⟩ := exists_home consistent smaller live
  obtain ⟨layouts₁, consistent₁, serves₁, frame₁⟩ :=
    consistent.malloc obliging
  generalize allocated : kvsMalloc size answers world.allocator = result
    at consistent₁ serves₁ frame₁
  obtain ⟨allocator₁, newPtr⟩ := result
  dsimp only at consistent₁ serves₁ frame₁
  rw [moveTo, allocated]
  dsimp only
  by_cases null : newPtr = 0
  · subst null
    rw [if_pos rfl]
    refine ⟨[], allocator₁, 0, layouts₁, rfl, by simp, ptrPos.symm, ?_⟩
    rw [World.handed, if_pos rfl] at consistent₁
    rw [if_pos rfl]
    exact consistent₁.mono (Nat.le_succ _)
  · have apart := beside_handed consistent₁ serves₁ beside null smaller
    have different : newPtr ≠ ptr := by omega
    rw [if_neg null]
    generalize copied_eq : writeBytes allocator₁.process.image newPtr
      (readBytes allocator₁.process.image ptr oldSize) = copied
    have same : SameOn world.process.image copied home.base home.length := by
      rw [← copied_eq]
      refine (frame₁ home beside).trans (writeBytes_sameOn ?_)
      rw [readBytes_length]
      omega
    have consistent₂ := copy_ok consistent₁ null smaller
      (readBytes_length allocator₁.process.image ptr oldSize)
    rw [copied_eq] at consistent₂
    have allocator₂ : ((world.handed allocator₁ size newPtr).withImage
        copied).allocator = { allocator₁ with
          process := { allocator₁.process with image := copied } } := by
      rw [World.withImage, World.process, handed_allocator]
    have ghost : ∀ process', World.freed
        ((world.handed allocator₁ size newPtr).withImage copied)
        world.process.image { allocator₁ with process := process' } ptr =
        World.freed (world.handed { allocator₁ with process := process' }
          size newPtr) world.process.image
            { allocator₁ with process := process' } ptr := by
      intro process'
      have pools := @handed_congr world allocator₁
        { allocator₁ with process := process' } size newPtr rfl
      exact freed_congr pools.1 pools.2 _ _ _
    rcases live with ⟨pool, serves, member⟩ | member
    · have front := (clean_iff consistent serves member).mp clean
      have front₂ : load 8 copied (ptr - 8) ≠ fallbackMagic := by
        rw [load_congr (same.part (by omega) (by omega))]
        exact front
      obtain ⟨process', layouts', freed, kept⟩ :=
        kvsFree_slab consistent₂ (serves₁ _ _ serves).1 (handed_slab member)
          front₂ (block_pool consistent serves member)
          (show count + 1 + 1 < fuel by omega)
      rw [allocator₂] at freed kept
      dsimp only at freed kept
      rw [ghost] at kept
      refine ⟨[.slab], { allocator₁ with process := process' }, newPtr,
        layouts', ?_, ?_, different, ?_⟩
      · rw [freed]
        rfl
      · intro taken inRoutes
        rw [List.mem_singleton.mp inRoutes,
          route_slab consistent serves member, if_neg front]
      · rw [if_neg null]
        exact kept
    · have fallen₂ : ((world.handed allocator₁ size newPtr).withImage
          copied).FromFallback ptr :=
        ⟨_, handed_fallback member, rfl⟩
      obtain ⟨process', freed, kept⟩ := @kvsFree_fallback _ fuel _ _ _
        consistent₂ world.process.image fallen₂
      rw [allocator₂] at freed kept
      dsimp only at freed kept
      rw [ghost] at kept
      refine ⟨[.fallback], { allocator₁ with process := process' }, newPtr,
        layouts₁, ?_, ?_, different, ?_⟩
      · rw [freed]
        rfl
      · intro taken inRoutes
        rw [List.mem_singleton.mp inRoutes,
          route_fallback consistent ⟨_, member, rfl⟩]
      · rw [if_neg null]
        exact kept.mono (Nat.le_succ _)

/-! ## Runs -/

/-- A call of the allocator, or a write into what was handed out. -/
inductive Call where
  | malloc (size : Nat) (answers : Answers)
  | realloc (ptr size : Nat) (answers : Answers)
  | free (ptr : Nat)
  | write (address : Nat) (bytes : Bytes)

/-- The pointer that a call is given, or the null pointer. -/
def Call.target : Call → Nat
  | .malloc _ _ => 0
  | .realloc ptr _ _ => ptr
  | .free ptr => ptr
  | .write _ _ => 0

/-- The routes that a call takes. -/
def Call.routes (fuel : Nat) (world : World) : Call → List Route
  | .malloc _ _ => []
  | .realloc ptr size answers =>
      (kvsRealloc fuel ptr size answers world.allocator).1
  | .free ptr => (kvsFree fuel ptr world.allocator).1
  | .write _ _ => []

/-- The world after `kvs_realloc` has returned a pointer. -/
def World.resized (world : World) (allocator : Allocator)
    (ptr size newPtr : Nat) : World :=
  if ptr = 0 then world.handed allocator size newPtr
  else if size = 0 then
    World.freed world world.process.image allocator ptr
  else if newPtr = 0 ∨ newPtr = ptr then
    { world with allocator := allocator }
  else World.freed (world.handed allocator size newPtr) world.process.image
    allocator ptr

/-- One call; `none` when a loop runs out of fuel. -/
def step (fuel : Nat) (world : World) : Call → Option World
  | .malloc size answers =>
      let (allocator, ptr) := kvsMalloc size answers world.allocator
      some (world.handed allocator size ptr)
  | .realloc ptr size answers =>
      (kvsRealloc fuel ptr size answers world.allocator).2.map
        (fun result => World.resized world result.1 ptr size result.2)
  | .free ptr =>
      (kvsFree fuel ptr world.allocator).2.map (fun allocator =>
        if ptr = 0 then { world with allocator := allocator }
        else World.freed world world.process.image allocator ptr)
  | .write address bytes =>
      some (world.withImage (writeBytes world.process.image address bytes))

/-- What the callers and the C library keep to: pointers are live or null,
writes stay inside what was handed out, grants are fresh. -/
def Permitted (world : World) : Call → Prop
  | .malloc size answers => Obliging size answers world.allocator
  | .realloc ptr size answers =>
      (ptr = 0 ∨ world.FromSlab ptr ∨ world.FromFallback ptr) ∧
        Obliging size answers world.allocator
  | .free ptr => ptr = 0 ∨ world.FromSlab ptr ∨ world.FromFallback ptr
  | .write address bytes =>
      (∃ chunk pool, world.Serves chunk pool ∧ ∃ ptr ∈ world.slab pool,
        ptr ≤ address ∧ address + bytes.length ≤ ptr + chunk) ∨
        ∃ region ∈ world.fallback, region.base ≤ address ∧
          address + bytes.length ≤ region.base + region.length

/-- Every route that a call takes is that of where its pointer came from. -/
def TakesRight (fuel : Nat) (world : World) (call : Call) : Prop :=
  ∀ taken ∈ call.routes fuel world, RightRoute world call.target taken

/-- The pointer of a call is clean. -/
def FindsClean (world : World) (call : Call) : Prop :=
  Clean world call.target

/-- The first route of a call is the one its pointer takes now. -/
theorem route_mem_routes (call : Call) (nonnull : call.target ≠ 0) :
    route world.process.image call.target ∈ call.routes fuel world := by
  cases call with
  | malloc size answers => exact (nonnull rfl).elim
  | write address bytes => exact (nonnull rfl).elim
  | free ptr =>
      have nonnull' : ptr ≠ 0 := nonnull
      rw [Call.routes, kvsFree, if_neg nonnull']
      exact List.mem_cons_self
  | realloc ptr size answers =>
      have nonnull' : ptr ≠ 0 := nonnull
      rw [Call.routes, Call.target, kvsRealloc, if_neg nonnull']
      by_cases zero : size = 0
      · rw [if_pos zero, kvsFree, if_neg nonnull']
        exact List.mem_cons_self
      · rw [if_neg zero]
        dsimp only
        cases taken : route world.process.image ptr with
        | fallback =>
            dsimp only
            split_ifs
            · exact List.mem_cons_self
            · exact List.mem_cons_self
        | slab =>
            dsimp only
            split_ifs
            · exact List.mem_cons_self
            · exact List.mem_cons_self
        | library => exact List.mem_cons_self

/-- The pointer of a permitted call is null or live. -/
theorem target_live {call : Call} (permitted : Permitted world call) :
    call.target = 0 ∨
      world.FromSlab call.target ∨ world.FromFallback call.target := by
  cases call with
  | malloc size answers => exact Or.inl rfl
  | write address bytes => exact Or.inl rfl
  | free ptr => exact permitted
  | realloc ptr size answers => exact permitted.1

section Calls

variable (consistent : Consistent count world layouts)

include consistent

theorem clean_zero : Clean world 0 := by
  intro chunk pool serves member
  exact (live_pos consistent (Or.inl ⟨chunk, pool, serves, member⟩) rfl).elim

/-- A clean live pointer can be given back. -/
theorem kvsFree_ok (live : world.FromSlab ptr ∨ world.FromFallback ptr)
    (clean : Clean world ptr) (enough : count + 1 < fuel) :
    ∃ allocator' layouts', kvsFree fuel ptr world.allocator =
        ([route world.process.image ptr], some allocator') ∧
      Consistent (count + 1)
        (World.freed world world.process.image allocator' ptr) layouts' := by
  rcases live with ⟨chunk, pool, serves, member⟩ | fallen
  · have front := (clean_iff consistent serves member).mp clean
    obtain ⟨process', layouts', freed, kept⟩ :=
      kvsFree_slab consistent serves member front
        (block_pool consistent serves member) enough
    rw [route_slab consistent serves member, if_neg front]
    exact ⟨_, layouts', freed, kept⟩
  · obtain ⟨process', freed, kept⟩ := @kvsFree_fallback _ fuel _ _ _
      consistent world.process.image fallen
    rw [route_fallback consistent fallen]
    exact ⟨_, layouts, freed, kept.mono (Nat.le_succ _)⟩

/-- A clean live pointer can be resized. -/
theorem kvsRealloc_ok {size : Nat} {answers : Answers}
    (live : world.FromSlab ptr ∨ world.FromFallback ptr)
    (clean : Clean world ptr) (enough : count + 2 < fuel)
    (obliging : Obliging size answers world.allocator) :
    ∃ routes allocator' newPtr layouts',
      kvsRealloc fuel ptr size answers world.allocator =
        (routes, some (allocator', newPtr)) ∧
      (∀ taken ∈ routes, taken = route world.process.image ptr) ∧
      Consistent (count + 2)
        (World.resized world allocator' ptr size newPtr) layouts' := by
  have ptrPos := live_pos consistent live
  by_cases zero : size = 0
  · obtain ⟨allocator', layouts', freed, kept⟩ :=
      kvsFree_ok consistent live clean (show count + 1 < fuel by omega)
    refine ⟨[route world.process.image ptr], allocator', 0, layouts', ?_, ?_,
      ?_⟩
    · rw [kvsRealloc, if_neg ptrPos, if_pos zero, freed]
      rfl
    · intro taken member
      exact List.mem_singleton.mp member
    · rw [World.resized, if_neg ptrPos, if_pos zero]
      exact kept.mono (Nat.le_succ _)
  have inPlace : Consistent (count + 2)
      (World.resized world world.allocator ptr size ptr) layouts := by
    rw [World.resized, if_neg ptrPos, if_neg zero, if_pos (Or.inr rfl)]
    exact consistent.mono (by omega)
  have moved : ∀ oldSize, oldSize < size →
      ((∃ pool, world.Serves oldSize pool ∧ ptr ∈ world.slab pool) ∨
        ⟨ptr, oldSize⟩ ∈ world.fallback) →
      ∃ routes allocator' newPtr layouts',
        moveTo fuel ptr oldSize size answers world.allocator =
          (routes, some (allocator', newPtr)) ∧
        (∀ taken ∈ route world.process.image ptr :: routes,
          taken = route world.process.image ptr) ∧
        Consistent (count + 2)
          (World.resized world allocator' ptr size newPtr) layouts' := by
    intro oldSize smaller here
    obtain ⟨routes, allocator', newPtr, layouts', result, right, different,
      kept⟩ := moveTo_ok consistent obliging smaller enough here clean
    refine ⟨routes, allocator', newPtr, layouts', result, ?_, ?_⟩
    · intro taken member
      rcases List.mem_cons.mp member with same | member
      · exact same
      · exact right taken member
    · rw [World.resized, if_neg ptrPos, if_neg zero]
      by_cases null : newPtr = 0
      · rw [if_pos (Or.inl null)]
        rw [if_pos null] at kept
        exact kept
      · rw [if_neg (fun either => either.elim null different)]
        rw [if_neg null] at kept
        exact kept
  rcases live with ⟨chunk, pool, serves, member⟩ | ⟨region, member, rfl⟩
  · have front := (clean_iff consistent serves member).mp clean
    have taken := route_slab consistent serves member
    rw [if_neg front] at taken
    have size_eq := (consistent.pooled _ _ serves).1.represents.chunkSize
    have unfolded : kvsRealloc fuel ptr size answers world.allocator =
        if size ≤ chunk then ([.slab], some (world.allocator, ptr))
        else
          (.slab :: (moveTo fuel ptr chunk size answers world.allocator).1,
            (moveTo fuel ptr chunk size answers world.allocator).2) := by
      rw [kvsRealloc, if_neg ptrPos, if_neg zero]
      dsimp only
      rw [taken]
      dsimp only
      rw [block_pool consistent serves member, size_eq]
    rw [unfolded]
    by_cases small : size ≤ chunk
    · rw [if_pos small]
      refine ⟨[.slab], world.allocator, ptr, layouts, rfl, ?_, inPlace⟩
      intro other inRoutes
      rw [List.mem_singleton.mp inRoutes, taken]
    · obtain ⟨routes, allocator', newPtr, layouts', result, right, kept⟩ :=
        moved chunk (by omega) (Or.inl ⟨pool, serves, member⟩)
      rw [if_neg small, result]
      rw [taken] at right ⊢
      exact ⟨_, allocator', newPtr, layouts', rfl, right, kept⟩
  · have taken := route_fallback consistent ⟨region, member, rfl⟩
    have size_eq := (consistent.fallen region member).size
    have unfolded : kvsRealloc fuel region.base size answers
        world.allocator =
        if size ≤ region.length then
          ([.fallback], some (world.allocator, region.base))
        else
          (.fallback :: (moveTo fuel region.base region.length size answers
            world.allocator).1,
            (moveTo fuel region.base region.length size answers
              world.allocator).2) := by
      rw [kvsRealloc, if_neg ptrPos, if_neg zero]
      dsimp only
      rw [taken]
      dsimp only
      rw [fallbackHeader, size_eq]
    rw [unfolded]
    by_cases small : size ≤ region.length
    · rw [if_pos small]
      refine ⟨[.fallback], world.allocator, region.base, layouts, rfl, ?_,
        inPlace⟩
      intro other inRoutes
      rw [List.mem_singleton.mp inRoutes, taken]
    · obtain ⟨routes, allocator', newPtr, layouts', result, right, kept⟩ :=
        moved region.length (by omega) (Or.inr member)
      rw [if_neg small, result]
      rw [taken] at right ⊢
      exact ⟨_, allocator', newPtr, layouts', rfl, right, kept⟩

/-- A call whose pointer is clean goes through, along the right routes. -/
theorem step_ok {call : Call} (permitted : Permitted world call)
    (clean : FindsClean world call) (enough : count + 2 < fuel) :
    ∃ next layouts', step fuel world call = some next ∧
      Consistent (count + 2) next layouts' ∧
        ∀ taken ∈ call.routes fuel world,
          call.target ≠ 0 ∧ taken = route world.process.image call.target := by
  cases call with
  | malloc size answers =>
      obtain ⟨layouts', kept, -, -⟩ := consistent.malloc permitted
      exact ⟨_, layouts', rfl, kept.mono (Nat.le_succ _), by
        simp [Call.routes]⟩
  | write address bytes =>
      refine ⟨_, layouts, rfl, ?_, by simp [Call.routes]⟩
      rcases permitted with
        ⟨chunk, pool, serves, ptr, member, lower, upper⟩ |
          ⟨region, member, lower, upper⟩
      · exact (consistent.writeSlab serves member lower upper).mono
          (by omega)
      · exact (consistent.writeFallback member lower upper).mono (by omega)
  | free ptr =>
      by_cases null : ptr = 0
      · subst null
        refine ⟨world, layouts, ?_, consistent.mono (by omega), ?_⟩
        · rw [step, kvsFree, if_pos rfl]
          rfl
        · rw [Call.routes, kvsFree, if_pos rfl]
          simp
      · have live := permitted.resolve_left null
        obtain ⟨allocator', layouts', freed, kept⟩ :=
          kvsFree_ok consistent live clean (show count + 1 < fuel by omega)
        refine ⟨World.freed world world.process.image allocator' ptr,
          layouts', ?_, kept.mono (Nat.le_succ _), ?_⟩
        · rw [step, freed, Option.map_some, if_neg null]
        · rw [Call.routes, freed]
          intro taken member
          exact ⟨null, List.mem_singleton.mp member⟩
  | realloc ptr size answers =>
      obtain ⟨live, obliging⟩ := permitted
      by_cases null : ptr = 0
      · subst null
        obtain ⟨layouts', kept, -, -⟩ := consistent.malloc obliging
        refine ⟨_, layouts', ?_, kept.mono (Nat.le_succ _), ?_⟩
        · rw [step, kvsRealloc, if_pos rfl, Option.map_some, World.resized,
            if_pos rfl]
        · rw [Call.routes, kvsRealloc, if_pos rfl]
          simp
      · obtain ⟨routes, allocator', newPtr, layouts', result, right, kept⟩ :=
          kvsRealloc_ok consistent (live.resolve_left null) clean enough
            obliging
        refine ⟨World.resized world allocator' ptr size newPtr, layouts', ?_,
          kept, ?_⟩
        · rw [step, result, Option.map_some]
        · rw [Call.routes, result]
          intro taken member
          exact ⟨null, right taken member⟩

/-- One call takes the right routes exactly when its pointer is clean. -/
theorem takesRight_iff {call : Call} (permitted : Permitted world call)
    (enough : count + 2 < fuel) :
    TakesRight fuel world call ↔ FindsClean world call := by
  constructor
  · intro right
    rcases target_live permitted with null | live
    · rw [FindsClean, null]
      exact clean_zero consistent
    · have first := @route_mem_routes fuel world call
        (live_pos consistent live)
      exact (rightRoute_iff consistent live).mp (right _ first)
  · intro clean taken member
    obtain ⟨-, -, -, -, routes⟩ :=
      step_ok consistent permitted clean enough
    obtain ⟨nonnull, same⟩ := routes taken member
    rw [same]
    exact (rightRoute_iff consistent
      ((target_live permitted).resolve_left nonnull)).mpr clean

end Calls

/-- The allocator before its first call. -/
def atStart (process : Process) : World where
  allocator := ⟨process, false, List.replicate slabClasses.length 0⟩
  slab _ := []
  fallback := []

theorem consistent_atStart {process : Process} (sound : process.Sound) :
    Consistent 0 (atStart process) (fun _ => Layout.empty) := by
  have unserved : ∀ chunk pool, ¬ (atStart process).Serves chunk pool := by
    rintro chunk pool ⟨member, nonnull⟩
    exact nonnull (List.eq_of_mem_replicate (List.of_mem_zip member).2)
  exact {
    sound := sound
    pooled := fun _ _ serves => (unserved _ _ serves).elim
    oneClass := fun _ _ _ serves => (unserved _ _ serves).elim
    blocksApart := fun _ _ _ _ serves => (unserved _ _ serves).elim
    fallen := by simp [atStart]
    fallenApart := List.Pairwise.nil
    fallenPool := by simp [atStart]
    unset := fun _ => ⟨rfl, fun _ => rfl⟩ }

theorem run_right_iff {calls : List Call}
    (consistent : Consistent count world layouts)
    (permitted : Throughout (step fuel) Permitted world calls)
    (enough : count + 2 * calls.length < fuel) :
    (Throughout (step fuel) (TakesRight fuel) world calls ↔
      Throughout (step fuel) FindsClean world calls) ∧
      (Throughout (step fuel) FindsClean world calls →
        ∃ last, calls.foldlM (step fuel) world = some last) := by
  induction calls generalizing world layouts count with
  | nil => exact ⟨Iff.rfl, fun _ => ⟨world, rfl⟩⟩
  | cons call rest induction =>
      rw [List.length_cons] at enough
      have room : count + 2 < fuel := by omega
      have here := takesRight_iff consistent permitted.1 room
      refine ⟨⟨?_, ?_⟩, ?_⟩
      · rintro ⟨right, later⟩
        have clean := here.mp right
        obtain ⟨next, layouts', stepped, kept, -⟩ :=
          step_ok consistent permitted.1 clean room
        refine ⟨clean, fun next' stepped' => ?_⟩
        obtain rfl : next = next' :=
          Option.some.inj (stepped.symm.trans stepped')
        exact (induction kept (permitted.2 next stepped)
          (by omega)).1.mp (later next stepped)
      · rintro ⟨clean, later⟩
        obtain ⟨next, layouts', stepped, kept, -⟩ :=
          step_ok consistent permitted.1 clean room
        refine ⟨here.mpr clean, fun next' stepped' => ?_⟩
        obtain rfl : next = next' :=
          Option.some.inj (stepped.symm.trans stepped')
        exact (induction kept (permitted.2 next stepped)
          (by omega)).1.mpr (later next stepped)
      · rintro ⟨clean, later⟩
        obtain ⟨next, layouts', stepped, kept, -⟩ :=
          step_ok consistent permitted.1 clean room
        obtain ⟨last, finished⟩ := (induction kept
          (permitted.2 next stepped) (by omega)).2 (later next stepped)
        refine ⟨last, ?_⟩
        rw [List.foldlM_cons, stepped]
        exact finished

/-- In every run, all routes are right exactly when no call is given a slab
chunk behind a chunk that ends in the magic number; such a run finishes. -/
theorem routes_right_iff {process : Process} (sound : process.Sound)
    {calls : List Call}
    (permitted : Throughout (step fuel) Permitted (atStart process) calls)
    (enough : 2 * calls.length < fuel) :
    (Throughout (step fuel) (TakesRight fuel) (atStart process) calls ↔
      Throughout (step fuel) FindsClean (atStart process) calls) ∧
      (Throughout (step fuel) FindsClean (atStart process) calls →
        ∃ last, calls.foldlM (step fuel) (atStart process) = some last) :=
  run_right_iff (consistent_atStart sound) permitted (by omega)

/-- What the C library answers while two values of 31 bytes and their
terminators are stored: nine pools, and one block. -/
def firstAnswers : Answers where
  pools := (List.range 9).map
    (fun index => some ⟨4096 + 64 * index, fun _ => 0⟩)
  memalign := some ⟨65536, fun _ => 0⟩
  malloc := none

def laterAnswers : Answers where
  pools := []
  memalign := none
  malloc := none

/-- Two chunks of 32 bytes; the first is filled with a text of 31 bytes that
ends in the bytes `AD DE BE BA FE CA FB`, and its terminator. -/
def storedMagic : List Call :=
  [.malloc 32 firstAnswers, .malloc 32 laterAnswers,
    .write 65576 (List.replicate 24 118 ++
      [0xAD, 0xDE, 0xBE, 0xBA, 0xFE, 0xCA, 0xFB, 0])]

instance grantedDecidable {allowed : Grant → Prop}
    [∀ grant, Decidable (allowed grant)] :
    (answer : Option Grant) →
      Decidable (∀ grant, answer = some grant → allowed grant)
  | none => isTrue (fun _ same => nomatch same)
  | some grant =>
      decidable_of_iff (allowed grant)
        ⟨fun fine _ same => Option.some.inj same ▸ fine,
          fun fine => fine grant rfl⟩

instance createsFreshDecidable :
    (sizes : List Nat) → (answers : List (Option Grant)) →
      (process : Process) → Decidable (CreatesFresh sizes answers process)
  | [], _, _ => isTrue trivial
  | size :: sizes, answers, process =>
      have := createsFreshDecidable sizes answers.tail
        (memPoolCreate size (answers.head?.getD none) process).1
      inferInstanceAs (Decidable (_ ∧ _))

instance obligingDecidable (size : Nat) (answers : Answers)
    (allocator : Allocator) : Decidable (Obliging size answers allocator) :=
  have : Decidable (Aligned (prepared size answers allocator).process
      answers.memalign) :=
    grantedDecidable answers.memalign
  decidable_of_iff
    (size + 16 < 2 ^ 64 ∧
      (allocator.initialized = false →
        CreatesFresh slabClasses answers.pools allocator.process) ∧
      Aligned (prepared size answers allocator).process answers.memalign ∧
      ∀ grant, answers.malloc = some grant →
        Fresh (prepared size answers allocator).process grant
          (fallbackHeader + size))
    ⟨fun ⟨small, pools, memalign, malloc⟩ => ⟨small, pools, memalign, malloc⟩,
      fun obliging => ⟨obliging.small, obliging.pools, obliging.memalign,
        obliging.malloc⟩⟩

instance fromSlabDecidable (world : World) (ptr : Nat) :
    Decidable (world.FromSlab ptr) :=
  decidable_of_iff
    (∃ entry ∈ slabClasses.zip world.allocator.slabPools,
      entry.2 ≠ 0 ∧ ptr ∈ world.slab entry.2)
    ⟨fun ⟨entry, served, nonnull, member⟩ =>
      ⟨entry.1, entry.2, ⟨served, nonnull⟩, member⟩,
      fun ⟨chunk, pool, ⟨served, nonnull⟩, member⟩ =>
        ⟨(chunk, pool), served, nonnull, member⟩⟩

instance fromFallbackDecidable (world : World) (ptr : Nat) :
    Decidable (world.FromFallback ptr) :=
  inferInstanceAs (Decidable (∃ region ∈ world.fallback, region.base = ptr))

instance takesRightDecidable (fuel : Nat) (world : World) (call : Call) :
    Decidable (TakesRight fuel world call) :=
  have : ∀ taken, Decidable (RightRoute world call.target taken) :=
    fun _ => inferInstanceAs (Decidable (_ ∧ _))
  inferInstanceAs (Decidable (∀ taken ∈ call.routes fuel world,
    RightRoute world call.target taken))

instance permittedDecidable (world : World) :
    (call : Call) → Decidable (Permitted world call)
  | .malloc size answers => obligingDecidable size answers world.allocator
  | .realloc _ _ _ => inferInstanceAs (Decidable (_ ∧ _))
  | .free _ => inferInstanceAs (Decidable (_ ∨ _))
  | .write address bytes =>
      decidable_of_iff
        ((∃ entry ∈ slabClasses.zip world.allocator.slabPools,
          entry.2 ≠ 0 ∧ ∃ ptr ∈ world.slab entry.2,
            ptr ≤ address ∧ address + bytes.length ≤ ptr + entry.1) ∨
          ∃ region ∈ world.fallback, region.base ≤ address ∧
            address + bytes.length ≤ region.base + region.length)
        (or_congr_left
          ⟨fun ⟨entry, served, nonnull, inside⟩ =>
            ⟨entry.1, entry.2, ⟨served, nonnull⟩, inside⟩,
            fun ⟨chunk, pool, ⟨served, nonnull⟩, inside⟩ =>
              ⟨(chunk, pool), served, nonnull, inside⟩⟩)

/-- The second chunk is handed to the C library, which never gave it out. -/
theorem storedMagic_misroutes :
    Throughout (step 16) Permitted (atStart idle)
        (storedMagic ++ [.free 65608]) ∧
      ¬ Throughout (step 16) (TakesRight 16) (atStart idle)
        (storedMagic ++ [.free 65608]) := by
  decide +kernel

/-- The first chunk, with the header of its block in front, goes back to its
pool. -/
theorem routes_right_chunk :
    Throughout (step 16) FindsClean (atStart idle)
        (storedMagic ++ [.free 65576]) ∧
      ∃ last, (storedMagic ++ [Call.free 65576]).foldlM (step 16)
        (atStart idle) = some last := by
  have sound : idle.Sound := List.Pairwise.nil
  have permitted : Throughout (step 16) Permitted (atStart idle)
      (storedMagic ++ [.free 65576]) := by
    decide +kernel
  have right : Throughout (step 16) (TakesRight 16) (atStart idle)
      (storedMagic ++ [.free 65576]) := by
    decide +kernel
  have both := @routes_right_iff 16 idle sound
    (storedMagic ++ [Call.free 65576]) permitted (by decide)
  exact ⟨both.1.mp right, both.2 (both.1.mp right)⟩

end Kivo.MemPool.Routes
