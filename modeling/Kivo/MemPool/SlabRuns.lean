import Kivo.Clib.Simulation
import Kivo.MemPool.Representation

/-!
# Slab pools over whole runs

A pool is used by a sequence of calls: chunks are taken, live chunks are
written to and given back, and the pool is trimmed.  The system answers every
request for a block with a fresh aligned block, or not at all.  What one call
keeps, every sequence of calls keeps.
-/

namespace Kivo.MemPool.SlabRuns

open Kivo.Clib.Chain
open Kivo.Clib.Heap
open Kivo.Clib.Memory (Bytes)
open Kivo.Clib.Simulation (Throughout)
open Kivo.MemPool.Slab
open Kivo.MemPool.Carving
open Kivo.MemPool.Representation

/-! ## The calls -/

/-- `posix_memalign` grants fresh blocks at multiples of the block size. -/
def Aligned (process : Process) (memalign : Option Grant) : Prop :=
  ∀ grant, memalign = some grant →
    Fresh process grant poolBlockSize ∧ grant.base % poolBlockSize = 0

/-- How many nodes the lists of a pool have. -/
def nodes (layout : Layout) : Nat :=
  layout.blocks.length + layout.free.length

variable {chunk pool ptr fuel : Nat} {process : Process} {live : List Nat}
  {layout : Layout}

/-- What a successful `mem_pool_alloc` does. -/
structure Taken (chunk pool : Nat) (memalign : Option Grant)
    (process : Process) (live : List Nat) (layout : Layout)
    (process' : Process) (ptr : Nat) (layout' : Layout) : Prop where
  pooled : Pooled chunk pool process' (ptr :: live) layout'
  busy : Busy chunk layout → Busy chunk layout'
  nodes_le : nodes layout' ≤ nodes layout + 1
  kept : layout.free ++ live ⊆ layout'.free ++ ptr :: live
  held : layout'.blocks = layout.blocks ∧ process'.held = process.held ∨
    ∃ grant, memalign = some grant ∧
      layout'.blocks = grant.base :: layout.blocks ∧
        process'.held = ⟨grant.base, poolBlockSize⟩ :: process.held
  spared : ∀ place length, Spared pool layout.blocks 40 place length →
    (∀ grant, memalign = some grant → place + length ≤ grant.base ∨
      grant.base + poolBlockSize ≤ place) →
    SameOn process.image process'.image place length

theorem Pooled.taken_pos {layout' : Layout} (size : ChunkSize chunk)
    (pooled : Pooled chunk pool process (ptr :: live) layout') : ptr ≠ 0 := by
  have place := pooled.place size
    (List.mem_append_right layout'.free List.mem_cons_self)
  omega

theorem memPoolAlloc_taken (size : ChunkSize chunk)
    (pooled : Pooled chunk pool process live layout)
    {memalign : Option Grant} (answers : Aligned process memalign) :
    memPoolAlloc pool memalign process = (process, 0) ∨
      ∃ process' ptr layout',
        memPoolAlloc pool memalign process = (process', ptr) ∧
          Taken chunk pool memalign process live layout process' ptr
            layout' := by
  have represents := pooled.represents
  have positive := size.capacity_pos
  rw [memPoolAlloc, if_neg pooled.positive.ne', represents.remaining]
  cases free_eq : layout.free with
  | cons head rest =>
      have taken : head ∈ layout.free ++ live := by
        rw [free_eq]
        exact List.mem_append_left _ List.mem_cons_self
      have place := pooled.place size taken
      have first : load 8 process.image (pool + 8) = head := by
        have linked := represents.freeList
        rw [free_eq] at linked
        exact linked.1
      obtain ⟨chunk_eq, held, popped, spared⟩ :=
        popChunk_pooled size pooled free_eq
      rw [if_pos (by omega)]
      refine Or.inr ⟨(popChunk pool process).1, (popChunk pool process).2,
        layout.popped, rfl, ?_⟩
      rw [chunk_eq]
      exact {
        pooled := popped
        busy := by
          intro busy block member
          have counted := layout.freeIn_popped free_eq block
          have fewer := busy block member
          omega
        nodes_le := by
          rw [nodes, nodes, Layout.popped, free_eq, List.tail_cons,
            List.length_cons]
          dsimp only
          omega
        kept := by
          intro other member
          rw [free_eq] at member
          rw [Layout.popped, free_eq, List.tail_cons]
          exact List.perm_middle.symm.subset member
        held := Or.inl ⟨rfl, held⟩
        spared := fun place length outside _ => spared place length outside }
  | nil =>
      have none : load 8 process.image (pool + 8) = 0 := by
        have linked := represents.freeList
        rw [free_eq] at linked
        exact linked.1
      rw [if_neg (by omega)]
      by_cases exhausted : layout.remaining = 0
      · rw [if_pos exhausted]
        cases memalign with
        | none => exact Or.inl rfl
        | some grant =>
            obtain ⟨fresh, aligned⟩ := answers grant rfl
            obtain ⟨process₁, added, held₁, pooled₁, spared₁⟩ :=
              addNewBlock_pooled size pooled exhausted fresh aligned
            obtain ⟨chunk_eq, held₂, pooled₂, spared₂⟩ :=
              cutChunk_pooled size pooled₁ positive
            rw [added]
            refine Or.inr ⟨(cutChunk pool process₁).1,
              (cutChunk pool process₁).2,
              (layout.opened chunk grant.base).cut, rfl, ?_⟩
            rw [chunk_eq]
            exact {
              pooled := pooled₂
              busy := by
                intro busy block member
                rcases List.mem_cons.mp member with rfl | member
                · have zero : layout.freeIn grant.base = 0 := by
                    rw [Layout.freeIn, free_eq, List.filter_nil,
                      List.length_nil]
                  exact zero.trans_lt positive
                · exact busy block member
              nodes_le := by
                rw [nodes, nodes, Layout.cut, Layout.opened]
                dsimp only
                rw [List.length_cons]
                omega
              kept := fun other member =>
                List.perm_middle.symm.subset (List.mem_cons_of_mem _ member)
              held := Or.inr ⟨grant, rfl, rfl, held₂.trans held₁⟩
              spared := by
                intro place length outside fromGrant
                have beside := fromGrant grant rfl
                refine (spared₁ place length outside beside).trans
                  (spared₂ place length ⟨outside.1, ?_⟩)
                intro block member
                rcases List.mem_cons.mp member with rfl | member
                · rw [poolBlockSize] at beside
                  omega
                · exact outside.2 block member }
      · obtain ⟨chunk_eq, held, cut, spared⟩ :=
          cutChunk_pooled size pooled (Nat.pos_of_ne_zero exhausted)
        rw [if_neg exhausted]
        refine Or.inr ⟨(cutChunk pool process).1, (cutChunk pool process).2,
          layout.cut, rfl, ?_⟩
        rw [chunk_eq]
        exact {
          pooled := cut
          busy := fun busy => busy
          nodes_le := Nat.le_succ _
          kept := fun other member =>
            List.perm_middle.symm.subset (List.mem_cons_of_mem _ member)
          held := Or.inl ⟨rfl, held⟩
          spared := fun place length outside _ =>
            spared place length outside }

/-- What `mem_pool_free_with_block` does with a live chunk. -/
structure Returned (chunk pool ptr : Nat) (process : Process)
    (live : List Nat) (layout : Layout) (process' : Process)
    (layout' : Layout) : Prop where
  pooled : Pooled chunk pool process' (live.erase ptr) layout'
  busy : Busy chunk layout'
  nodes_le : nodes layout' ≤ nodes layout + 1
  kept : ∀ other ∈ layout.free ++ live,
    getBlockFromPtr other ∈ layout'.blocks →
      other ∈ layout'.free ++ live.erase ptr
  held : layout'.blocks = layout.blocks ∧ process'.held = process.held ∨
    layout'.blocks = layout.blocks.erase (getBlockFromPtr ptr) ∧
      process'.held = process.held.filter
        (fun region => region.base ≠ getBlockFromPtr ptr)
  spared : ∀ place length, Spared pool layout.blocks 65536 place length →
    SameOn process.image process'.image place length

theorem memPoolFreeWithBlock_returned (size : ChunkSize chunk)
    (pooled : Pooled chunk pool process live layout)
    (busy : Busy chunk layout) (member : ptr ∈ live)
    (enough : nodes layout + 1 < fuel) :
    ∃ process' layout',
      memPoolFreeWithBlock fuel pool ptr (getBlockFromPtr ptr) process =
        some process' ∧
        Returned chunk pool ptr process live layout process' layout' := by
  have place := pooled.place size (List.mem_append_right layout.free member)
  obtain ⟨pushed, spared⟩ := pushChunk_pooled size pooled member
  set block := getBlockFromPtr ptr with block_eq
  have header := pushed.represents.header block place.1
  have other_lt : ∀ other ∈ layout.blocks, other ≠ block →
      (layout.pushed ptr).freeIn other < blockCapacity chunk := by
    intro other inBlocks different
    rw [layout.freeIn_pushed, if_neg (fun same => different same.symm)]
    exact busy other inBlocks
  have pushedNodes : nodes (layout.pushed ptr) = nodes layout + 1 := by
    rw [nodes, nodes, Layout.pushed]
    dsimp only
    rw [List.length_cons]
    omega
  have divided : ((layout.pushed ptr).free ++ live.erase ptr).Perm
      (layout.free ++ live) :=
    List.perm_middle.symm.trans
      ((List.perm_cons_erase member).symm.append_left layout.free)
  rw [memPoolFreeWithBlock, header.freeCount, header.capacity]
  by_cases full : (layout.pushed ptr).freeIn block = blockCapacity chunk
  · obtain ⟨process', released, held, pooled', spared'⟩ :=
      releaseBlock_pooled size pushed place.1 full
        (show nodes (layout.pushed ptr) < fuel by omega)
    rw [if_pos full]
    refine ⟨process', (layout.pushed ptr).released block, released, ?_⟩
    exact {
      pooled := pooled'
      busy := by
        intro other inBlocks
        obtain ⟨different, inBlocks⟩ :=
          pooled.carved.nodup.mem_erase_iff.mp inBlocks
        rw [Layout.freeIn_released different]
        exact other_lt other inBlocks different
      nodes_le := by
        rw [← pushedNodes, nodes, nodes, Layout.released]
        dsimp only
        have fewer := List.length_erase_le (a := block)
          (l := (layout.pushed ptr).blocks)
        have fewer' := List.length_filter_le
          (fun ptr => decide (getBlockFromPtr ptr ≠ block))
          (layout.pushed ptr).free
        omega
      kept := by
        intro other member' inBlocks
        have different := (pooled.carved.nodup.mem_erase_iff.mp inBlocks).1
        rcases List.mem_append.mp (divided.mem_iff.mpr member') with
          inFree | inLive
        · exact List.mem_append_left _
            (List.mem_filter.mpr ⟨inFree, decide_eq_true different⟩)
        · exact List.mem_append_right _ inLive
      held := Or.inr ⟨rfl, held⟩
      spared := fun place length outside =>
        (spared place length outside).trans (spared' place length outside) }
  · rw [if_neg full]
    refine ⟨_, layout.pushed ptr, rfl, ?_⟩
    exact {
      pooled := pushed
      busy := by
        intro other inBlocks
        by_cases here : other = block
        · rw [here]
          exact lt_of_le_of_ne (pushed.carved.freeIn_le size block) full
        · exact other_lt other inBlocks here
      nodes_le := pushedNodes.le
      kept := fun other member' _ => divided.mem_iff.mpr member'
      held := Or.inl ⟨rfl, rfl⟩
      spared := spared }

/-- No block of a reachable pool is entirely free, so trimming finds nothing. -/
theorem trimLoop_busy {inner block : Nat} {rest : List Nat}
    (linked : Linked (load 8 process.image) 0 block rest)
    (headers : ∀ other ∈ block :: rest, other ≠ 0 ∧
      load 4 process.image (other + 20) ≠ load 4 process.image (other + 16))
    (enough : rest.length + 1 < fuel) :
    trimLoop inner pool fuel block process = some process := by
  induction rest generalizing block fuel with
  | nil =>
      obtain ⟨fuel, rfl⟩ := Nat.exists_eq_add_of_lt enough
      have next : load 8 process.image block = 0 := linked.1
      obtain ⟨nonnull, notFull⟩ := headers block List.mem_cons_self
      rw [List.length_nil, Nat.zero_add, trimLoop, if_neg nonnull]
      dsimp only
      rw [if_neg notFull, next, Nat.add_comm, trimLoop, if_pos rfl]
  | cons next rest induction =>
      obtain ⟨fuel, rfl⟩ := Nat.exists_eq_add_of_lt enough
      have step : load 8 process.image block = next := linked.1
      obtain ⟨nonnull, notFull⟩ := headers block List.mem_cons_self
      rw [trimLoop, if_neg nonnull]
      dsimp only
      rw [if_neg notFull, step]
      exact induction linked.2
        (fun other member => headers other (List.mem_cons_of_mem _ member))
        (by rw [List.length_cons]; omega)

theorem memPoolTrim_busy (pooled : Pooled chunk pool process live layout)
    (busy : Busy chunk layout) (enough : nodes layout + 1 < fuel) :
    memPoolTrim fuel pool process = some process := by
  have represents := pooled.represents
  have headers : ∀ other ∈ layout.blocks, other ≠ 0 ∧
      load 4 process.image (other + 20) ≠
        load 4 process.image (other + 16) := by
    intro other member
    have header := represents.header other member
    rw [header.freeCount, header.capacity]
    exact ⟨(pooled.carved.positive other member).ne',
      (busy other member).ne⟩
  have linked := represents.blocks
  rw [nodes] at enough
  rw [memPoolTrim, if_neg pooled.positive.ne']
  cases blocks_eq : layout.blocks with
  | nil =>
      rw [blocks_eq] at linked
      have none : load 8 process.image (pool + 16) = 0 := linked.1
      obtain ⟨fuel, rfl⟩ := Nat.exists_eq_add_of_lt enough
      rw [none, trimLoop, if_pos rfl]
  | cons block rest =>
      rw [blocks_eq] at linked headers enough
      have first : load 8 process.image (pool + 16) = block := linked.1
      rw [List.length_cons] at enough
      rw [first]
      exact trimLoop_busy linked.2 headers (by omega)

/-! ## Sequences of calls -/

/-- A call to a pool, or a write by the owner of a live chunk. -/
inductive Request where
  | alloc (memalign : Option Grant)
  | free (ptr : Nat)
  | trim
  | write (address : Nat) (bytes : Bytes)

/-- The process, the chunks that are handed out and not given back, and all the
chunks that were ever handed out of the blocks the pool has. -/
structure State where
  process : Process
  live : List Nat
  given : List Nat

/-- Chunks of blocks that went back to the system are forgotten. -/
def stillHeld (process : Process) (given : List Nat) : List Nat :=
  given.filter (fun ptr =>
    ⟨getBlockFromPtr ptr, poolBlockSize⟩ ∈ process.held)

/-- One call. -/
def step (fuel pool : Nat) (state : State) : Request → Option State
  | .alloc memalign =>
      let (process, ptr) := memPoolAlloc pool memalign state.process
      some (if ptr = 0 then { state with process := process }
        else ⟨process, ptr :: state.live, ptr :: state.given⟩)
  | .free ptr =>
      (memPoolFreeWithBlock fuel pool ptr (getBlockFromPtr ptr)
        state.process).map (fun process =>
          ⟨process, state.live.erase ptr, stillHeld process state.given⟩)
  | .trim =>
      (memPoolTrim fuel pool state.process).map (fun process =>
        ⟨process, state.live, stillHeld process state.given⟩)
  | .write address bytes =>
      some { state with
        process := { state.process with
          image := writeBytes state.process.image address bytes } }

/-- What the callers and the system keep to: blocks are fresh and aligned, only
live chunks are given back, and writes stay inside a live chunk. -/
def Permitted (chunk : Nat) (state : State) : Request → Prop
  | .alloc memalign => Aligned state.process memalign
  | .free ptr => ptr ∈ state.live
  | .trim => True
  | .write address bytes => ∃ ptr ∈ state.live,
      ptr ≤ address ∧ address + bytes.length ≤ ptr + chunk

instance permittedDecidable (chunk : Nat) (state : State) :
    ∀ request : Request, Decidable (Permitted chunk state request)
  | .alloc none => isTrue (fun _ wrong => nomatch wrong)
  | .alloc (some grant) =>
      decidable_of_iff (Fresh state.process grant poolBlockSize ∧
          grant.base % poolBlockSize = 0)
        ⟨fun both _ same => Option.some.inj same ▸ both,
          fun answers => answers grant rfl⟩
  | .free ptr => inferInstanceAs (Decidable (ptr ∈ state.live))
  | .trim => isTrue trivial
  | .write address bytes =>
      inferInstanceAs (Decidable (∃ ptr ∈ state.live,
        ptr ≤ address ∧ address + bytes.length ≤ ptr + chunk))

/-- A sequence of calls; `none` when a loop ran out of fuel. -/
def run (fuel pool : Nat) (state : State) (requests : List Request) :
    Option State :=
  requests.foldlM (step fuel pool) state

/-- The pool as `mem_pool_create` leaves it. -/
def created (userSize : Nat) (grant : Grant) (process : Process) : State :=
  ⟨(memPoolCreate userSize (some grant) process).1, [], []⟩

/-- The invariant of a run: the bytes stand for a layout, and the chunks that
were ever handed out are among those that have been cut. -/
structure Reached (chunk pool count : Nat) (state : State)
    (layout : Layout) : Prop where
  pooled : Pooled chunk pool state.process state.live layout
  busy : Busy chunk layout
  nodes_le : nodes layout ≤ count
  given : state.given ⊆ layout.free ++ state.live

/-! ## What a call keeps -/

section Calls

variable {count : Nat} {state : State}

theorem created_reached {grant : Grant} (slab : chunk ∈ slabClasses)
    (sound : process.Sound) (fresh : Fresh process grant memPoolStruct) :
    Reached chunk grant.base 0 (created chunk grant process) Layout.empty := by
  have size := chunkSize_slab slab
  have holds := size.holdsLink
  have even := size.even
  have atMost := size.atMost
  rw [maxSlabSize] at atMost
  have rounded : (chunk + 7) % 2 ^ 64 / 8 * 8 = chunk := by omega
  have shape : memPoolCreate chunk (some grant) process =
      ({ process.take grant memPoolStruct with
        image := store 8 (store 8 (store 8 (store 8 (store 8 (store 8
          (process.take grant memPoolStruct).image grant.base chunk)
            (grant.base + 8) 0) (grant.base + 16) 0) (grant.base + 24) 0)
              (grant.base + 32) 0) (grant.base + 40) 0 }, grant.base) := by
    rw [memPoolCreate, if_neg (show chunk ≠ 0 by omega)]
    dsimp only
    rw [rounded, if_neg (show ¬ chunk < 8 by omega)]
  refine ⟨?_, by simp [Busy, Layout.empty], le_rfl, by simp [created]⟩
  rw [created, shape]
  exact {
    carved := carved_empty chunk
    represents := {
      chunkSize := by
        simp (disch := omega) only [load_store_apart, load_store_fits]
      freeList := by
        refine ⟨?_, trivial⟩
        simp (disch := omega) only [load_store_apart, load_store_fits]
      blocks := by
        refine ⟨?_, trivial⟩
        simp (disch := omega) only [load_store_apart, load_store_fits]
      currentBlock := by
        simp (disch := omega) only [load_store_apart, load_store_fits,
          Layout.empty]
      nextFree := by
        simp (disch := omega) only [load_store_apart, load_store_fits,
          Layout.empty, Layout.nextFree, if_true]
      remaining := by
        simp (disch := omega) only [load_store_fits, Layout.empty]
      header := by simp [Layout.empty] }
    sound := sound.take fresh
    positive := fresh.positive
    bounded := fresh.bounded
    poolHeld := List.mem_cons_self
    blocksHeld := by simp [Layout.empty] }

/-- A write inside a live chunk touches nothing of the pool. -/
theorem write_pooled {address : Nat} {bytes : Bytes} (size : ChunkSize chunk)
    (pooled : Pooled chunk pool process live layout) (member : ptr ∈ live)
    (lower : ptr ≤ address) (upper : address + bytes.length ≤ ptr + chunk) :
    Pooled chunk pool
      { process with image := writeBytes process.image address bytes } live
      layout := by
  have inUse := List.mem_append_right layout.free member
  have place := pooled.place size inUse
  refine ⟨pooled.carved, pooled.represents.frame ?_ ?_ ?_, pooled.sound,
    pooled.positive, pooled.bounded, pooled.poolHeld, pooled.blocksHeld⟩
  · exact writeBytes_sameOn (by omega)
  · intro block inBlocks
    have aligned := pooled.carved.aligned block inBlocks
    exact writeBytes_sameOn (by omega)
  · intro other inFree
    have inUse' := List.mem_append_left live inFree
    have different : other ≠ ptr := by
      rintro rfl
      exact (List.nodup_append.mp pooled.carved.taken_nodup).2.2 _ inFree _
        member rfl
    have apart := ((pooled.carved.taken_iff other).mp inUse').apart size
      pooled.carved ((pooled.carved.taken_iff ptr).mp inUse) different
    have holds := size.holdsLink
    exact writeBytes_sameOn (by omega)

/-- The blocks that a call gave back are no longer in the layout. -/
def Leave (state next : State) (layout layout' : Layout) : Prop :=
  ∀ block, ⟨block, poolBlockSize⟩ ∈ state.process.held →
    ⟨block, poolBlockSize⟩ ∉ next.process.held →
      block ∈ layout.blocks ∧ block ∉ layout'.blocks

theorem leave_of_subset {state next : State} {layout' : Layout}
    (subset : state.process.held ⊆ next.process.held) :
    Leave state next layout layout' :=
  fun _ held gone => (gone (subset held)).elim

theorem step_reached {request : Request} (size : ChunkSize chunk)
    (reached : Reached chunk pool count state layout)
    (permitted : Permitted chunk state request) (enough : count + 1 < fuel) :
    ∃ next layout', step fuel pool state request = some next ∧
      Reached chunk pool (count + 1) next layout' ∧
        Leave state next layout layout' := by
  have pooled := reached.pooled
  have few := reached.nodes_le
  cases request with
  | alloc memalign =>
      rcases memPoolAlloc_taken size pooled permitted with
        refused | ⟨process', ptr, layout', allocated, taken⟩
      · refine ⟨state, layout, ?_, ⟨pooled, reached.busy, by omega,
          reached.given⟩, leave_of_subset (List.Subset.refl _)⟩
        rw [step, refused]
        rfl
      · have nonnull := Pooled.taken_pos size taken.pooled
        have fewer := taken.nodes_le
        refine ⟨⟨process', ptr :: state.live, ptr :: state.given⟩, layout',
          ?_, ⟨taken.pooled, taken.busy reached.busy, by omega, ?_⟩,
          leave_of_subset ?_⟩
        · rw [step, allocated]
          dsimp only
          rw [if_neg nonnull]
        · intro other member
          rcases List.mem_cons.mp member with rfl | member
          · exact List.mem_append_right _ List.mem_cons_self
          · exact taken.kept (reached.given member)
        · rcases taken.held with ⟨-, held⟩ | ⟨grant, -, -, held⟩
          · rw [held]
            exact List.Subset.refl _
          · rw [held]
            exact List.subset_cons_self _ _
  | free ptr =>
      obtain ⟨process', layout', freed, returned⟩ :=
        memPoolFreeWithBlock_returned size pooled reached.busy permitted
          (show nodes layout + 1 < fuel by omega)
      have fewer := returned.nodes_le
      have place := pooled.place size
        (List.mem_append_right layout.free permitted)
      refine ⟨⟨process', state.live.erase ptr,
        stillHeld process' state.given⟩, layout', ?_,
        ⟨returned.pooled, returned.busy, by omega, ?_⟩, ?_⟩
      · rw [step, freed]
        rfl
      · intro other member
        obtain ⟨member, stays⟩ := List.mem_filter.mp member
        have inUse := reached.given member
        have home := (pooled.place size inUse).1
        refine returned.kept other inUse ?_
        rcases returned.held with ⟨blocks_eq, -⟩ | ⟨blocks_eq, held⟩
        · rw [blocks_eq]
          exact home
        · rw [blocks_eq]
          have stays' := of_decide_eq_true stays
          rw [held] at stays'
          have different := of_decide_eq_true (List.mem_filter.mp stays').2
          exact (List.mem_erase_of_ne different).mpr home
      · rcases returned.held with ⟨-, held⟩ | ⟨blocks_eq, held⟩
        · apply leave_of_subset
          dsimp only
          rw [held]
          exact List.Subset.refl _
        · intro block inHeld gone
          dsimp only at gone
          rw [held] at gone
          have here : block = getBlockFromPtr ptr := by
            by_contra different
            exact gone (List.mem_filter.mpr
              ⟨inHeld, decide_eq_true different⟩)
          rw [blocks_eq, here]
          exact ⟨place.1, pooled.carved.nodup.not_mem_erase⟩
  | trim =>
      have trimmed := memPoolTrim_busy pooled reached.busy
        (show nodes layout + 1 < fuel by omega)
      refine ⟨⟨state.process, state.live,
        stillHeld state.process state.given⟩, layout, ?_,
        ⟨pooled, reached.busy, by omega, ?_⟩,
        leave_of_subset (List.Subset.refl _)⟩
      · rw [step, trimmed]
        rfl
      · intro other member
        exact reached.given (List.mem_of_mem_filter member)
  | write address bytes =>
      obtain ⟨ptr, member, lower, upper⟩ := permitted
      exact ⟨_, layout, rfl,
        ⟨write_pooled size pooled member lower upper, reached.busy, by omega,
          reached.given⟩, leave_of_subset (List.Subset.refl _)⟩

theorem run_reached {requests : List Request} (size : ChunkSize chunk)
    (reached : Reached chunk pool count state layout)
    (permitted : Throughout (step fuel pool) (Permitted chunk) state requests)
    (enough : count + requests.length < fuel) :
    ∃ last layout', run fuel pool state requests = some last ∧
      Reached chunk pool (count + requests.length) last layout' := by
  induction requests generalizing state layout count with
  | nil => exact ⟨state, layout, rfl, reached⟩
  | cons request rest induction =>
      rw [List.length_cons] at enough ⊢
      have room : count + 1 < fuel := by omega
      obtain ⟨next, layout', stepped, reached', -⟩ :=
        step_reached size reached permitted.1 room
      obtain ⟨last, layout'', finished, reached''⟩ :=
        induction reached' (permitted.2 next stepped) (by omega)
      refine ⟨last, layout'', ?_, ?_⟩
      · rw [run, List.foldlM_cons, stepped]
        exact finished
      · rw [Nat.add_comm rest.length, ← Nat.add_assoc]
        exact reached''

end Calls

/-! ## The state of a pool, read off its bytes -/

/-- What the bytes of a pool say, given the nodes of its two lists. -/
structure Described (chunk pool : Nat) (state : State)
    (blocks free : List Nat) : Prop where
  blockList : Linked (load 8 state.process.image) 0 (pool + 16) blocks
  freeList : Linked (load 8 state.process.image) 0 (pool + 8) free
  blocks_held : ∀ block ∈ blocks,
    ⟨block, poolBlockSize⟩ ∈ state.process.held
  live_disjoint : state.live.Pairwise
    (fun ptr ptr' => ptr + chunk ≤ ptr' ∨ ptr' + chunk ≤ ptr)
  live_inside : ∀ ptr ∈ state.live, ∃ block ∈ blocks,
    load 8 state.process.image (block + 32) ≤ ptr ∧
      ptr + chunk < block + poolBlockSize ∧ getBlockFromPtr ptr = block
  mask : ∀ block ∈ blocks,
    ∀ index < load 4 state.process.image (block + 16),
      getBlockFromPtr
        (load 8 state.process.image (block + 32) + index * chunk) = block
  free_nodup : free.Nodup
  free_not_live : ∀ ptr ∈ free, ptr ∉ state.live
  free_count : ∀ block ∈ blocks,
    load 4 state.process.image (block + 20) =
      (free.filter (fun ptr => getBlockFromPtr ptr = block)).length
  cursor : ∀ index < load 8 state.process.image (pool + 40),
    ∃ block ∈ blocks, load 8 state.process.image (pool + 24) = block ∧
      ∃ place < load 4 state.process.image (block + 16),
        load 8 state.process.image (pool + 32) + index * chunk =
          load 8 state.process.image (block + 32) + place * chunk ∧
        load 8 state.process.image (pool + 32) + index * chunk ∉
          state.given

/-- Nothing of the pool refers to a block. -/
structure Unreferenced (pool : Nat) (state : State) (blocks free : List Nat)
    (block : Nat) : Prop where
  live : ∀ ptr ∈ state.live, getBlockFromPtr ptr ≠ block
  free : ∀ ptr ∈ free, getBlockFromPtr ptr ≠ block
  current : load 8 state.process.image (pool + 24) ≠ block
  next : getBlockFromPtr (load 8 state.process.image (pool + 32)) ≠ block
  head : load 8 state.process.image (pool + 16) ≠ block
  links : ∀ other ∈ blocks, other ≠ block ∧
    load 8 state.process.image other ≠ block

section Reading

variable {count block : Nat} {state : State}

theorem Reached.described (size : ChunkSize chunk)
    (reached : Reached chunk pool count state layout) :
    Described chunk pool state layout.blocks layout.free := by
  have pooled := reached.pooled
  have carved := pooled.carved
  have represents := pooled.represents
  have parts := List.nodup_append.mp carved.taken_nodup
  exact {
    blockList := represents.blocks
    freeList := represents.freeList
    blocks_held := pooled.blocksHeld
    live_disjoint := by
      apply List.Nodup.pairwise_of_forall_ne parts.2.1
      intro ptr member ptr' member' different
      exact ((carved.taken_iff ptr).mp
        (List.mem_append_right _ member)).apart size carved
          ((carved.taken_iff ptr').mp (List.mem_append_right _ member'))
            different
    live_inside := by
      intro ptr member
      have place := pooled.place size
        (List.mem_append_right layout.free member)
      refine ⟨_, place.1, ?_, place.2.2.2.1, rfl⟩
      rw [(represents.header _ place.1).data]
      exact place.2.2.1
    mask := by
      intro block member index inside
      have header := represents.header block member
      rw [header.capacity] at inside
      rw [header.data]
      exact size.block_chunkAt (carved.aligned block member) inside.le
    free_nodup := parts.1
    free_not_live := by
      intro ptr inFree inLive
      exact parts.2.2 ptr inFree ptr inLive rfl
    free_count := fun block member =>
      (represents.header block member).freeCount
    cursor := by
      intro index inside
      rw [represents.remaining] at inside
      have current : layout.current ∈ layout.blocks := by
        rcases carved.cursor with ⟨-, none⟩ | member
        · omega
        · exact member
      have nonnull := (carved.positive _ current).ne'
      have header := represents.header _ current
      have atMost := carved.remaining_le
      have next : load 8 state.process.image (pool + 32) + index * chunk =
          chunkAt chunk layout.current
            (blockCapacity chunk - layout.remaining + index) := by
        rw [represents.nextFree, Layout.nextFree, if_neg nonnull, chunkAt,
          chunkAt, Nat.add_mul, Nat.add_assoc]
      refine ⟨_, current, represents.currentBlock,
        blockCapacity chunk - layout.remaining + index, ?_, ?_, ?_⟩
      · rw [header.capacity]
        omega
      · rw [next, header.data]
        rfl
      · rw [next]
        intro given
        obtain ⟨other, member, place, below, same⟩ :=
          (carved.taken_iff _).mp (reached.given given)
        have atMost' := below.le.trans (layout.bumped_le chunk other)
        have home : layout.current = other := by
          rw [← size.block_chunkAt (carved.aligned _ member) atMost', ← same,
            size.block_chunkAt (carved.aligned _ current) (by omega)]
        subst home
        rw [Layout.bumped, if_pos rfl,
          ← size.chunkAt_injective same] at below
        omega }

/-- A block that is not in the layout is not referred to. -/
theorem Reached.unreferenced (size : ChunkSize chunk)
    (reached : Reached chunk pool count state layout) (nonnull : block ≠ 0)
    (absent : block ∉ layout.blocks) :
    Unreferenced pool state layout.blocks layout.free block := by
  have pooled := reached.pooled
  have carved := pooled.carved
  have represents := pooled.represents
  have current : layout.current ≠ block := by
    rcases carved.cursor with ⟨none, -⟩ | member
    · rw [none]
      exact nonnull.symm
    · exact fun same => absent (same ▸ member)
  have links : ∀ nodes start, Linked (load 8 state.process.image) 0 start
      nodes → nodes ⊆ layout.blocks → ∀ cell ∈ start :: nodes,
        load 8 state.process.image cell ≠ block := by
    intro nodes
    induction nodes with
    | nil =>
        intro start linked _ cell member
        rw [List.mem_singleton.mp member, linked.1]
        exact nonnull.symm
    | cons node rest induction =>
        intro start linked subset cell member
        rcases List.mem_cons.mp member with rfl | member
        · rw [linked.1]
          exact fun same => absent (same ▸ subset List.mem_cons_self)
        · exact induction node linked.2
            (fun other inRest => subset (List.mem_cons_of_mem _ inRest)) cell
              member
  have blockLinks := links _ _ represents.blocks (List.Subset.refl _)
  exact {
    live := by
      intro ptr member same
      have place := pooled.place size
        (List.mem_append_right layout.free member)
      rw [same] at place
      exact absent place.1
    free := by
      intro ptr member same
      have place := pooled.place size
        (List.mem_append_left state.live member)
      rw [same] at place
      exact absent place.1
    current := by
      rw [represents.currentBlock]
      exact current
    next := by
      rw [represents.nextFree, Layout.nextFree]
      split_ifs with none
      · exact nonnull.symm
      · have member : layout.current ∈ layout.blocks :=
          carved.cursor.resolve_left (fun empty => none empty.1)
        rw [size.block_chunkAt (carved.aligned _ member) (Nat.sub_le _ _)]
        exact current
    head := blockLinks _ List.mem_cons_self
    links := fun other member =>
      ⟨fun same => absent (same ▸ member),
        blockLinks other (List.mem_cons_of_mem _ member)⟩ }

end Reading

/-! ## Every sequence of calls -/

/-- The lists of a pool and its blocks before and after a call: both states are
described, and a block that the call gave back has no live chunk and is
referred to by nothing. -/
def SafeCall (chunk pool : Nat) (before after : State) : Prop :=
  ∃ blocks free blocks' free',
    Described chunk pool before blocks free ∧
      Described chunk pool after blocks' free' ∧
        ∀ block, ⟨block, poolBlockSize⟩ ∈ before.process.held →
          ⟨block, poolBlockSize⟩ ∉ after.process.held →
            Unreferenced pool after blocks' free' block

/-- A slab pool stays sound through every sequence of calls. -/
theorem slabPool_safe {grant : Grant} (slab : chunk ∈ slabClasses)
    (sound : process.Sound) (fresh : Fresh process grant memPoolStruct)
    (requests : List Request) (request : Request)
    (permitted : Throughout (step fuel grant.base) (Permitted chunk)
      (created chunk grant process) (requests ++ [request]))
    (enough : requests.length + 1 < fuel) :
    ∃ before after,
      run fuel grant.base (created chunk grant process) requests =
        some before ∧
        step fuel grant.base before request = some after ∧
          SafeCall chunk grant.base before after := by
  have size := chunkSize_slab slab
  have start := created_reached slab sound fresh
  obtain ⟨before, layout, finished, reached⟩ :=
    run_reached size start permitted.front (by omega)
  have lastPermitted := permitted.back finished
  obtain ⟨after, layout', stepped, reached', leave⟩ :=
    step_reached size reached lastPermitted.1
      (show 0 + requests.length + 1 < fuel by omega)
  refine ⟨before, after, finished, stepped, layout.blocks, layout.free,
    layout'.blocks, layout'.free, reached.described size,
    reached'.described size, ?_⟩
  intro block held gone
  obtain ⟨member, absent⟩ := leave block held gone
  exact reached'.unreferenced size
    (reached.pooled.carved.positive _ member).ne' absent

/-- A process that holds nothing. -/
def idle : Process where
  image _ := 0
  held := []

/-- The seven chunks of a block and one of the next block are taken, one is
written, one is given back and taken again, and then all chunks of the first
block but one are given back. -/
def twoBlocks : List Request :=
  .alloc (some ⟨65536, fun _ => 0⟩) :: List.replicate 6 (.alloc none) ++
    [.alloc (some ⟨131072, fun _ => 0⟩), .write 65580 [1, 2, 3], .free 73768,
      .alloc none] ++
    [65576, 81960, 98344, 73768, 114728, 106536].map Request.free

/-- A pool of the largest class: with its last chunk the first block goes back
to the system. -/
theorem slabPool_safe_twoBlocks :
    ∃ before after,
      run 19 4096 (created 8192 ⟨4096, fun _ => 0⟩ idle) twoBlocks =
          some before ∧
        step 19 4096 before (.free 90152) = some after ∧
          SafeCall 8192 4096 before after ∧
          before.live = [131112, 90152] ∧
          after.process.held =
            [⟨131072, poolBlockSize⟩, ⟨4096, memPoolStruct⟩] := by
  have permitted : Throughout (step 19 4096) (Permitted 8192)
      (created 8192 ⟨4096, fun _ => 0⟩ idle) (twoBlocks ++ [.free 90152]) := by
    decide +kernel
  have left : (run 19 4096 (created 8192 ⟨4096, fun _ => 0⟩ idle)
      twoBlocks).map State.live = some [131112, 90152] := by
    decide +kernel
  have held : ((run 19 4096 (created 8192 ⟨4096, fun _ => 0⟩ idle)
      twoBlocks).bind (fun before => step 19 4096 before (.free 90152))).map
        (fun after => after.process.held) =
      some [⟨131072, poolBlockSize⟩, ⟨4096, memPoolStruct⟩] := by
    decide +kernel
  have sound : idle.Sound := List.Pairwise.nil
  obtain ⟨before, after, ran, stepped, safe⟩ :=
    slabPool_safe (by decide) sound
      (⟨by decide, by decide, by simp [idle]⟩ :
        Fresh idle ⟨4096, fun _ => 0⟩ memPoolStruct)
      twoBlocks (.free 90152) permitted (by decide)
  rw [ran] at left held
  rw [Option.bind_some, stepped] at held
  exact ⟨before, after, ran, stepped, safe, Option.some.inj left,
    Option.some.inj held⟩

end Kivo.MemPool.SlabRuns
