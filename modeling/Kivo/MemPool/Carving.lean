import Kivo.MemPool.Slab

/-!
# How a pool carves its blocks

The abstract side of a slab pool: which blocks it has, which chunks are on the
free list, and where the current block is cut next.  Every chunk that was ever
cut from a block the pool still has is either free or live, and never both.
-/

namespace Kivo.MemPool.Carving

open Kivo.MemPool.Slab

/-! ## Chunks of a block -/

/-- `capacity` of a block of chunks of a size. -/
def blockCapacity (chunk : Nat) : Nat :=
  (poolBlockSize - poolBlockHeader) / chunk

/-- A chunk of a block. -/
def chunkAt (chunk block index : Nat) : Nat :=
  block + poolBlockHeader + index * chunk

/-- What the pool relies on: a free chunk holds a link, a block holds a chunk,
and the last chunk does not end with the block. -/
structure ChunkSize (chunk : Nat) : Prop where
  holdsLink : 16 ≤ chunk
  even : chunk % 8 = 0
  atMost : chunk ≤ maxSlabSize
  spare : poolBlockHeader + blockCapacity chunk * chunk < poolBlockSize

theorem chunkSize_slab {chunk : Nat} (slab : chunk ∈ slabClasses) :
    ChunkSize chunk := by
  have all : ∀ size ∈ slabClasses, 16 ≤ size ∧ size % 8 = 0 ∧
      size ≤ maxSlabSize ∧
        poolBlockHeader + blockCapacity size * size < poolBlockSize := by
    decide
  obtain ⟨holdsLink, even, atMost, spare⟩ := all chunk slab
  exact ⟨holdsLink, even, atMost, spare⟩

variable {chunk block other index index' : Nat}

theorem ChunkSize.capacity_pos (size : ChunkSize chunk) :
    0 < blockCapacity chunk := by
  have positive := size.holdsLink
  have atMost := size.atMost
  apply Nat.div_pos
  · rw [poolBlockSize, poolBlockHeader]
    rw [maxSlabSize] at atMost
    omega
  · omega

theorem blockCapacity_le (chunk : Nat) : blockCapacity chunk ≤ 65496 :=
  Nat.div_le_self _ _

/-- A chunk lies behind the header and ends in front of the next block. -/
theorem ChunkSize.chunkAt_bounds (size : ChunkSize chunk)
    (inside : index < blockCapacity chunk) :
    block + 40 ≤ chunkAt chunk block index ∧
      chunkAt chunk block index + chunk < block + 65536 := by
  have spare := size.spare
  have below : (index + 1) * chunk ≤ blockCapacity chunk * chunk :=
    Nat.mul_le_mul_right chunk inside
  rw [Nat.add_mul, Nat.one_mul] at below
  rw [poolBlockHeader, poolBlockSize] at spare
  rw [chunkAt, poolBlockHeader]
  omega

/-- The cursor stays inside its block, also behind the last chunk. -/
theorem ChunkSize.cursor_bounds (size : ChunkSize chunk)
    (inside : index ≤ blockCapacity chunk) :
    block + 40 ≤ chunkAt chunk block index ∧
      chunkAt chunk block index < block + 65536 := by
  have spare := size.spare
  have below : index * chunk ≤ blockCapacity chunk * chunk :=
    Nat.mul_le_mul_right chunk inside
  rw [poolBlockHeader, poolBlockSize] at spare
  rw [chunkAt, poolBlockHeader]
  omega

/-- The address mask finds the block of everything that lies in it. -/
theorem getBlockFromPtr_eq {ptr : Nat} (aligned : block % 65536 = 0)
    (lower : block ≤ ptr) (upper : ptr < block + 65536) :
    getBlockFromPtr ptr = block := by
  rw [getBlockFromPtr, poolBlockSize]
  omega

theorem ChunkSize.block_chunkAt (size : ChunkSize chunk)
    (aligned : block % 65536 = 0) (inside : index ≤ blockCapacity chunk) :
    getBlockFromPtr (chunkAt chunk block index) = block := by
  obtain ⟨lower, upper⟩ := @ChunkSize.cursor_bounds chunk block index size inside
  exact getBlockFromPtr_eq aligned (by omega) upper

theorem chunkAt_apart (different : index ≠ index') :
    chunkAt chunk block index + chunk ≤ chunkAt chunk block index' ∨
      chunkAt chunk block index' + chunk ≤ chunkAt chunk block index := by
  rw [chunkAt, chunkAt]
  rcases Nat.lt_or_gt_of_ne different with before | behind
  · have below : (index + 1) * chunk ≤ index' * chunk :=
      Nat.mul_le_mul_right chunk before
    rw [Nat.add_mul, Nat.one_mul] at below
    omega
  · have below : (index' + 1) * chunk ≤ index * chunk :=
      Nat.mul_le_mul_right chunk behind
    rw [Nat.add_mul, Nat.one_mul] at below
    omega

theorem ChunkSize.chunkAt_injective (size : ChunkSize chunk)
    (same : chunkAt chunk block index = chunkAt chunk block index') :
    index = index' := by
  have positive := size.holdsLink
  by_contra different
  have apart := @chunkAt_apart chunk block index index' different
  omega

/-! ## The state of a pool -/

/-- The blocks of a pool, its free list, and its cursor. -/
structure Layout where
  blocks : List Nat
  free : List Nat
  current : Nat
  remaining : Nat

namespace Layout

/-- How many chunks have been cut from a block. -/
def bumped (chunk : Nat) (layout : Layout) (block : Nat) : Nat :=
  if block = layout.current then blockCapacity chunk - layout.remaining
  else blockCapacity chunk

/-- The address at which the current block is cut next. -/
def nextFree (chunk : Nat) (layout : Layout) : Nat :=
  if layout.current = 0 then 0
  else chunkAt chunk layout.current (blockCapacity chunk - layout.remaining)

/-- How many chunks of a block are on the free list. -/
def freeIn (layout : Layout) (block : Nat) : Nat :=
  (layout.free.filter (fun ptr => getBlockFromPtr ptr = block)).length

/-- The pool without blocks. -/
def empty : Layout where
  blocks := []
  free := []
  current := 0
  remaining := 0

/-- A new block becomes the current one. -/
def opened (chunk : Nat) (layout : Layout) (block : Nat) : Layout where
  blocks := block :: layout.blocks
  free := layout.free
  current := block
  remaining := blockCapacity chunk

/-- One chunk less to cut. -/
def cut (layout : Layout) : Layout :=
  { layout with remaining := layout.remaining - 1 }

/-- The free list loses its head. -/
def popped (layout : Layout) : Layout :=
  { layout with free := layout.free.tail }

/-- A chunk is put in front of the free list. -/
def pushed (layout : Layout) (ptr : Nat) : Layout :=
  { layout with free := ptr :: layout.free }

/-- A block is given back to the system. -/
def released (layout : Layout) (block : Nat) : Layout where
  blocks := layout.blocks.erase block
  free := layout.free.filter (fun ptr => getBlockFromPtr ptr ≠ block)
  current := if layout.current = block then 0 else layout.current
  remaining := if layout.current = block then 0 else layout.remaining

end Layout

/-- A chunk has been cut from one of the pool's blocks. -/
def IsCut (chunk : Nat) (layout : Layout) (ptr : Nat) : Prop :=
  ∃ block ∈ layout.blocks, ∃ index < layout.bumped chunk block,
    ptr = chunkAt chunk block index

/-- Every chunk cut so far is free or live, and no chunk is so twice. -/
structure Carved (chunk : Nat) (live : List Nat) (layout : Layout) :
    Prop where
  aligned : ∀ block ∈ layout.blocks, block % 65536 = 0
  positive : ∀ block ∈ layout.blocks, 0 < block
  bounded : ∀ block ∈ layout.blocks, block + 65536 ≤ 2 ^ 64
  nodup : layout.blocks.Nodup
  taken_nodup : (layout.free ++ live).Nodup
  taken_iff : ∀ ptr, ptr ∈ layout.free ++ live ↔ IsCut chunk layout ptr
  cursor : layout.current = 0 ∧ layout.remaining = 0 ∨
    layout.current ∈ layout.blocks
  remaining_le : layout.remaining ≤ blockCapacity chunk

/-- No block is entirely free. -/
def Busy (chunk : Nat) (layout : Layout) : Prop :=
  ∀ block ∈ layout.blocks, layout.freeIn block < blockCapacity chunk

/-! ## Where the chunks lie -/

section Places

variable {live : List Nat} {layout : Layout} {ptr ptr' : Nat}

theorem Layout.bumped_le (chunk : Nat) (layout : Layout) (block : Nat) :
    layout.bumped chunk block ≤ blockCapacity chunk := by
  rw [Layout.bumped]
  split_ifs
  · exact Nat.sub_le _ _
  · exact le_rfl

/-- A chunk lies in the data area of the block that the mask finds. -/
theorem IsCut.place (size : ChunkSize chunk) (carved : Carved chunk live layout)
    (cut : IsCut chunk layout ptr) :
    getBlockFromPtr ptr ∈ layout.blocks ∧
      getBlockFromPtr ptr + 40 ≤ ptr ∧
        ptr + chunk < getBlockFromPtr ptr + 65536 := by
  obtain ⟨block, member, index, inside, rfl⟩ := cut
  have below := inside.trans_le (layout.bumped_le chunk block)
  rw [size.block_chunkAt (carved.aligned block member) below.le]
  exact ⟨member, size.chunkAt_bounds below⟩

/-- Two different chunks do not overlap. -/
theorem IsCut.apart (size : ChunkSize chunk) (carved : Carved chunk live layout)
    (cut : IsCut chunk layout ptr) (cut' : IsCut chunk layout ptr')
    (different : ptr ≠ ptr') :
    ptr + chunk ≤ ptr' ∨ ptr' + chunk ≤ ptr := by
  have place := cut.place size carved
  have place' := cut'.place size carved
  have aligned := carved.aligned _ place.1
  have aligned' := carved.aligned _ place'.1
  by_cases same : getBlockFromPtr ptr = getBlockFromPtr ptr'
  · obtain ⟨block, member, index, inside, rfl⟩ := cut
    obtain ⟨block', member', index', inside', rfl⟩ := cut'
    rw [size.block_chunkAt (carved.aligned _ member)
        (inside.le.trans (layout.bumped_le chunk _)),
      size.block_chunkAt (carved.aligned _ member')
        (inside'.le.trans (layout.bumped_le chunk _))] at same
    subst same
    exact chunkAt_apart (fun indices => different (by rw [indices]))
  · omega

theorem Carved.freeIn_le (size : ChunkSize chunk)
    (carved : Carved chunk live layout) (block : Nat) :
    layout.freeIn block ≤ blockCapacity chunk := by
  have nodup : (layout.free.filter
      (fun ptr => getBlockFromPtr ptr = block)).Nodup :=
    (List.nodup_append.mp carved.taken_nodup).1.filter _
  have cuts : ∀ free ∈ layout.free.filter
      (fun ptr => getBlockFromPtr ptr = block),
      free ∈ (List.range (blockCapacity chunk)).map (chunkAt chunk block) := by
    intro free inFree
    obtain ⟨inFree, ofBlock⟩ := List.mem_filter.mp inFree
    obtain ⟨block', member, index, inside, rfl⟩ :=
      (carved.taken_iff free).mp (List.mem_append_left _ inFree)
    have below := inside.trans_le (layout.bumped_le chunk block')
    have found := of_decide_eq_true ofBlock
    rw [size.block_chunkAt (carved.aligned _ member) below.le] at found
    rw [← found]
    exact List.mem_map_of_mem (List.mem_range.mpr below)
  have few := (List.subperm_of_subset nodup cuts).length_le
  rwa [List.length_map, List.length_range] at few

end Places

/-! ## What the operations keep -/

section Steps

variable {live rest : List Nat} {layout : Layout} {ptr : Nat}

theorem carved_empty (chunk : Nat) : Carved chunk [] Layout.empty where
  aligned := by simp [Layout.empty]
  positive := by simp [Layout.empty]
  bounded := by simp [Layout.empty]
  nodup := List.nodup_nil
  taken_nodup := List.nodup_nil
  taken_iff := by simp [Layout.empty, IsCut]
  cursor := Or.inl ⟨rfl, rfl⟩
  remaining_le := Nat.zero_le _

/-- The set of chunks in use matters, not how it is divided. -/
theorem Carved.divide {live' free' : List Nat}
    (carved : Carved chunk live layout)
    (same : (free' ++ live').Perm (layout.free ++ live)) :
    Carved chunk live' { layout with free := free' } where
  aligned := carved.aligned
  positive := carved.positive
  bounded := carved.bounded
  nodup := carved.nodup
  taken_nodup := same.nodup_iff.mpr carved.taken_nodup
  taken_iff ptr := same.mem_iff.trans (carved.taken_iff ptr)
  cursor := carved.cursor
  remaining_le := carved.remaining_le

theorem Carved.popped (carved : Carved chunk live layout)
    (head : layout.free = ptr :: rest) :
    Carved chunk (ptr :: live) layout.popped := by
  apply carved.divide
  rw [head, List.tail_cons]
  exact List.perm_middle

theorem Carved.pushed (carved : Carved chunk live layout)
    (member : ptr ∈ live) :
    Carved chunk (live.erase ptr) (layout.pushed ptr) := by
  apply carved.divide
  rw [List.cons_append]
  exact List.perm_middle.symm.trans
    ((List.perm_cons_erase member).symm.append_left layout.free)

theorem Layout.freeIn_popped (head : layout.free = ptr :: rest)
    (block : Nat) :
    layout.freeIn block = layout.popped.freeIn block +
      if getBlockFromPtr ptr = block then 1 else 0 := by
  rw [Layout.freeIn, Layout.freeIn, Layout.popped, head, List.tail_cons]
  by_cases here : getBlockFromPtr ptr = block
  · rw [List.filter_cons_of_pos (by simpa using here), List.length_cons,
      if_pos here]
  · rw [List.filter_cons_of_neg (by simpa using here), if_neg here,
      Nat.add_zero]

theorem Layout.freeIn_pushed (layout : Layout) (ptr block : Nat) :
    (layout.pushed ptr).freeIn block = layout.freeIn block +
      if getBlockFromPtr ptr = block then 1 else 0 :=
  @Layout.freeIn_popped layout.free (layout.pushed ptr) ptr rfl block

/-- A block whose chunks are all free has no live chunk. -/
theorem Carved.full_free (size : ChunkSize chunk)
    (carved : Carved chunk live layout)
    (full : layout.freeIn block = blockCapacity chunk)
    (member : ptr ∈ live) : getBlockFromPtr ptr ≠ block := by
  intro inBlock
  have few := (carved.pushed member).freeIn_le size block
  rw [Layout.freeIn_pushed, if_pos inBlock] at few
  omega

theorem Layout.bumped_cut (left : 0 < layout.remaining)
    (atMost : layout.remaining ≤ blockCapacity chunk) (block : Nat) :
    layout.cut.bumped chunk block =
      if block = layout.current then layout.bumped chunk block + 1
      else layout.bumped chunk block := by
  rw [Layout.bumped, Layout.bumped]
  by_cases ofCurrent : block = layout.current
  · have ofCut : block = layout.cut.current := ofCurrent
    rw [if_pos ofCut, if_pos ofCurrent, if_pos ofCurrent, Layout.cut]
    dsimp only
    omega
  · have ofCut : ¬ block = layout.cut.current := ofCurrent
    rw [if_neg ofCut, if_neg ofCurrent, if_neg ofCurrent]

/-- The chunk at the cursor was not in use. -/
theorem Carved.cut (size : ChunkSize chunk) (carved : Carved chunk live layout)
    (left : 0 < layout.remaining) :
    Carved chunk (layout.nextFree chunk :: live) layout.cut := by
  have current : layout.current ∈ layout.blocks := by
    rcases carved.cursor with ⟨-, none⟩ | member
    · omega
    · exact member
  have nonnull := (carved.positive _ current).ne'
  have atMost := carved.remaining_le
  have next : layout.nextFree chunk = chunkAt chunk layout.current
      (layout.bumped chunk layout.current) := by
    rw [Layout.nextFree, if_neg nonnull, Layout.bumped, if_pos rfl]
  have grown : ∀ ptr, IsCut chunk layout.cut ptr ↔
      IsCut chunk layout ptr ∨ ptr = layout.nextFree chunk := by
    intro ptr
    constructor
    · rintro ⟨block, member, index, inside, rfl⟩
      rw [Layout.bumped_cut left atMost] at inside
      split_ifs at inside with ofCurrent
      · rcases Nat.lt_succ_iff_lt_or_eq.mp inside with before | rfl
        · exact Or.inl ⟨block, member, index, before, rfl⟩
        · rw [next, ofCurrent]
          exact Or.inr rfl
      · exact Or.inl ⟨block, member, index, inside, rfl⟩
    · rintro (⟨block, member, index, inside, rfl⟩ | rfl)
      · refine ⟨block, member, index, ?_, rfl⟩
        rw [Layout.bumped_cut left atMost]
        split_ifs
        · exact inside.trans (Nat.lt_succ_self _)
        · exact inside
      · refine ⟨layout.current, current, _, ?_, next⟩
        rw [Layout.bumped_cut left atMost, if_pos rfl]
        exact Nat.lt_succ_self _
  have new : ¬ IsCut chunk layout (layout.nextFree chunk) := by
    rintro ⟨block, member, index, inside, same⟩
    have below := inside.trans_le (layout.bumped_le chunk block)
    have sameBlock : layout.current = block := by
      rw [← size.block_chunkAt (carved.aligned _ member) below.le, ← same,
        next, size.block_chunkAt (carved.aligned _ current)
          (layout.bumped_le chunk _)]
    subst sameBlock
    rw [next] at same
    have indices := size.chunkAt_injective same
    omega
  have perm : (layout.free ++ layout.nextFree chunk :: live).Perm
      (layout.nextFree chunk :: (layout.free ++ live)) := List.perm_middle
  exact {
    aligned := carved.aligned
    positive := carved.positive
    bounded := carved.bounded
    nodup := carved.nodup
    taken_nodup := perm.nodup_iff.mpr (List.nodup_cons.mpr
      ⟨fun taken => new ((carved.taken_iff _).mp taken), carved.taken_nodup⟩)
    taken_iff := by
      intro ptr
      rw [grown, ← carved.taken_iff]
      exact perm.mem_iff.trans (List.mem_cons.trans or_comm)
    cursor := Or.inr current
    remaining_le := (Nat.sub_le _ _).trans atMost }

/-- A block that is opened has no chunk yet. -/
theorem Carved.opened (carved : Carved chunk live layout)
    (exhausted : layout.remaining = 0) (aligned : block % 65536 = 0)
    (positive : 0 < block) (bounded : block + 65536 ≤ 2 ^ 64)
    (fresh : block ∉ layout.blocks) :
    Carved chunk live (layout.opened chunk block) where
  aligned := List.forall_mem_cons.mpr ⟨aligned, carved.aligned⟩
  positive := List.forall_mem_cons.mpr ⟨positive, carved.positive⟩
  bounded := List.forall_mem_cons.mpr ⟨bounded, carved.bounded⟩
  nodup := List.nodup_cons.mpr ⟨fresh, carved.nodup⟩
  taken_nodup := carved.taken_nodup
  taken_iff := by
    intro ptr
    have all : ∀ block, layout.bumped chunk block = blockCapacity chunk := by
      intro block
      rw [Layout.bumped, exhausted, Nat.sub_zero, ite_self]
    refine (carved.taken_iff ptr).trans ⟨?_, ?_⟩
    · rintro ⟨block', member, index, inside, rfl⟩
      have different : block' ≠ block := fun same => fresh (same ▸ member)
      rw [all] at inside
      exact ⟨block', List.mem_cons_of_mem _ member, index,
        inside.trans_eq (if_neg different).symm, rfl⟩
    · rintro ⟨block', member, index, inside, rfl⟩
      have inside' : index < if block' = block then
          blockCapacity chunk - blockCapacity chunk
        else blockCapacity chunk := inside
      split_ifs at inside' with isNew
      · omega
      · refine ⟨block', (List.mem_cons.mp member).resolve_left isNew, index,
          ?_, rfl⟩
        rw [all]
        exact inside'
  cursor := Or.inr List.mem_cons_self
  remaining_le := le_rfl

/-- A block whose chunks are all free can go. -/
theorem Carved.released (size : ChunkSize chunk)
    (carved : Carved chunk live layout)
    (full : layout.freeIn block = blockCapacity chunk) :
    Carved chunk live (layout.released block) where
  aligned other member :=
    carved.aligned other (List.mem_of_mem_erase member)
  positive other member :=
    carved.positive other (List.mem_of_mem_erase member)
  bounded other member :=
    carved.bounded other (List.mem_of_mem_erase member)
  nodup := carved.nodup.erase block
  taken_nodup :=
    carved.taken_nodup.sublist (List.filter_sublist.append_right live)
  taken_iff := by
    have untouched : ∀ other, other ≠ block → other ∈ layout.blocks →
        (layout.released block).bumped chunk other =
          layout.bumped chunk other := by
      intro other different member
      have nonnull := (carved.positive other member).ne'
      rw [Layout.bumped, Layout.bumped, Layout.released]
      dsimp only
      by_cases current : layout.current = block
      · rw [if_pos current, if_neg nonnull,
          if_neg (fun same => different (same.trans current))]
      · rw [if_neg current, if_neg current]
    have outside : ∀ ptr, ptr ∈ (layout.released block).free ++ live ↔
        ptr ∈ layout.free ++ live ∧ getBlockFromPtr ptr ≠ block := by
      intro ptr
      rw [Layout.released, List.mem_append, List.mem_append,
        List.mem_filter, or_and_right, decide_eq_true_iff]
      refine or_congr_right ⟨?_, And.left⟩
      intro member
      exact ⟨member, carved.full_free size full member⟩
    intro ptr
    rw [outside, carved.taken_iff]
    constructor
    · rintro ⟨⟨other, member, index, inside, rfl⟩, elsewhere⟩
      have below := inside.trans_le (layout.bumped_le chunk other)
      rw [size.block_chunkAt (carved.aligned _ member) below.le] at elsewhere
      exact ⟨other, (List.mem_erase_of_ne elsewhere).mpr member, index,
        by rwa [untouched other elsewhere member], rfl⟩
    · rintro ⟨other, member, index, inside, rfl⟩
      obtain ⟨different, member⟩ := carved.nodup.mem_erase_iff.mp member
      rw [untouched other different member] at inside
      have below := inside.trans_le (layout.bumped_le chunk other)
      refine ⟨⟨other, member, index, inside, rfl⟩, ?_⟩
      rwa [size.block_chunkAt (carved.aligned _ member) below.le]
  cursor := by
    by_cases current : layout.current = block
    · exact Or.inl ⟨if_pos current, if_pos current⟩
    · rw [Layout.released]
      dsimp only
      rw [if_neg current, if_neg current]
      rcases carved.cursor with none | member
      · exact Or.inl none
      · exact Or.inr ((List.mem_erase_of_ne current).mpr member)
  remaining_le := by
    rw [Layout.released]
    dsimp only
    split_ifs
    · exact Nat.zero_le _
    · exact carved.remaining_le

end Steps

/-! ## Free chunks of each block -/

section Counts

variable {layout : Layout}

theorem Layout.freeIn_released (different : other ≠ block) :
    (layout.released block).freeIn other = layout.freeIn other := by
  rw [Layout.freeIn, Layout.freeIn, Layout.released, List.filter_filter]
  congr 1
  apply List.filter_congr
  intro ptr _
  by_cases here : getBlockFromPtr ptr = other
  · simp [here, different]
  · simp [here]

/-- A block that the pool does not have has no free chunk. -/
theorem Carved.freeIn_absent {live : List Nat} (size : ChunkSize chunk)
    (carved : Carved chunk live layout) (absent : block ∉ layout.blocks) :
    layout.freeIn block = 0 := by
  rw [Layout.freeIn, List.length_eq_zero_iff, List.filter_eq_nil_iff]
  intro ptr member inBlock
  have cut := (carved.taken_iff ptr).mp (List.mem_append_left _ member)
  have place := cut.place size carved
  rw [of_decide_eq_true inBlock] at place
  exact absent place.1

end Counts

end Kivo.MemPool.Carving
