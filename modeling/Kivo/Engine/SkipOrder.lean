import Kivo.Clib.SortedList
import Kivo.Engine.SkipEngine

/-!
# The skip list represents a sorted list

The representation invariant of the skip list: there is a list of addresses,
strictly increasing in their keys, such that the list of every level links
exactly those of them that reach the level.  Search, insertion and deletion
are traced through the levels; above them every operation is an operation on
the sorted list of entries, whatever levels were drawn.
-/

namespace Kivo.Engine.SkipOrder

open Kivo.Clib.Memory
open Kivo.Clib.Chain
open Kivo.Clib.SortedList
open Kivo.Engine.Data
open Kivo.Engine.SkipEngine

/-! ## The invariant -/

/-- The key of the node at an address. -/
def keyAt (skip : KvsSkip) (address : Nat) : Bytes :=
  (skip.nodes address).entry.key

/-- The addresses of a list that reach a level. -/
def onLevel (skip : KvsSkip) (order : List Nat) (level : Nat) : List Nat :=
  order.filter (fun address => decide (level ≤ (skip.nodes address).level))

/-- The skip list links the addresses of `order`. -/
structure SkipOk (skip : KvsSkip) (order : List Nat) : Prop where
  linked : ∀ level, level ≤ maxLevel →
    Linked (skip.forwardAt level) null header (onLevel skip order level)
  sorted : Sorted kvDataCompare (keyAt skip) order
  bounded : ∀ address ∈ order, (skip.nodes address).level ≤ skip.level
  top : skip.level ≤ maxLevel
  live : ∀ address ∈ order, header < address ∧ address < skip.next
  count : skip.count = toInt32 order.length
  heap : header < skip.next

/-- A skip list in a consistent state. -/
def SkipValid (skip : KvsSkip) : Prop :=
  ∃ order, SkipOk skip order

theorem skipOk_create : SkipOk kvsSkipCreate [] := by
  refine ⟨?_, List.Pairwise.nil, by simp, by decide, by simp, rfl, by decide⟩
  intro level _
  exact ⟨rfl, trivial⟩

theorem onLevel_append (skip : KvsSkip) (first second : List Nat)
    (level : Nat) :
    onLevel skip (first ++ second) level =
      onLevel skip first level ++ onLevel skip second level :=
  List.filter_append ..

theorem onLevel_zero (skip : KvsSkip) (order : List Nat) :
    onLevel skip order 0 = order := by
  simp [onLevel]

theorem mem_of_mem_onLevel {skip : KvsSkip} {order : List Nat}
    {level address : Nat} (member : address ∈ onLevel skip order level) :
    address ∈ order :=
  (List.mem_filter.mp member).1

theorem SkipOk.nodup {skip : KvsSkip} {order : List Nat}
    (ok : SkipOk skip order) :
    (header :: order).Nodup := by
  refine List.nodup_cons.mpr ⟨?_, ?_⟩
  · intro member
    exact lt_irrefl _ (ok.live header member).1
  · refine ok.sorted.imp ?_
    rintro first _ below rfl
    exact kvDataCompare_lt_irrefl _ below

theorem SkipOk.nodup_onLevel {skip : KvsSkip} {order : List Nat}
    (ok : SkipOk skip order) (level : Nat) :
    (header :: onLevel skip order level).Nodup := by
  obtain ⟨outside, nodup⟩ := List.nodup_cons.mp ok.nodup
  exact List.nodup_cons.mpr
    ⟨fun member => outside (mem_of_mem_onLevel member), nodup.filter _⟩

theorem SkipOk.null_notMem {skip : KvsSkip} {order : List Nat}
    (ok : SkipOk skip order) :
    null ∉ order := by
  intro member
  exact absurd (ok.live null member).1 (by decide)

theorem SkipOk.length_lt {skip : KvsSkip} {order : List Nat}
    (ok : SkipOk skip order) :
    order.length < skip.next := by
  apply length_lt_of_nodup (List.nodup_cons.mp ok.nodup).2 ok.null_notMem
  · intro address member
    exact (ok.live address member).2
  · exact lt_of_le_of_lt (Nat.zero_le _) ok.heap

/-- The addresses are found by walking along level zero. -/
theorem SkipOk.addresses_eq {skip : KvsSkip} {order : List Nat}
    (ok : SkipOk skip order) :
    skip.addresses = order := by
  have linked := ok.linked 0 (Nat.zero_le _)
  rw [onLevel_zero] at linked
  exact linked.walk_eq ok.null_notMem ok.length_lt

/-! ## Search -/

/-- The last node of a part of the order that reaches a level. -/
def lastOn (skip : KvsSkip) (below : List Nat) (level : Nat) : Nat :=
  (onLevel skip below level).getLastD header

/-- The last node of a level occurs on every lower level as well. -/
theorem exists_split_lastOn (skip : KvsSkip) (below : List Nat)
    {level upper : Nat} (ordered : level ≤ upper) :
    ∃ first second, onLevel skip below level = first ++ second ∧
      first.getLastD header = lastOn skip below upper := by
  rw [lastOn, List.getLastD_eq_getLast?]
  cases last : (onLevel skip below upper).getLast? with
  | none => exact ⟨[], _, rfl, rfl⟩
  | some node =>
      have member := List.mem_filter.mp (List.mem_of_getLast? last)
      have lower : node ∈ onLevel skip below level := by
        refine List.mem_filter.mpr ⟨member.1, ?_⟩
        have reach := of_decide_eq_true member.2
        exact decide_eq_true (by omega)
      obtain ⟨first, second, split⟩ := List.append_of_mem lower
      refine ⟨first ++ [node], second, by simp [split], by simp⟩

/-- What lies behind the last node of a part is the head of the other part. -/
theorem linked_next {next : Nat → Nat} {start : Nat}
    {first second : List Nat}
    (linked : Linked next null start (first ++ second)) :
    next (first.getLastD start) = second.headD null := by
  rw [Linked, List.append_assoc, segment_append] at linked
  cases second with
  | nil => exact linked.2.1
  | cons node rest => exact linked.2.1

theorem linked_head {next : Nat → Nat} {start : Nat} {nodes : List Nat}
    (linked : Linked next null start nodes) :
    next start = nodes.headD null :=
  @linked_next next start [] nodes linked

section Around

variable {skip : KvsSkip} {key : Bytes} {below middle above : List Nat}

theorem SkipOk.linked_parts
    (ok : SkipOk skip (below ++ (middle ++ above)))
    {level : Nat} (low : level ≤ maxLevel) :
    Linked (skip.forwardAt level) null header
      (onLevel skip below level ++ onLevel skip (middle ++ above) level) := by
  rw [← onLevel_append]
  exact ok.linked level low

/-- The inner loop of one level runs to the last node below the key. -/
theorem advance_lastOn
    (ok : SkipOk skip (below ++ (middle ++ above)))
    (around : Around kvDataCompare (keyAt skip) key below middle above)
    {level upper : Nat} (low : level ≤ maxLevel) (ordered : level ≤ upper) :
    advance (skip.forwardAt level) null (skip.below key) skip.next
        (lastOn skip below upper) =
      lastOn skip below level := by
  obtain ⟨first, second, split, last⟩ :=
    exists_split_lastOn skip below ordered
  have linked := ok.linked_parts low
  rw [split, List.append_assoc, Linked, List.append_assoc,
    segment_append, last] at linked
  have tail : Linked (skip.forwardAt level) null (lastOn skip below upper)
      (second ++ onLevel skip (middle ++ above) level) := linked.2
  have inside : ∀ node ∈ second, node ∈ below := by
    intro node member
    apply @mem_of_mem_onLevel skip below level
    rw [split]
    exact List.mem_append.mpr (Or.inr member)
  rw [tail.advance_eq, ← last, lastOn, split]
  · cases second with
    | nil => simp
    | cons node rest => simp
  · intro member
    exact ok.null_notMem (List.mem_append.mpr (Or.inl (inside _ member)))
  · intro node member
    rw [KvsSkip.below, beq_iff_eq]
    exact around.below node (inside node member)
  · intro node member
    have later := mem_of_mem_onLevel (List.mem_of_mem_head? member)
    rw [KvsSkip.below, beq_eq_false_iff_ne]
    rcases List.mem_append.mp later with equal | high
    · rw [show kvDataCompare (skip.nodes node).entry.key key = .eq from
        around.middle node equal]
      decide
    · rw [show kvDataCompare (skip.nodes node).entry.key key = .gt from
        around.above node high]
      decide
  · have short := ok.length_lt
    have part := congrArg List.length split
    have filtered : (onLevel skip below level).length ≤ below.length :=
      List.length_filter_le ..
    rw [List.length_append] at part short
    omega

/-- The descent through the levels records the last nodes below the key. -/
theorem findUpdateLoop_eq
    (ok : SkipOk skip (below ++ (middle ++ above)))
    (around : Around kvDataCompare (keyAt skip) key below middle above)
    (levels : Nat) (low : levels ≤ maxLevel + 1) (update : Nat → Nat) :
    findUpdateLoop skip key levels (lastOn skip below levels) update =
      (fun level =>
        if level < levels then lastOn skip below level else update level,
        lastOn skip below 0) := by
  induction levels generalizing update with
  | zero => simp [findUpdateLoop]
  | succ levels induction =>
      rw [findUpdateLoop, advance_lastOn ok around (by omega) (by omega),
        induction (by omega)]
      congr 1
      funext level
      rcases lt_trichotomy level levels with lower | rfl | upper
      · rw [if_pos lower, if_pos (by omega)]
      · simp
      · rw [if_neg (by omega), if_neg (by omega), if_neg (by omega)]

/-- No node reaches a level above the level of the list. -/
theorem SkipOk.onLevel_above {order : List Nat} (ok : SkipOk skip order)
    {part : List Nat} (inside : part ⊆ order) {level : Nat}
    (high : skip.level < level) :
    onLevel skip part level = [] := by
  rw [onLevel, List.filter_eq_nil_iff]
  intro address member
  have bound := ok.bounded address (inside member)
  rw [decide_eq_true_iff]
  omega

theorem skipFindUpdate_update
    (ok : SkipOk skip (below ++ (middle ++ above)))
    (around : Around kvDataCompare (keyAt skip) key below middle above)
    {level : Nat} (low : level ≤ skip.level) :
    (skipFindUpdate skip key).1 level = lastOn skip below level := by
  have start : lastOn skip below (skip.level + 1) = header := by
    rw [lastOn, ok.onLevel_above (List.subset_append_left _ _)
      (Nat.lt_succ_self _)]
    rfl
  have top := ok.top
  rw [skipFindUpdate]
  simp only
  rw [← start, findUpdateLoop_eq ok around _ (by omega)]
  exact if_pos (by omega)

theorem skipFindUpdate_found
    (ok : SkipOk skip (below ++ (middle ++ above)))
    (around : Around kvDataCompare (keyAt skip) key below middle above) :
    (skipFindUpdate skip key).2 = middle.headD null := by
  have start : lastOn skip below (skip.level + 1) = header := by
    rw [lastOn, ok.onLevel_above (List.subset_append_left _ _)
      (Nat.lt_succ_self _)]
    rfl
  have top := ok.top
  have step : skip.forwardAt 0 (lastOn skip below 0) =
      (middle ++ above).headD null := by
    have linked := ok.linked_parts (Nat.zero_le _)
    rw [lastOn, linked_next linked, onLevel_zero]
  rw [skipFindUpdate]
  simp only
  rw [← start, findUpdateLoop_eq ok around _ (by omega), step]
  cases middle with
  | nil =>
      cases above with
      | nil => simp
      | cons node rest =>
          have order : kvDataCompare (skip.nodes node).entry.key key = .gt :=
            around.above node List.mem_cons_self
          simp [order]
  | cons node rest =>
      have equal : kvDataCompare (skip.nodes node).entry.key key = .eq :=
        around.middle node List.mem_cons_self
      have proper : node ≠ null := by
        rintro rfl
        exact ok.null_notMem (by simp)
      rw [if_pos ⟨by simpa using proper, by simpa using equal⟩]
      rfl

end Around

/-! ## Deletion -/

/-- The list with the unlinking loop run over the lowest levels. -/
theorem foldl_unlinkStep (update : Nat → Nat) (node : Nat) (skip : KvsSkip)
    (levels : Nat) :
    (List.range levels).foldl (unlinkStep update node) skip =
      { skip with
        nodes := fun address =>
          { skip.nodes address with
            forward := fun level =>
              if level < levels ∧ address = update level ∧
                  skip.forwardAt level (update level) = node then
                skip.forwardAt level node
              else skip.forwardAt level address } } := by
  induction levels with
  | zero => simp [KvsSkip.forwardAt]
  | succ levels induction =>
      rw [List.range_succ, List.foldl_append, induction, List.foldl_cons,
        List.foldl_nil, unlinkStep]
      simp only [KvsSkip.forwardAt, KvsSkip.setForward, KvsSkip.update,
        lt_irrefl, false_and, if_false]
      split_ifs with hit
      · congr 1
        funext address
        by_cases here : address = update levels
        · rw [if_pos here]
          congr 1
          funext level
          rcases lt_trichotomy level levels with lower | rfl | upper
          · rw [if_neg (by omega)]
            simp [lower, Nat.lt_succ_of_lt lower]
          · simp [here, hit]
          · simp [show level ≠ levels by omega, show ¬ level < levels by omega,
              show ¬ level < levels + 1 by omega]
        · rw [if_neg here]
          congr 1
          funext level
          rcases lt_trichotomy level levels with lower | rfl | upper
          · simp [lower, Nat.lt_succ_of_lt lower]
          · simp [here]
          · simp [show ¬ level < levels by omega,
              show ¬ level < levels + 1 by omega]
      · congr 1
        funext address
        congr 1
        funext level
        rcases lt_trichotomy level levels with lower | rfl | upper
        · simp [lower, Nat.lt_succ_of_lt lower]
        · simp [hit]
        · simp [show ¬ level < levels by omega,
            show ¬ level < levels + 1 by omega]

theorem lowerLevel_le (forward : Nat → Nat) (level : Nat) :
    lowerLevel forward level ≤ level := by
  induction level with
  | zero => exact le_refl _
  | succ level induction =>
      rw [lowerLevel]
      split_ifs
      · omega
      · exact le_refl _

theorem lowerLevel_empty (forward : Nat → Nat) {level other : Nat}
    (above : lowerLevel forward level < other) (below : other ≤ level) :
    forward other = null := by
  induction level with
  | zero => omega
  | succ level induction =>
      rw [lowerLevel] at above
      split_ifs at above with empty
      · rcases Nat.lt_or_ge level other with high | low
        · rw [show other = level + 1 by omega, empty]
        · exact induction above low
      · omega

section Unlink

variable {skip : KvsSkip} {below above : List Nat} {node : Nat}
    {update : Nat → Nat}

theorem skipUnlink_entry (address : Nat) :
    ((skipUnlink skip update node).nodes address).entry =
      (skip.nodes address).entry := by
  rw [skipUnlink, foldl_unlinkStep]

theorem skipUnlink_level (address : Nat) :
    ((skipUnlink skip update node).nodes address).level =
      (skip.nodes address).level := by
  rw [skipUnlink, foldl_unlinkStep]

theorem skipUnlink_forwardAt (level address : Nat) :
    (skipUnlink skip update node).forwardAt level address =
      if level < skip.level + 1 ∧ address = update level ∧
          skip.forwardAt level (update level) = node then
        skip.forwardAt level node
      else skip.forwardAt level address := by
  rw [skipUnlink, foldl_unlinkStep]
  rfl

theorem skipUnlink_top :
    (skipUnlink skip update node).level =
      lowerLevel
        (fun level => (skipUnlink skip update node).forwardAt level header)
        skip.level := by
  rw [skipUnlink, foldl_unlinkStep]
  rfl

theorem skipUnlink_next :
    (skipUnlink skip update node).next = skip.next := by
  rw [skipUnlink, foldl_unlinkStep]

theorem skipUnlink_count :
    (skipUnlink skip update node).count = toInt32 (skip.count - 1) := by
  rw [skipUnlink, foldl_unlinkStep]

theorem onLevel_skipUnlink (order : List Nat) (level : Nat) :
    onLevel (skipUnlink skip update node) order level =
      onLevel skip order level := by
  simp only [onLevel, skipUnlink_level]

/-- Every level loses the node and keeps the others. -/
theorem skipUnlink_linked
    (ok : SkipOk skip (below ++ node :: above))
    (path : ∀ level, level ≤ skip.level →
      update level = lastOn skip below level)
    {level : Nat} (low : level ≤ maxLevel) :
    Linked ((skipUnlink skip update node).forwardAt level) null header
      (onLevel skip (below ++ above) level) := by
  have linked := ok.linked level low
  have nodup := ok.nodup_onLevel level
  rw [onLevel_append] at linked nodup ⊢
  by_cases reach : level ≤ (skip.nodes node).level
  · have member : onLevel skip (node :: above) level =
        node :: onLevel skip above level := by
      simp [onLevel, reach]
    have inside : level ≤ skip.level :=
      reach.trans (ok.bounded node (by simp))
    have ahead := linked_next linked
    rw [member] at linked nodup ahead
    refine linked.remove nodup ?_ ?_
    · rw [skipUnlink_forwardAt, path level inside, if_pos]
      exact ⟨by omega, rfl, ahead⟩
    · intro other _ different
      rw [skipUnlink_forwardAt, path level inside, if_neg]
      rintro ⟨_, same, _⟩
      exact different same
  · have absent : onLevel skip (node :: above) level =
        onLevel skip above level := by
      simp [onLevel, reach]
    rw [absent] at linked nodup
    refine linked.congr ?_
    intro other _
    rw [skipUnlink_forwardAt, if_neg]
    rintro ⟨inside, _, hit⟩
    rw [path level (by omega), lastOn, linked_next linked] at hit
    have nodupOrder := (List.nodup_cons.mp ok.nodup).2
    have outside : node ∉ above :=
      (List.nodup_cons.mp (List.nodup_append.mp nodupOrder).2.1).1
    cases rest : onLevel skip above level with
    | nil =>
        rw [rest] at hit
        exact ok.null_notMem (by simp [← hit])
    | cons first others =>
        rw [rest] at hit
        apply outside
        rw [← hit]
        apply @mem_of_mem_onLevel skip above level
        simp [rest]

/-- Unlinking the node of a key keeps the representation. -/
theorem SkipOk.unlink
    (ok : SkipOk skip (below ++ node :: above))
    (path : ∀ level, level ≤ skip.level →
      update level = lastOn skip below level) :
    SkipOk (skipUnlink skip update node) (below ++ above) := by
  have subset : below ++ above ⊆ below ++ node :: above :=
    List.append_subset.mpr
      ⟨List.subset_append_left _ _,
        List.Subset.trans (List.subset_cons_self node above)
          (List.subset_append_right _ _)⟩
  have linked : ∀ level, level ≤ maxLevel →
      Linked ((skipUnlink skip update node).forwardAt level) null header
        (onLevel (skipUnlink skip update node) (below ++ above) level) := by
    intro level low
    rw [onLevel_skipUnlink]
    exact skipUnlink_linked ok path low
  have lowered : (skipUnlink skip update node).level ≤ skip.level := by
    rw [skipUnlink_top]
    exact lowerLevel_le _ _
  refine ⟨linked, ?_, ?_, lowered.trans ok.top, ?_, ?_, ?_⟩
  · have keys : keyAt (skipUnlink skip update node) = keyAt skip := by
      funext address
      rw [keyAt, skipUnlink_entry, keyAt]
    rw [keys]
    exact ok.sorted.sublist
      (List.Sublist.append_left (List.sublist_cons_self node above) below)
  · intro address member
    have bound := ok.bounded address (subset member)
    rw [skipUnlink_level]
    by_contra high
    have reach : (skip.nodes address).level ≤ maxLevel :=
      bound.trans ok.top
    have empty : (skipUnlink skip update node).forwardAt
        (skip.nodes address).level header = null := by
      rw [skipUnlink_top, not_le] at high
      exact lowerLevel_empty
        (fun level => (skipUnlink skip update node).forwardAt level header)
        high bound
    have step := linked_head (linked _ reach)
    rw [onLevel_skipUnlink] at step
    have inside : address ∈
        onLevel skip (below ++ above) (skip.nodes address).level :=
      List.mem_filter.mpr ⟨member, by simp⟩
    cases nodes : onLevel skip (below ++ above) (skip.nodes address).level with
    | nil =>
        rw [nodes] at inside
        exact absurd inside List.not_mem_nil
    | cons first rest =>
        rw [nodes] at step
        have start : first = null := step.symm.trans empty
        apply ok.null_notMem
        apply subset
        apply @mem_of_mem_onLevel skip _ (skip.nodes address).level
        rw [nodes, start]
        exact List.mem_cons_self
  · intro address member
    rw [skipUnlink_next]
    exact ok.live address (subset member)
  · have total := ok.count
    rw [skipUnlink_count, total, Int.sub_eq_add_neg, toInt32_add]
    simp only [List.length_append, List.length_cons]
    push_cast
    congr 1
    omega
  · rw [skipUnlink_next]
    exact ok.heap

end Unlink

/-! ## Insertion -/

/-- The list with the linking loop run over the lowest levels. -/
theorem foldl_linkStep {update : Nat → Nat} {node : Nat} (skip : KvsSkip)
    {levels : Nat}
    (fresh : ∀ level, level < levels → update level ≠ node) :
    (List.range levels).foldl (linkStep update node) skip =
      { skip with
        nodes := fun address =>
          { skip.nodes address with
            forward := fun level =>
              if level < levels ∧ address = update level then node
              else if level < levels ∧ address = node then
                skip.forwardAt level (update level)
              else skip.forwardAt level address } } := by
  induction levels with
  | zero => simp [KvsSkip.forwardAt]
  | succ levels induction =>
      have other := fresh levels (Nat.lt_succ_self _)
      rw [List.range_succ, List.foldl_append,
        induction (fun level low => fresh level (Nat.lt_succ_of_lt low)),
        List.foldl_cons, List.foldl_nil, linkStep]
      simp only [KvsSkip.forwardAt, KvsSkip.setForward, KvsSkip.update,
        lt_irrefl, false_and, if_false]
      congr 1
      funext address
      by_cases here : address = update levels
      · have apart : address ≠ node := by
          rw [here]
          exact other
        rw [if_pos here, if_neg apart]
        congr 1
        funext level
        rcases lt_trichotomy level levels with lower | rfl | upper
        · simp [lower, Nat.lt_succ_of_lt lower, lower.ne]
        · simp [here]
        · simp [upper.ne', show ¬ level < levels by omega,
            show ¬ level < levels + 1 by omega]
      · rw [if_neg here]
        by_cases new : address = node
        · rw [if_pos new]
          congr 1
          funext level
          rcases lt_trichotomy level levels with lower | rfl | upper
          · simp [lower, Nat.lt_succ_of_lt lower, lower.ne]
          · simp [new, other.symm]
          · simp [upper.ne', show ¬ level < levels by omega,
              show ¬ level < levels + 1 by omega]
        · rw [if_neg new]
          congr 1
          funext level
          rcases lt_trichotomy level levels with lower | rfl | upper
          · simp [lower, Nat.lt_succ_of_lt lower]
          · simp [here, new]
          · simp [show ¬ level < levels by omega,
              show ¬ level < levels + 1 by omega]

section Insert

variable {skip : KvsSkip} {update path : Nat → Nat} {drawn : Nat}
    {entry : Entry}

/-- The predecessors of a new node: on levels the list did not have yet, the
header. -/
def Predecessors (skip : KvsSkip) (update path : Nat → Nat) (drawn : Nat) :
    Prop :=
  ∀ level, level ≤ drawn →
    (if skip.level < level ∧ level ≤ drawn then header else update level) =
      path level ∧ path level ≠ skip.next

/-- The heap and the counters after an insertion. -/
theorem skipInsert_eq (ways : Predecessors skip update path drawn) :
    skipInsert skip update drawn entry =
      { nodes := fun address =>
          { entry :=
              if address = skip.next then entry
              else (skip.nodes address).entry
            level :=
              if address = skip.next then drawn
              else (skip.nodes address).level
            forward := fun level =>
              if level ≤ drawn ∧ address = path level then skip.next
              else if address = skip.next then
                if level ≤ drawn then skip.forwardAt level (path level)
                else null
              else skip.forwardAt level address }
        level := if skip.level < drawn then drawn else skip.level
        count := toInt32 (skip.count + 1)
        next := skip.next + 1 } := by
  have fresh : ∀ level, level < drawn + 1 →
      (if skip.level < level ∧ level ≤ drawn then header
        else update level) ≠ skip.next := by
    intro level low
    obtain ⟨way, apart⟩ := ways level (Nat.lt_succ_iff.mp low)
    rw [way]
    exact apart
  rw [skipInsert, foldl_linkStep _ fresh]
  simp only [KvsSkip.mk.injEq, and_true]
  funext address
  by_cases new : address = skip.next
  · simp only [new, if_true, skipnodeCreate, KvsSkip.forwardAt,
      SkipNode.mk.injEq, true_and, Nat.lt_succ_iff]
    funext level
    by_cases low : level ≤ drawn
    · obtain ⟨way, apart⟩ := ways level low
      simp only [way]
      simp [low, apart, apart.symm]
    · simp [low]
  · simp only [new, if_false, KvsSkip.forwardAt, SkipNode.mk.injEq,
      true_and, Nat.lt_succ_iff]
    funext level
    by_cases low : level ≤ drawn
    · obtain ⟨way, _⟩ := ways level low
      simp only [way]
      simp [low]
    · simp [low]

theorem skipInsert_forwardAt (ways : Predecessors skip update path drawn)
    (level address : Nat) :
    (skipInsert skip update drawn entry).forwardAt level address =
      if level ≤ drawn ∧ address = path level then skip.next
      else if address = skip.next then
        if level ≤ drawn then skip.forwardAt level (path level) else null
      else skip.forwardAt level address := by
  rw [skipInsert_eq ways]
  rfl

variable {below above : List Nat}

theorem onLevel_skipInsert (ways : Predecessors skip update path drawn)
    (entry : Entry) {order : List Nat} (old : skip.next ∉ order)
    (level : Nat) :
    onLevel (skipInsert skip update drawn entry) order level =
      onLevel skip order level := by
  rw [skipInsert_eq ways]
  apply List.filter_congr
  intro address member
  have different : address ≠ skip.next := by
    rintro rfl
    exact old member
  simp [different]

/-- Every level up to the drawn one gains the new node. -/
theorem skipInsert_linked
    (ok : SkipOk skip (below ++ above))
    (ways : Predecessors skip update (lastOn skip below) drawn)
    {level : Nat} (low : level ≤ maxLevel) :
    Linked ((skipInsert skip update drawn entry).forwardAt level) null header
      (onLevel (skipInsert skip update drawn entry)
        (below ++ skip.next :: above) level) := by
  have outside : skip.next ∉ below ++ above := by
    intro member
    exact lt_irrefl _ (ok.live _ member).2
  have outsideBelow : skip.next ∉ below :=
    fun member => outside (List.mem_append.mpr (Or.inl member))
  have outsideAbove : skip.next ∉ above :=
    fun member => outside (List.mem_append.mpr (Or.inr member))
  have fresh : skip.next ∉
      header :: (onLevel skip below level ++ onLevel skip above level) := by
    rw [← onLevel_append]
    intro member
    rcases List.mem_cons.mp member with same | member
    · exact absurd ok.heap (by omega)
    · exact outside (mem_of_mem_onLevel member)
  have linked := ok.linked level low
  have nodup := ok.nodup_onLevel level
  rw [onLevel_append] at linked nodup ⊢
  rw [onLevel_skipInsert ways entry outsideBelow]
  by_cases reach : level ≤ drawn
  · have member : onLevel (skipInsert skip update drawn entry)
        (skip.next :: above) level =
          skip.next :: onLevel skip above level := by
      rw [← onLevel_skipInsert ways entry outsideAbove]
      simp [onLevel, skipInsert_eq ways, reach]
    rw [member]
    refine linked.insert nodup fresh ?_ ?_ ?_
    · rw [skipInsert_forwardAt ways, if_pos ⟨reach, rfl⟩]
    · rw [skipInsert_forwardAt ways, if_neg, if_pos rfl, if_pos reach]
      · rfl
      · rintro ⟨_, same⟩
        exact (ways level reach).2 same.symm
    · intro other inside different
      rw [skipInsert_forwardAt ways, if_neg, if_neg]
      · rintro rfl
        exact fresh inside
      · rintro ⟨_, same⟩
        exact different same
  · have absent : onLevel (skipInsert skip update drawn entry)
        (skip.next :: above) level = onLevel skip above level := by
      rw [← onLevel_skipInsert ways entry outsideAbove]
      simp [onLevel, skipInsert_eq ways, reach]
    rw [absent]
    refine linked.congr ?_
    intro other inside
    rw [skipInsert_forwardAt ways, if_neg (fun both => reach both.1), if_neg]
    rintro rfl
    exact fresh inside

/-- The search path of a key and the header are the predecessors of its new
node. -/
theorem SkipOk.predecessors
    (ok : SkipOk skip (below ++ above))
    (path : ∀ level, level ≤ skip.level →
      update level = lastOn skip below level)
    (drawn : Nat) :
    Predecessors skip update (lastOn skip below) drawn := by
  intro level low
  constructor
  · split_ifs with high
    · rw [lastOn, ok.onLevel_above (List.subset_append_left _ _) high.1]
      rfl
    · exact path level (by omega)
  · have member := @getLastD_mem _ header (onLevel skip below level)
    intro same
    rw [lastOn] at same
    rw [same] at member
    rcases List.mem_cons.mp member with start | member
    · exact absurd ok.heap (by omega)
    · have bounds := ok.live _ (List.mem_append.mpr
        (Or.inl (mem_of_mem_onLevel member)))
      exact lt_irrefl _ bounds.2

/-- Linking in a node between the parts around its key keeps the
representation. -/
theorem SkipOk.insert
    (ok : SkipOk skip (below ++ above))
    (around : Around kvDataCompare (keyAt skip) entry.key below [] above)
    (path : ∀ level, level ≤ skip.level →
      update level = lastOn skip below level)
    (small : drawn ≤ maxLevel) :
    SkipOk (skipInsert skip update drawn entry)
      (below ++ skip.next :: above) := by
  have outside : ∀ address ∈ below ++ above, address ≠ skip.next := by
    rintro address member rfl
    exact lt_irrefl _ (ok.live _ member).2
  have ways := ok.predecessors path drawn
  have keys : ∀ address ∈ below ++ above,
      keyAt (skipInsert skip update drawn entry) address =
        keyAt skip address := by
    intro address member
    simp [keyAt, skipInsert_eq ways, outside address member]
  have own : keyAt (skipInsert skip update drawn entry) skip.next =
      entry.key := by
    simp [keyAt, skipInsert_eq ways]
  have parts : ∀ address, address ∈ below ++ skip.next :: above →
      address ∈ below ++ above ∨ address = skip.next := by
    intro address member
    rcases List.mem_append.mp member with low | high
    · exact Or.inl (List.mem_append.mpr (Or.inl low))
    · rcases List.mem_cons.mp high with same | high
      · exact Or.inr same
      · exact Or.inl (List.mem_append.mpr (Or.inr high))
  refine ⟨fun level low => skipInsert_linked ok ways low,
    ?_, ?_, ?_, ?_, ?_, ?_⟩
  · have moved : Around kvDataCompare
        (keyAt (skipInsert skip update drawn entry))
        (keyAt (skipInsert skip update drawn entry) skip.next)
        below [] above := by
      rw [own]
      refine ⟨?_, by simp, ?_⟩
      · intro address member
        rw [keys address (List.mem_append.mpr (Or.inl member))]
        exact around.below address member
      · intro address member
        rw [keys address (List.mem_append.mpr (Or.inr member))]
        exact around.above address member
    refine moved.sorted_put ?_
    refine ok.sorted.imp_of_mem ?_
    intro first second firstMember secondMember order
    rw [keys first firstMember, keys second secondMember]
    exact order
  · intro address member
    rw [skipInsert_eq ways]
    rcases parts address member with old | rfl
    · have bound := ok.bounded address old
      simp only [outside address old, if_false]
      split_ifs <;> omega
    · simp only [if_true]
      split_ifs <;> omega
  · have top := ok.top
    rw [skipInsert_eq ways]
    dsimp only
    split_ifs <;> omega
  · intro address member
    rw [skipInsert_eq ways]
    rcases parts address member with old | rfl
    · have bounds := ok.live address old
      exact ⟨bounds.1, Nat.lt_succ_of_lt bounds.2⟩
    · exact ⟨ok.heap, Nat.lt_succ_self _⟩
  · have total := ok.count
    rw [skipInsert_eq ways]
    dsimp only
    rw [total, toInt32_add]
    simp only [List.length_append, List.length_cons]
    push_cast
    rw [Int.add_assoc]
  · rw [skipInsert_eq ways]
    exact Nat.lt_succ_of_lt ok.heap

end Insert

/-! ## The operations on the sorted list of entries -/

section Operations

variable {skip : KvsSkip}

theorem SkipOk.entries_eq {order : List Nat} (ok : SkipOk skip order) :
    skip.entries =
      order.map (fun address => (skip.nodes address).entry) := by
  rw [KvsSkip.entries, ok.addresses_eq]

theorem skipValid_create : SkipValid kvsSkipCreate :=
  ⟨[], skipOk_create⟩

@[simp]
theorem entries_create : kvsSkipCreate.entries = [] := by
  rw [skipOk_create.entries_eq]
  rfl

/-- The parts around a key, with the search that finds them. -/
theorem SkipValid.exists_around (valid : SkipValid skip) (key : Bytes) :
    ∃ below middle above, SkipOk skip (below ++ (middle ++ above)) ∧
      Around kvDataCompare (keyAt skip) key below middle above ∧
      middle.length ≤ 1 := by
  obtain ⟨order, ok⟩ := valid
  obtain ⟨below, middle, above, rfl, around, single⟩ :=
    ok.sorted.exists_around key
  exact ⟨below, middle, above, ok, around, single⟩

/-- The parts around a key, as entries. -/
theorem around_entries {key : Bytes} {below middle above : List Nat}
    (around : Around kvDataCompare (keyAt skip) key below middle above) :
    Around kvDataCompare Entry.key key
      (below.map (fun address => (skip.nodes address).entry))
      (middle.map (fun address => (skip.nodes address).entry))
      (above.map (fun address => (skip.nodes address).entry)) :=
  around.map (fun address => (skip.nodes address).entry) (fun _ => rfl)

theorem SkipOk.entries_parts {below middle above : List Nat}
    (ok : SkipOk skip (below ++ (middle ++ above))) :
    skip.entries =
      below.map (fun address => (skip.nodes address).entry) ++
        (middle.map (fun address => (skip.nodes address).entry) ++
          above.map (fun address => (skip.nodes address).entry)) := by
  rw [ok.entries_eq, List.map_append, List.map_append]

/-- The search finds the entry of the key. -/
theorem skipFindUpdate_lookup (valid : SkipValid skip) (key : Bytes) :
    (if (skipFindUpdate skip key).2 = null then none
      else some (skip.nodes (skipFindUpdate skip key).2).entry) =
      lookup kvDataCompare Entry.key skip.entries key := by
  obtain ⟨below, middle, above, ok, around, single⟩ :=
    valid.exists_around key
  rw [skipFindUpdate_found ok around, ok.entries_parts,
    (around_entries around).lookup_eq]
  cases middle with
  | nil => rfl
  | cons node rest =>
      have proper : node ≠ null := by
        rintro rfl
        exact ok.null_notMem (by simp)
      simp [proper]

/-- A key that was found splits the list at its node. -/
theorem skipFindUpdate_split (valid : SkipValid skip) {key : Bytes}
    (found : (skipFindUpdate skip key).2 ≠ null) :
    ∃ below node above, SkipOk skip (below ++ ([node] ++ above)) ∧
      Around kvDataCompare (keyAt skip) key below [node] above ∧
      (skipFindUpdate skip key).2 = node := by
  obtain ⟨below, middle, above, ok, around, single⟩ :=
    valid.exists_around key
  have hit := skipFindUpdate_found ok around
  cases middle with
  | nil => exact absurd hit found
  | cons node rest =>
      obtain rfl : rest = [] := by simpa using single
      exact ⟨below, node, above, ok, around, hit⟩

/-- Unlinking what the search found erases the key. -/
theorem skipUnlink_erase (valid : SkipValid skip) {key : Bytes}
    (found : (skipFindUpdate skip key).2 ≠ null) :
    SkipValid (skipUnlink skip (skipFindUpdate skip key).1
        (skipFindUpdate skip key).2) ∧
      (skipUnlink skip (skipFindUpdate skip key).1
        (skipFindUpdate skip key).2).entries =
        erase kvDataCompare Entry.key skip.entries key := by
  obtain ⟨below, node, above, ok, around, target⟩ :=
    skipFindUpdate_split valid found
  have path : ∀ level, level ≤ skip.level →
      (skipFindUpdate skip key).1 level = lastOn skip below level :=
    fun level low => skipFindUpdate_update ok around low
  have linked : SkipOk skip (below ++ node :: above) := ok
  have after := linked.unlink path
  rw [target]
  refine ⟨⟨_, after⟩, ?_⟩
  rw [after.entries_eq, ok.entries_parts,
    (around_entries around).erase_eq, List.map_append]
  simp only [skipUnlink_entry]

/-- `kvs_skip_del` erases the key. -/
theorem kvsSkipDel_erase (valid : SkipValid skip) (key : Bytes) :
    SkipValid (kvsSkipDel skip key).1 ∧
      (kvsSkipDel skip key).1.entries =
        erase kvDataCompare Entry.key skip.entries key ∧
      (kvsSkipDel skip key).2 =
        if (lookup kvDataCompare Entry.key skip.entries key).isSome then 0
        else 1 := by
  have search := skipFindUpdate_lookup valid key
  rw [kvsSkipDel, ← search]
  by_cases missing : (skipFindUpdate skip key).2 = null
  · rw [if_pos missing] at search
    simp only [missing, if_true]
    refine ⟨valid, ?_, rfl⟩
    rw [erase_of_lookup_none search.symm]
  · simp only [missing, if_false]
    obtain ⟨after, entries⟩ := skipUnlink_erase valid missing
    exact ⟨after, entries, rfl⟩

/-- Inserting where the search of a missing key ended sets the key. -/
theorem skipInsert_put (valid : SkipValid skip) {entry : Entry}
    (missing : (skipFindUpdate skip entry.key).2 = null) {drawn : Nat}
    (small : drawn ≤ maxLevel) :
    SkipValid (skipInsert skip (skipFindUpdate skip entry.key).1 drawn
        entry) ∧
      (skipInsert skip (skipFindUpdate skip entry.key).1 drawn
        entry).entries =
        put kvDataCompare Entry.key skip.entries entry := by
  obtain ⟨below, middle, above, ok, around, single⟩ :=
    valid.exists_around entry.key
  have hit := skipFindUpdate_found ok around
  obtain rfl : middle = [] := by
    cases middle with
    | nil => rfl
    | cons node rest =>
        have start : null = node := missing.symm.trans hit
        refine absurd ?_ ok.null_notMem
        rw [start]
        simp
  have path : ∀ level, level ≤ skip.level →
      (skipFindUpdate skip entry.key).1 level = lastOn skip below level :=
    fun level low => skipFindUpdate_update ok around low
  have after := SkipOk.insert ok around path small
  have old : ∀ address ∈ below ++ above, address ≠ skip.next := by
    rintro address member rfl
    exact lt_irrefl _ (ok.live _ member).2
  have kept : ∀ address ∈ below ++ above,
      ((skipInsert skip (skipFindUpdate skip entry.key).1 drawn
        entry).nodes address).entry = (skip.nodes address).entry := by
    intro address member
    simp [skipInsert_eq (SkipOk.predecessors ok path drawn),
      old address member]
  refine ⟨⟨_, after⟩, ?_⟩
  rw [after.entries_eq, ok.entries_parts, (around_entries around).put_eq,
    List.map_append, List.map_cons]
  congr 1
  · apply List.map_congr_left
    intro address member
    exact kept address (List.mem_append.mpr (Or.inl member))
  · congr 1
    · simp [skipInsert_eq (SkipOk.predecessors ok path drawn)]
    · apply List.map_congr_left
      intro address member
      exact kept address (List.mem_append.mpr (Or.inr member))

/-- Overwriting the value of a found key in place sets the key. -/
theorem skipOverwrite_put (valid : SkipValid skip) {entry : Entry}
    (found : (skipFindUpdate skip entry.key).2 ≠ null) :
    SkipValid (skip.update (skipFindUpdate skip entry.key).2 (fun node =>
        { node with
          entry :=
            { node.entry with
              value := entry.value
              expireTime := entry.expireTime } })) ∧
      (skip.update (skipFindUpdate skip entry.key).2 (fun node =>
        { node with
          entry :=
            { node.entry with
              value := entry.value
              expireTime := entry.expireTime } })).entries =
        put kvDataCompare Entry.key skip.entries entry := by
  obtain ⟨below, node, above, ok, around, target⟩ :=
    skipFindUpdate_split valid found
  rw [target]
  have same : (skip.nodes node).entry.key = entry.key :=
    kvDataCompare_eq_iff.mp (around.middle node List.mem_cons_self)
  have changed : ∀ address,
      ((skip.update node (fun node =>
        { node with
          entry :=
            { node.entry with
              value := entry.value
              expireTime := entry.expireTime } })).nodes address).entry =
        if address = node then entry
        else (skip.nodes address).entry := by
    intro address
    rw [KvsSkip.update]
    dsimp only
    split_ifs with here
    · rw [here, same]
    · rfl
  have level : ∀ address,
      ((skip.update node (fun node =>
        { node with
          entry :=
            { node.entry with
              value := entry.value
              expireTime := entry.expireTime } })).nodes address).level =
        (skip.nodes address).level := by
    intro address
    rw [KvsSkip.update]
    dsimp only
    split_ifs <;> rfl
  generalize step : skip.update node (fun node =>
      { node with
        entry :=
          { node.entry with
            value := entry.value
            expireTime := entry.expireTime } }) = after at changed level ⊢
  have keys : keyAt after = keyAt skip := by
    funext address
    rw [keyAt, keyAt, changed]
    split_ifs with here
    · rw [here, same]
    · rfl
  have links : ∀ level, after.forwardAt level = skip.forwardAt level := by
    intro level
    rw [← step]
    funext address
    simp only [KvsSkip.forwardAt, KvsSkip.update]
    split_ifs <;> rfl
  have levels : ∀ order level,
      onLevel after order level = onLevel skip order level := by
    intro order level'
    simp only [onLevel, level]
  have valid' : SkipOk after (below ++ ([node] ++ above)) := by
    refine ⟨?_, ?_, ?_, ?_, ?_, ?_, ?_⟩
    · intro level' low
      rw [links, levels]
      exact ok.linked level' low
    · rw [keys]
      exact ok.sorted
    · intro address member
      rw [level, ← step]
      exact ok.bounded address member
    · rw [← step]
      exact ok.top
    · rw [← step]
      exact ok.live
    · rw [← step]
      exact ok.count
    · rw [← step]
      exact ok.heap
  have apart : node ∉ below ∧ node ∉ above := by
    have nodup := (List.nodup_cons.mp ok.nodup).2
    rw [List.nodup_append] at nodup
    refine ⟨fun member => nodup.2.2 node member node (by simp) rfl, ?_⟩
    exact (List.nodup_cons.mp nodup.2.1).1
  refine ⟨⟨_, valid'⟩, ?_⟩
  rw [valid'.entries_parts, ok.entries_parts, (around_entries around).put_eq]
  simp only [changed]
  rw [List.map_cons, if_pos rfl, List.map_nil, List.singleton_append]
  congr 1
  · apply List.map_congr_left
    intro address member
    rw [if_neg]
    rintro rfl
    exact apart.1 member
  · congr 1
    apply List.map_congr_left
    intro address member
    rw [if_neg]
    rintro rfl
    exact apart.2 member

/-- `kvs_skip_set` sets the key, whatever level was drawn. -/
theorem kvsSkipSet_put (valid : SkipValid skip) (key value : Bytes)
    (expireTime : Int) {drawn : Nat} (small : drawn ≤ maxLevel) :
    SkipValid (kvsSkipSet skip key value expireTime drawn).1 ∧
      (kvsSkipSet skip key value expireTime drawn).1.entries =
        put kvDataCompare Entry.key skip.entries
          { key := key, value := value, expireTime := expireTime } ∧
      (kvsSkipSet skip key value expireTime drawn).2 = 0 := by
  rw [kvsSkipSet]
  by_cases found : (skipFindUpdate skip key).2 ≠ null
  · rw [if_pos found]
    by_cases fits : value.length ≤
        (skip.nodes (skipFindUpdate skip key).2).entry.value.length
    · rw [if_pos fits]
      obtain ⟨after, entries⟩ := @skipOverwrite_put skip valid
        { key := key, value := value, expireTime := expireTime } found
      exact ⟨after, entries, rfl⟩
    · rw [if_neg fits]
      obtain ⟨removed, erased, _⟩ := kvsSkipDel_erase valid key
      have missing : (skipFindUpdate (kvsSkipDel skip key).1 key).2 =
          null := by
        have search := skipFindUpdate_lookup removed key
        rw [erased, lookup_erase] at search
        by_contra still
        rw [if_neg still] at search
        exact absurd search (by simp)
      obtain ⟨after, entries⟩ := @skipInsert_put _ removed
        { key := key, value := value, expireTime := expireTime } missing
        drawn small
      refine ⟨after, ?_, rfl⟩
      rw [entries, erased]
      exact put_erase skip.entries _
  · rw [if_neg found]
    obtain ⟨after, entries⟩ := @skipInsert_put skip valid
      { key := key, value := value, expireTime := expireTime }
      (not_not.mp found) drawn small
    exact ⟨after, entries, rfl⟩

/-- `kvs_skip_get` reads the entry of the key, or erases it when its time has
passed. -/
theorem kvsSkipGet_lookup (valid : SkipValid skip) (enableTtl : Bool)
    (now : Int) (key : Bytes) :
    SkipValid (kvsSkipGet enableTtl now skip key).1 ∧
      ((kvsSkipGet enableTtl now skip key).1.entries,
        (kvsSkipGet enableTtl now skip key).2) =
        match lookup kvDataCompare Entry.key skip.entries key with
        | none => (skip.entries, none)
        | some entry =>
            if enableTtl ∧ 0 < entry.expireTime ∧ entry.expireTime < now then
              (erase kvDataCompare Entry.key skip.entries key, none)
            else (skip.entries, some entry.value) := by
  rw [kvsSkipGet, ← skipFindUpdate_lookup valid key]
  by_cases found : (skipFindUpdate skip key).2 = null
  · simp only [found, if_true]
    exact ⟨valid, trivial⟩
  · simp only [found, if_false]
    split_ifs with late
    · obtain ⟨after, entries⟩ := skipUnlink_erase valid found
      exact ⟨after, by rw [entries]⟩
    · exact ⟨valid, rfl⟩

/-- `kvs_skip_del_if_expired` erases the key when its entry carries the
expected time. -/
theorem kvsSkipDelIfExpired_erase (valid : SkipValid skip) (key : Bytes)
    (expectedExpire : Int) :
    SkipValid (kvsSkipDelIfExpired skip key expectedExpire).1 ∧
      ((kvsSkipDelIfExpired skip key expectedExpire).1.entries,
        (kvsSkipDelIfExpired skip key expectedExpire).2) =
        match lookup kvDataCompare Entry.key skip.entries key with
        | none => (skip.entries, false)
        | some entry =>
            if entry.expireTime = expectedExpire then
              (erase kvDataCompare Entry.key skip.entries key, true)
            else (skip.entries, false) := by
  rw [kvsSkipDelIfExpired, ← skipFindUpdate_lookup valid key]
  by_cases found : (skipFindUpdate skip key).2 = null
  · simp only [found, ne_eq, not_true_eq_false, false_and, if_false, if_true]
    exact ⟨valid, trivial⟩
  · simp only [found, ne_eq, not_false_eq_true, true_and, if_false]
    obtain ⟨after, entries, _⟩ := kvsSkipDel_erase valid key
    split_ifs with expired
    · exact ⟨after, by rw [entries]⟩
    · exact ⟨valid, rfl⟩

end Operations

end Kivo.Engine.SkipOrder
