import CommonsC.Base.Refines
import CommonsC.GridView.NodeGrid
import Mathlib.Data.Set.Finite.List
import Mathlib.Order.Lattice.Nat

/-!
# CommonsC.GridView.Refinement

The grid view on nodes does what its model on lists does.

`Models s views` says that the two lists in memory are the pools of the model.
Every function on nodes is given one theorem, which says that it keeps to the
function of the model: it returns where that returns, and fails where that
fails.  The functions are put together from their parts by the rules of
`Refines`, up to whole runs (`run_refines`).

So what is proved about the model holds of the code.  Besides, the code touches
allocated memory only, its searches come to an end, and a grid that is deleted
leaves no node behind.
-/

namespace CommonsC.GridView

open Heap PoolState

/-- `lv_mem_alloc` returns memory that is not allocated, if there is little that
is. -/
def Allocates {ν : Type} (alloc : Heap ν → ν) : Prop :=
  ∀ heap : Heap ν, {a | (heap a).isSome}.Finite → heap (alloc heap) = none

/-- An error of the model. -/
def IsFault (e : NodeFault) (fault : Fault) : Prop := e = .fault fault

theorem isFault (fault : Fault) : IsFault (.fault fault) fault := rfl

variable {ν : Type} {s : NodeViews ν} {views : Views} {zs ws : List (ν × ViewPoolNode)}

/-- The nodes `zs` and `ws` hold the pools of the model. -/
structure Holds (s : NodeViews ν) (views : Views) (zs ws : List (ν × ViewPoolNode)) : Prop where
  pools : Pools s.heap s.pool_inuse s.pool_free zs ws
  inuse : zs.map Prod.snd = views.pool_inuse
  free : ws.map Prod.snd = views.pool_free
  created : s.created = views.created
  calls : s.calls = views.calls
  /-- There are no more nodes than views. -/
  enough : zs.length + ws.length ≤ s.created

/-- The pools in memory are those of the model. -/
def Models (s : NodeViews ν) (views : Views) : Prop := ∃ zs ws, Holds s views zs ws

theorem Holds.call (h : Holds s views zs ws) (c : Call) : Holds (s.call c) (views.call c) zs ws :=
  { h with calls := congrArg (c :: ·) h.calls }

theorem Models.call (h : Models s views) (c : Call) : Models (s.call c) (views.call c) := by
  obtain ⟨zs, ws, h⟩ := h
  exact ⟨zs, ws, h.call c⟩

/-- The allocated memory is that of the nodes. -/
theorem PoolState.Pools.finite {heap : Heap ν} {inuse free : Option ν}
    (h : Pools heap inuse free zs ws) : {a | (heap a).isSome}.Finite := by
  refine Set.Finite.subset ((zs.map Prod.fst).finite_toSet.union (ws.map Prod.fst).finite_toSet)
    fun a ha => ?_
  exact h.all a ha

variable [DecidableEq ν]

omit [DecidableEq ν] in
theorem find_map {as bs : List (ν × ViewPoolNode)} {z : ν × ViewPoolNode} {position : ℤ}
    (hz : z.2.position = position) (has : ∀ y ∈ as, y.2.position ≠ position) :
    viewPoolNodeByPosition ((as ++ z :: bs).map Prod.snd) position = some z.2 := by
  have hfront : ∀ m ∈ as.map Prod.snd, m.position ≠ position := List.forall_mem_map.2 has
  have hat : (z.2.position == position) = true := beq_iff_eq.2 hz
  rw [viewPoolNodeByPosition, List.map_append, List.map_cons, List.find?_append,
    List.find?_eq_none.2 (by simpa using hfront), Option.none_or]
  exact List.find?_cons_of_pos hat

omit [DecidableEq ν] in
theorem find_map_none {position : ℤ} (h : ∀ z ∈ zs, z.2.position ≠ position) :
    viewPoolNodeByPosition (zs.map Prod.snd) position = none := by
  have hall : ∀ m ∈ zs.map Prod.snd, m.position ≠ position := List.forall_mem_map.2 h
  exact List.find?_eq_none.2 (by simpa using hall)

omit [DecidableEq ν] in
/-- The node of a position in memory is that of the model. -/
theorem Holds.nodeAt [DecidableEq ν] (h : Holds s views zs ws) (position : ℤ) :
    (viewPoolNodeByPosition views.pool_inuse position = none ∧
        s.nodeAt position = .ok none) ∨
      ∃ as z bs, zs = as ++ z :: bs ∧ z.2.position = position ∧
        (∀ y ∈ as, y.2.position ≠ position) ∧
        viewPoolNodeByPosition views.pool_inuse position = some z.2 ∧
        s.nodeAt position = .ok (some (z.1, z.2.item)) := by
  have hfuel : zs.length ≤ s.created := (Nat.le_add_right _ _).trans h.enough
  obtain ⟨found, hfind⟩ := find_returns h.pools.inuse (·.position == position) hfuel
  rw [← h.inuse, NodeViews.nodeAt, Heap.viewPoolNodeByPosition, hfind]
  cases found with
  | none =>
      have hnone := none_of_find h.pools.inuse hfind
      exact .inl ⟨find_map_none (by simpa using hnone), rfl⟩
  | some cur =>
      obtain ⟨as, z, bs, rfl, rfl, hz, has⟩ := split_of_find h.pools.inuse hfind
      obtain ⟨node, hnode, hdata⟩ := Option.map_eq_some_iff.1 (h.pools.inuse.data z (by simp))
      have hz : z.2.position = position := by simpa using hz
      have has : ∀ y ∈ as, y.2.position ≠ position := by simpa using has
      refine .inr ⟨as, z, bs, rfl, hz, has, find_map hz has, ?_⟩
      change (access (s.heap z.1) >>= fun node => Except.ok (some (z.1, node.item))) = _
      rw [hnode, ← hdata]
      rfl

variable {alloc : Heap ν → ν} (halloc : Allocates alloc)

include halloc in
/-- A node is allocated, and put in front of a pool. -/
theorem PoolState.Pools.allocate {heap : Heap ν} {inuse free : Option ν}
    (h : Pools heap inuse free zs ws) (position : ℤ) (value : ℕ) :
    ∃ inuse' heap', heap.viewPoolPut inuse (alloc heap) position value = some (inuse', heap') ∧
      Pools heap' inuse' free ((alloc heap, ⟨position, value⟩) :: zs) ws := by
  obtain ⟨heap', hput, -, -⟩ := viewPoolPut_eq h.inuse (halloc heap h.finite) position value
  exact ⟨_, heap', hput, h.put hput⟩

include halloc in
/-- **`grid_recycle_item`** on nodes. -/
theorem Models.recycle (h : Models s views) (position : ℤ) (optional : Bool) :
    Refines Models IsFault (s.gridRecycleItem alloc position optional)
      (gridRecycleItem position optional views) := by
  obtain ⟨zs, ws, h⟩ := h
  have hfuel : zs.length ≤ s.created := (Nat.le_add_right _ _).trans h.enough
  obtain ⟨⟨item, pool_inuse, heap⟩, htake⟩ :=
    takeByPosition_returns h.pools.inuse hfuel position
  rw [NodeViews.gridRecycleItem, htake, gridRecycleItem, viewPoolTakeByPosition, ← h.inuse]
  rcases of_takeByPosition h.pools.inuse htake with
    ⟨rfl, rfl, rfl, hnone⟩ | ⟨as, z, bs, rfl, hz, has, rfl, hremoved⟩
  · rw [find_map_none hnone]
    exact .ite (fun _ => .ok ⟨zs, ws, h⟩) fun _ => .error rfl
  · rw [find_map hz has]
    have hpools := (h.pools.removed hremoved).symm
    obtain ⟨pool_free, heap', hput, hpools'⟩ := hpools.allocate halloc (-1) z.2.item
    have hfront : ∀ m ∈ as.map Prod.snd, m.position ≠ position := List.forall_mem_map.2 has
    have herase : ((as ++ z :: bs).map Prod.snd).eraseP (·.position == position) =
        (as ++ bs).map Prod.snd := by
      rw [List.map_append, List.map_cons, eraseP_append hfront hz, List.map_append]
    have hholds : Holds
        { s with
          heap := heap', pool_inuse, pool_free
          calls := .addFlagHidden z.2.item :: .sendDefocused z.2.item :: s.calls }
        { views with
          pool_inuse := ((as ++ z :: bs).map Prod.snd).eraseP (·.position == position)
          pool_free := ⟨-1, z.2.item⟩ :: views.pool_free
          calls := .addFlagHidden z.2.item :: .sendDefocused z.2.item :: views.calls }
        (as ++ bs) ((alloc heap, ⟨-1, z.2.item⟩) :: ws) := by
      refine ⟨hpools'.symm, herase.symm, congrArg (_ :: ·) h.free, h.created,
        congrArg (_ :: _ :: ·) h.calls, ?_⟩
      have henough := h.enough
      simp only [List.length_append, List.length_cons] at henough ⊢
      omega
    change Refines Models IsFault
      (access (heap.viewPoolPut s.pool_free (alloc heap) (-1) z.2.item) >>= _) _
    rw [hput]
    exact ⟨_, _, hholds⟩

/-- The same view, and the same pools. -/
def SameView (r : NodeViews ν × ℕ × Bool) (r' : Views × ℕ × Bool) : Prop :=
  Models r.1 r'.1 ∧ r.2 = r'.2

include halloc in
/-- A view is put into use, if there are fewer nodes than views. -/
theorem Holds.putInuse (h : Holds s views zs ws) (hroom : zs.length + ws.length < s.created)
    (position : ℤ) (item : ℕ) :
    Refines SameView IsFault
      (do
        let (pool_inuse, heap) ←
          access (s.heap.viewPoolPut s.pool_inuse (alloc s.heap) position item)
        .ok ({ s with heap, pool_inuse }, item, true))
      (.ok ({ views with pool_inuse := viewPoolPut views.pool_inuse position item }, item,
        true)) := by
  obtain ⟨pool_inuse, heap', hput, hpools⟩ := h.pools.allocate halloc position item
  have hholds : Holds { s with heap := heap', pool_inuse }
      { views with pool_inuse := viewPoolPut views.pool_inuse position item }
      ((alloc s.heap, ⟨position, item⟩) :: zs) ws := by
    refine ⟨hpools, congrArg (_ :: ·) h.inuse, h.free, h.created, h.calls, ?_⟩
    simp only [List.length_cons]
    omega
  rw [hput]
  exact ⟨⟨_, _, hholds⟩, rfl⟩

/-- What is left of the free pool, and the view that was taken. -/
theorem Holds.takeFree (h : Holds s views zs ws) :
    ∃ item pool_free heap ws', s.heap.viewPoolPoll s.pool_free = some (item, pool_free, heap) ∧
      (NodeViews.takeFree item { s with heap, pool_free }).2 = (takeFree views).2 ∧
      Holds (NodeViews.takeFree item { s with heap, pool_free }).1 (takeFree views).1 zs ws' ∧
      zs.length + ws'.length <
        (NodeViews.takeFree item { s with heap, pool_free }).1.created := by
  have henough := h.enough
  rw [GridView.takeFree, ← h.free]
  rcases viewPoolPoll_eq h.pools.free with
    ⟨rfl, hpoll, hempty⟩ | ⟨z, bs, pool_free, heap, rfl, hpoll, hremoved⟩
  · -- The adapter creates a view.
    have hpools := h.pools
    rw [hempty] at hpools
    refine ⟨none, none, s.heap, [], hpoll, h.created, ⟨hpools, h.inuse, rfl,
      congrArg (· + 1) h.created, ?_, ?_⟩, ?_⟩
    · change Call.createView s.created :: s.calls = Call.createView views.created :: views.calls
      rw [h.created, h.calls]
    · exact henough.trans (Nat.le_succ _)
    · exact Nat.lt_succ_of_le henough
  · have hsplit : Pools s.heap s.pool_free s.pool_inuse ([] ++ z :: bs) zs := h.pools.symm
    rw [List.length_cons] at henough
    refine ⟨some z.2.item, pool_free, heap, bs, hpoll, rfl,
      ⟨(hsplit.removed hremoved).symm, h.inuse, rfl, h.created, h.calls, ?_⟩, ?_⟩
    · exact (Nat.lt_of_lt_of_le (by omega) henough).le
    · exact Nat.lt_of_lt_of_le (by omega) henough

include halloc in
/-- **`grid_obtain_item`** on nodes. -/
theorem Models.obtain (h : Models s views) (position : ℤ) :
    Refines SameView IsFault (s.gridObtainItem alloc position)
      (.ok (gridObtainItem position views)) := by
  obtain ⟨zs, ws, h⟩ := h
  rw [NodeViews.gridObtainItem, gridObtainItem]
  rcases h.nodeAt position with ⟨hnone, hat⟩ | ⟨as, z, bs, -, -, -, hsome, hat⟩
  · rw [hat, hnone]
    obtain ⟨item, pool_free, heap, ws', hpoll, hitem, htaken, hroom⟩ := h.takeFree
    change Refines SameView IsFault (access (s.heap.viewPoolPoll s.pool_free) >>= _) _
    rw [hpoll]
    have hput := (htaken.call (.clearFlagHidden (takeFree views).2)).putInuse halloc hroom position
      (takeFree views).2
    rw [← hitem] at hput
    have hpair : takeFree views = ((takeFree views).1,
        (NodeViews.takeFree item { s with heap, pool_free }).2) := by rw [hitem]
    rw [hpair]
    exact hput
  · rw [hat, hsome]
    exact ⟨⟨zs, ws, h⟩, rfl⟩

/-- A node gets another position. -/
theorem PoolState.Pools.move {heap : Heap ν} {inuse free : Option ν}
    {as bs : List (ν × ViewPoolNode)} {z : ν × ViewPoolNode}
    (h : Pools heap inuse free (as ++ z :: bs) ws) (position : ℤ) :
    ∃ heap', heap.store z.1 ({ · with position }) = some heap' ∧
      Pools heap' inuse free (as ++ (z.1, { z.2 with position }) :: bs) ws := by
  have hz : z ∈ as ++ z :: bs := List.mem_append_right _ List.mem_cons_self
  obtain ⟨node, hnode, hdata⟩ := Option.map_eq_some_iff.1 (h.inuse.data z hz)
  obtain ⟨_, hsame, hprev, hnext⟩ := exists_node (h.inuse.isSome (List.mem_map_of_mem hz))
  cases hnode.symm.trans hsame
  obtain ⟨heap', hheap'⟩ :
      ∃ heap', heap' = Function.update heap z.1 (some { node with position }) := ⟨_, rfl⟩
  have hself : heap' z.1 = some { node with position } := by rw [hheap', Function.update_self]
  have hother : ∀ a ≠ z.1, heap' a = heap a := fun a ha => by
    rw [hheap', Function.update_of_ne ha]
  have hlinks : links heap' = links heap := by
    rw [hheap', links_update, hprev, hnext, LinkedList.Links.setPrev, LinkedList.Links.setNext,
      Function.update_eq_self]
    exact congrArg (LinkedList.Links.mk _) (Function.update_eq_self z.1 (links heap).next)
  have hnodup := h.inuse.linked.forward.nodup
  rw [List.map_append, List.map_cons, List.nodup_middle, List.nodup_cons, ← List.map_append]
    at hnodup
  have hmap : (as ++ (z.1, { z.2 with position }) :: bs).map Prod.fst =
      (as ++ z :: bs).map Prod.fst := by simp
  refine ⟨heap', (congrArg (Option.map _) hnode).trans (congrArg some hheap'.symm),
    ⟨?_, fun y hy => ?_⟩, ?_, ?_, fun a ha => ?_⟩
  · rw [hlinks, hmap]
    exact h.inuse.linked
  · rcases List.mem_append.1 hy with hy | hy
    · have hne : y.1 ≠ z.1 := fun heq =>
        hnodup.1 (heq ▸ List.mem_map_of_mem (List.mem_append_left _ hy))
      rw [dataAt, hother _ hne]
      exact h.inuse.data y (List.mem_append_left _ hy)
    · rcases List.mem_cons.1 hy with rfl | hy
      · rw [dataAt, hself, ← hdata]
        rfl
      · have hne : y.1 ≠ z.1 := fun heq =>
          hnodup.1 (heq ▸ List.mem_map_of_mem (List.mem_append_right _ hy))
        rw [dataAt, hother _ hne]
        exact h.inuse.data y (List.mem_append_right _ (List.mem_cons_of_mem _ hy))
  · refine h.free.frame fun a ha => hother a fun heq => ?_
    exact h.apart z.1 (List.mem_map_of_mem hz) (heq ▸ ha)
  · rw [hmap]
    exact h.apart
  · rw [hmap]
    by_cases heq : a = z.1
    · exact .inl (heq ▸ List.mem_map_of_mem hz)
    · rw [hother a heq] at ha
      exact h.all a ha

include halloc in
/-- A view moves to another position. -/
theorem Models.moveView (h : Models s views)
    (column_count item_start max_item_end move_delta old_pos : ℤ) :
    Refines Models IsFault
      (s.moveView alloc column_count item_start max_item_end move_delta old_pos)
      (moveView column_count item_start max_item_end move_delta old_pos views) := by
  refine .ite (fun _ => h.recycle halloc old_pos true) fun _ => ?_
  obtain ⟨zs, ws, h⟩ := h
  rcases h.nodeAt old_pos with ⟨hnone, hat⟩ | ⟨as, z, bs, rfl, hz, has, hsome, hat⟩
  · rw [hat, hnone]
    exact ⟨zs, ws, h⟩
  · obtain ⟨heap', hstore, hpools⟩ := h.pools.move (old_pos + move_delta)
    have hrenumber : (as ++ (z.1, { z.2 with position := old_pos + move_delta }) :: bs).map
        Prod.snd = renumber old_pos (old_pos + move_delta) views.pool_inuse := by
      rw [← h.inuse, List.map_append, List.map_cons, List.map_append, List.map_cons,
        renumber_append (old_pos + move_delta) (List.forall_mem_map.2 has) hz]
    have hmoved : Holds { s with heap := heap' }
        { views with pool_inuse := renumber old_pos (old_pos + move_delta) views.pool_inuse }
        (as ++ (z.1, { z.2 with position := old_pos + move_delta }) :: bs) ws := by
      refine ⟨hpools, hrenumber, h.free, h.created, h.calls, ?_⟩
      have henough := h.enough
      simp only [List.length_append, List.length_cons] at henough ⊢
      exact henough
    rw [hat, hsome]
    change Refines Models IsFault (access (s.heap.store z.1
      ({ · with position := old_pos + move_delta })) >>= _) _
    rw [hstore]
    exact ⟨_, _, hmoved.call _⟩

/-- What `view_pool_remove_by_instance` does to a pool in memory. -/
theorem PoolState.Pools.removeInstance {heap : Heap ν} {inuse free : Option ν}
    (h : Pools heap inuse free zs ws) {fuel : ℕ} (hfuel : zs.length ≤ fuel) (obj : ℕ) :
    ∃ inuse' heap' zs', heap.viewPoolRemoveByInstance fuel inuse obj = some (inuse', heap') ∧
      Pools heap' inuse' free zs' ws ∧
      zs'.map Prod.snd = viewPoolRemoveByInstance (zs.map Prod.snd) obj ∧
      zs'.length ≤ zs.length := by
  obtain ⟨⟨inuse', heap'⟩, hrun⟩ := removeByInstance_returns h.inuse hfuel obj
  rw [viewPoolRemoveByInstance]
  rcases of_removeByInstance h.inuse hrun with
    ⟨rfl, rfl, hnone⟩ | ⟨as, z, bs, rfl, hz, has, hremoved⟩
  · refine ⟨_, _, zs, hrun, h, (List.eraseP_of_forall_not ?_).symm, le_rfl⟩
    have hall : ∀ m ∈ zs.map Prod.snd, m.item ≠ obj := List.forall_mem_map.2 hnone
    simpa using hall
  · refine ⟨_, _, as ++ bs, hrun, h.removed hremoved, ?_, by simp⟩
    have hfront : ∀ m ∈ as.map Prod.snd, m.item ≠ obj := List.forall_mem_map.2 has
    have hat : (z.2.item == obj) = true := beq_iff_eq.2 hz
    rw [List.map_append, List.map_append, List.map_cons, List.eraseP_append_right _
      (by simpa using hfront)]
    rw [List.eraseP_cons_of_pos (p := fun m : ViewPoolNode => m.item == obj) hat]

/-- **`item_delete_cb`** on nodes. -/
theorem Models.delete (h : Models s views) (obj : ℕ) :
    Refines Models IsFault (s.itemDeleteCb obj)
      (.ok { views with
        pool_inuse := viewPoolRemoveByInstance views.pool_inuse obj
        pool_free := viewPoolRemoveByInstance views.pool_free obj }) := by
  obtain ⟨zs, ws, h⟩ := h
  have henough := h.enough
  obtain ⟨inuse', heap₁, zs', hinuse, hpools, hzs, hle⟩ :=
    h.pools.removeInstance ((Nat.le_add_right _ _).trans henough) obj
  obtain ⟨free', heap₂, ws', hfree, hpools', hws, hle'⟩ :=
    hpools.symm.removeInstance ((Nat.le_add_left _ _).trans henough) obj
  have hholds : Holds { s with heap := heap₂, pool_inuse := inuse', pool_free := free' }
      { views with
        pool_inuse := viewPoolRemoveByInstance views.pool_inuse obj
        pool_free := viewPoolRemoveByInstance views.pool_free obj } zs' ws' :=
    ⟨hpools'.symm, by rw [hzs, h.inuse], by rw [hws, h.free], h.created, h.calls,
      (Nat.add_le_add hle hle').trans henough⟩
  rw [NodeViews.itemDeleteCb, hinuse]
  change Refines Models IsFault
    (access (heap₁.viewPoolRemoveByInstance s.created s.pool_free obj) >>= _) _
  rw [hfree]
  exact ⟨_, _, hholds⟩

/-! ## Loops -/

include halloc in
theorem Models.recycleRows (h : Models s views) (column_count item_count lo hi : ℤ)
    (optional : Bool) :
    Refines Models IsFault (s.recycleRows alloc column_count item_count lo hi optional)
      (recycleRows column_count item_count lo hi optional views) :=
  .up lo hi h fun _ _ _ h => .up 0 column_count h fun _ _ _ h =>
    .ite (fun _ => .ok h) fun _ => h.recycle halloc _ optional

include halloc in
theorem Models.applyChange (h : Models s views)
    (column_count item_start max_item_end expect_item_count : ℤ) (change : Change) :
    Refines Models IsFault
      (s.applyChange alloc column_count item_start max_item_end expect_item_count change)
      (applyChange column_count item_start max_item_end expect_item_count change views) := by
  refine .ite (fun _ => .error rfl) fun _ => ?_
  refine (Refines.up _ _ h fun del_pos _ _ h => h.recycle halloc del_pos true).bind fun _ _ h => ?_
  exact .ite (fun _ => .ok h) fun _ => .down _ _ h fun old_pos _ _ h =>
    h.moveView halloc column_count item_start max_item_end _ old_pos

/-- The same item count, and the same pools. -/
def SameCount (r : ℤ × NodeViews ν) (r' : ℤ × Views) : Prop := r.1 = r'.1 ∧ Models r.2 r'.2

include halloc in
theorem Models.changeLoop (h : Models s views) (column_count item_start max_item_end : ℤ)
    (changes : List Change) (expect_item_count : ℤ) :
    Refines SameCount IsFault
      (s.changeLoop alloc column_count item_start max_item_end changes expect_item_count)
      (changeLoop column_count item_start max_item_end changes expect_item_count views) := by
  induction changes generalizing s views expect_item_count with
  | nil => exact ⟨rfl, h⟩
  | cons change changes ih =>
      exact (h.applyChange halloc column_count item_start max_item_end expect_item_count
        change).bind fun _ _ h => ih h _

/-! ## The grid -/

/-- The grid of the model, with its pools in memory. -/
structure Same (key_focus_clamp : Bool) (g : NodeGrid ν) (grid : Grid) : Prop where
  scalars : g.grid = { grid with views := ⟨[], [], 0, []⟩ }
  pools : Models g.nodes grid.views
  clamp : g.key_focus_clamp = key_focus_clamp

/-- The same grid, and the same result. -/
def SameResult (key_focus_clamp : Bool) (r : NodeGrid ν × Bool) (r' : Grid × Bool) : Prop :=
  Same key_focus_clamp r.1 r'.1 ∧ r.2 = r'.2

variable {k : Bool} {g : NodeGrid ν} {grid : Grid}

omit [DecidableEq ν] in
/-- A part that does not look at the pools. -/
theorem Same.prepare {f : Grid → Except Fault Grid} {handed : ℤ → Grid} (h : Same k g grid)
    (hf : (∃ row_count, Prepares f grid (handed row_count)) ∨
      ∃ e, e ≠ Fault.invalidItem ∧ ∀ views, f { grid with views } = .error e) :
    Refines (fun scalars grid => Same k { g with grid := scalars } grid) IsFault
      ((f g.grid).mapError .fault) (f grid) := by
  rw [h.scalars]
  rcases hf with ⟨row_count, hok⟩ | ⟨e, -, herror⟩
  · have hgrid : f grid = .ok { handed row_count with views := grid.views } := hok grid.views
    rw [hok, hgrid]
    exact .ok ⟨rfl, h.pools, h.clamp⟩
  · have hgrid : f grid = .error e := herror grid.views
    rw [herror, hgrid]
    exact .error rfl

theorem Same.defocus (h : Same k g grid) (position : ℤ) :
    Refines (Same k) IsFault (NodeGrid.defocus position g) (.ok (defocus position grid)) := by
  obtain ⟨zs, ws, hnodes⟩ := h.pools
  rw [NodeGrid.defocus, GridView.defocus, h.scalars]
  split
  · rcases hnodes.nodeAt grid.focused_index with ⟨hnone, hat⟩ | ⟨as, z, bs, -, -, -, hsome, hat⟩
    · rw [hat, hnone]
      exact ⟨rfl, h.pools, h.clamp⟩
    · rw [hat, hsome]
      exact ⟨rfl, h.pools.call _, h.clamp⟩
  · exact h

include halloc in
/-- **`lv_gridview_focus`** on nodes. -/
theorem Same.focus (h : Same k g grid) (position : ℤ) :
    Refines (SameResult k) IsFault (NodeGrid.lvGridviewFocus alloc position g)
      (.ok (lvGridviewFocus position grid)) := by
  have hsequence : (Except.ok (lvGridviewFocus position grid) : Except Fault (Grid × Bool)) =
      (.ok (GridView.defocus position grid) : Except Fault Grid) >>= fun grid =>
        if position < 0 ∨ grid.item_count ≤ position then .ok (grid, false)
        else (.ok (gridObtainItem position grid.views) : Except Fault _) >>= fun r =>
          .ok ({ grid with
            views := (if r.2.2 then (r.1.call (.setGridCell r.2.1 (position.tmod grid.column_count)
                (position.tdiv grid.column_count))).call (.bindView r.2.1 grid.data position)
              else r.1).call (.sendFocused r.2.1)
            focused_index := position }, true) := by
    rw [lvGridviewFocus]
    dsimp only [bind, Except.bind]
    split <;> rfl
  rw [hsequence]
  refine (h.defocus position).bind fun g grid h => ?_
  have hcount : g.grid.item_count = grid.item_count := by rw [h.scalars]
  rw [hcount]
  refine .ite (fun _ => .ok ⟨h, rfl⟩) fun _ => ?_
  refine (h.pools.obtain halloc position).bind fun r r' hr => ?_
  obtain ⟨hpools, hresult⟩ := hr
  obtain ⟨nodes, will_focus, created⟩ := r
  obtain ⟨views, _, _⟩ := r'
  cases hresult
  have hscalars := h.scalars
  refine ⟨⟨by rw [hscalars], ?_, h.clamp⟩, rfl⟩
  rw [hscalars]
  cases created
  · exact hpools.call _
  · exact ((hpools.call _).call _).call _

include halloc in
theorem Models.refreshCell (h : Models s views)
    (hgrid : g.grid = { grid with views := ⟨[], [], 0, []⟩ }) (row_idx col_idx : ℤ) :
    Refines Models IsFault (NodeGrid.refreshCell alloc g.grid row_idx col_idx s)
      (.ok (refreshCell grid row_idx col_idx views)) := by
  rw [hgrid]
  refine (h.obtain halloc (row_idx * grid.column_count + col_idx)).bind
    (l := fun r => .ok ((if r.2.2 then r.1.call (.setGridCell r.2.1 col_idx row_idx)
      else r.1).call (.bindView r.2.1 grid.data (row_idx * grid.column_count + col_idx))))
    fun r r' hr => ?_
  obtain ⟨hpools, hresult⟩ := hr
  obtain ⟨nodes, item, created⟩ := r
  obtain ⟨views, _, _⟩ := r'
  cases hresult
  cases created
  · exact hpools.call _
  · exact (hpools.call _).call _

include halloc in
theorem Models.refreshCols (h : Models s views)
    (hgrid : g.grid = { grid with views := ⟨[], [], 0, []⟩ }) (row_idx : ℤ) (n : ℕ) (col_idx : ℤ) :
    Refines Models IsFault (NodeGrid.refreshCols alloc g.grid row_idx n col_idx s)
      (.ok (refreshCols grid row_idx n col_idx views)) := by
  induction n generalizing s views col_idx with
  | zero => exact h
  | succ n ih =>
      have hcount : g.grid.item_count ≤ row_idx * g.grid.column_count + col_idx ↔
          grid.item_count ≤ row_idx * grid.column_count + col_idx := by rw [hgrid]
      rw [NodeGrid.refreshCols, GridView.refreshCols]
      by_cases hend : grid.item_count ≤ row_idx * grid.column_count + col_idx
      · rw [if_pos (hcount.2 hend), if_pos hend]
        exact h
      · rw [if_neg (mt hcount.1 hend), if_neg hend]
        exact (h.refreshCell halloc hgrid row_idx col_idx).bind
          (l := fun views => .ok (GridView.refreshCols grid row_idx n (col_idx + 1) views))
          fun _ _ h => ih h (col_idx + 1)

include halloc in
theorem Same.focusAvailable (h : Same k g grid) :
    Refines (Same k) IsFault (NodeGrid.focusAvailable alloc g) (.ok (focusAvailable grid)) := by
  have hscalars := h.scalars
  rw [NodeGrid.focusAvailable, GridView.focusAvailable]
  by_cases hwaits : 0 ≤ grid.focus_when_available ∧ grid.focus_when_available < grid.item_count
  · have hwaits' : 0 ≤ g.grid.focus_when_available ∧
        g.grid.focus_when_available < g.grid.item_count := by rwa [hscalars]
    have hposition : g.grid.focus_when_available = grid.focus_when_available := by rw [hscalars]
    rw [if_pos hwaits, if_pos hwaits', hposition]
    refine (h.focus halloc grid.focus_when_available).bind
      (l := fun r => .ok { r.1 with focus_when_available := -1 }) fun r r' hr => ?_
    obtain ⟨⟨hgrid, hpools, hclamp⟩, -⟩ := hr
    exact ⟨by rw [hgrid], hpools, hclamp⟩
  · have hwaits' : ¬(0 ≤ g.grid.focus_when_available ∧
        g.grid.focus_when_available < g.grid.item_count) := by rwa [hscalars]
    rw [if_neg hwaits, if_neg hwaits']
    exact h

include halloc in
/-- **`fill_rows`** on nodes. -/
theorem Same.fillRows (h : Same k g grid) (row_start row_end : ℤ) :
    Refines (SameResult k) IsFault (NodeGrid.fillRows alloc row_start row_end g)
      (fillRows row_start row_end grid) := by
  obtain ⟨scalars, nodes, clamp⟩ := g
  obtain rfl : scalars = { grid with views := ⟨[], [], 0, []⟩ } := h.scalars
  refine .ite (fun _ => .ok ⟨h, rfl⟩) fun _ => ?_
  refine (h.pools.recycleRows halloc _ _ _ _ _).bind fun nodes views hpools => ?_
  refine (hpools.recycleRows halloc _ _ _ _ _).bind fun nodes views hpools => ?_
  refine .bind_same isFault (inInt (fillInts row_start row_end grid)) fun _ _ => ?_
  refine (Refines.up _ _ hpools fun row_idx _ _ hpools =>
    hpools.refreshCols halloc h.scalars row_idx _ 0).bind fun nodes views hpools => ?_
  have hfilled : Same k ⟨{ grid with views := ⟨[], [], 0, []⟩, row_start, row_end }, nodes, clamp⟩
      { grid with views, row_start, row_end } := ⟨rfl, hpools, h.clamp⟩
  refine (hfilled.focusAvailable halloc).bind (l := fun grid => .ok (grid, true)) fun _ _ h => ?_
  exact ⟨h, rfl⟩

/-! ## `update_grid` -/

include halloc in
theorem Same.renderGrid (h : Same k g grid) (render : Render) :
    Refines (SameResult k) IsFault (NodeGrid.renderGrid alloc render g)
      (renderGrid render grid) := by
  obtain ⟨scalars, nodes, clamp⟩ := g
  obtain rfl : scalars = { grid with views := ⟨[], [], 0, []⟩ } := h.scalars
  refine .bind_same isFault (pendingChanges grid) fun changes _ => ?_
  refine .bind_same isFault (inInt _) fun _ _ => ?_
  refine (h.pools.changeLoop halloc _ _ _ changes _).bind fun r r' hr => ?_
  obtain ⟨hcount, hpools⟩ := hr
  obtain ⟨expect_item_count, nodes⟩ := r
  obtain ⟨_, views⟩ := r'
  cases hcount
  have hmoved : Same k ⟨{ grid with views := ⟨[], [], 0, []⟩ }, nodes, clamp⟩
      { grid with views } := ⟨rfl, hpools, h.clamp⟩
  refine .ite (fun _ => ?_) fun _ => .error rfl
  exact hmoved.fillRows halloc render.row_start render.row_end

include halloc in
/-- **`update_grid`** on nodes. -/
theorem Same.updateGrid (h : Same k g grid) (coord : ℤ → ℤ) (scroll_y : ℤ) :
    Refines (SameResult k) IsFault (NodeGrid.updateGrid alloc coord scroll_y g)
      (updateGrid coord scroll_y grid) := by
  obtain ⟨scalars, nodes, clamp⟩ := g
  obtain rfl : scalars = { grid with views := ⟨[], [], 0, []⟩ } := h.scalars
  refine .ite (fun _ => .ok ⟨h, rfl⟩) fun _ => ?_
  refine .bind_same isFault (renderRows coord scroll_y grid) fun render _ => ?_
  exact .bind_same isFault (inInt (render.ints grid.column_count)) fun _ _ =>
    h.renderGrid halloc render

/-! ## Operations -/

include halloc in
/-- All views are scrapped, or none. -/
theorem Same.scrapViews (h : Same k g grid) (scrap : Bool) :
    Refines (fun g views => Same k g { grid with views }) IsFault
      (NodeGrid.scrapViews alloc scrap g) (scrapViews scrap grid) := by
  obtain ⟨scalars, nodes, clamp⟩ := g
  obtain rfl : scalars = { grid with views := ⟨[], [], 0, []⟩ } := h.scalars
  refine .ite (fun _ => ?_) fun _ => .ok h
  refine (h.pools.recycleRows halloc grid.column_count grid.item_count (max 0 grid.row_start)
    grid.row_end true).bind fun nodes views hpools => ?_
  exact .bind_same isFault (inInt _) fun _ _ => .ok ⟨rfl, hpools, h.clamp⟩

include halloc in
/-- **`lv_gridview_set_config`** on nodes. -/
theorem Same.setConfig (h : Same k g grid) (coord : ℤ → ℤ) (col_count row_height scroll_y : ℤ) :
    Refines (SameResult k) IsFault
      (NodeGrid.lvGridviewSetConfig alloc coord col_count row_height scroll_y g)
      (lvGridviewSetConfig coord col_count row_height scroll_y grid) := by
  have hcols : g.grid.column_count = grid.column_count := by rw [h.scalars]
  rw [NodeGrid.lvGridviewSetConfig, GridView.lvGridviewSetConfig, hcols]
  refine (h.scrapViews halloc _).bind fun g views h => ?_
  refine (h.prepare (configure_eq col_count row_height _ _)).bind fun scalars grid h => ?_
  exact .ite (fun _ => h.updateGrid halloc coord scroll_y) fun _ => .ok ⟨h, rfl⟩

include halloc in
/-- **`lv_gridview_set_data_advanced`** on nodes. -/
theorem Same.setDataAdvanced (h : Same k g grid) (coord : ℤ → ℤ) (data : Option (ℕ × ℤ))
    (changes : Option (List Change)) (num_changes scroll_y : ℤ) :
    Refines (SameResult k) IsFault
      (NodeGrid.lvGridviewSetDataAdvanced alloc coord data changes num_changes scroll_y g)
      (lvGridviewSetDataAdvanced coord data changes num_changes scroll_y grid) := by
  rw [NodeGrid.lvGridviewSetDataAdvanced, GridView.lvGridviewSetDataAdvanced]
  refine (h.scrapViews halloc _).bind fun g views h => ?_
  refine (h.prepare (loadData_eq data changes num_changes _)).bind fun scalars grid h => ?_
  refine (h.updateGrid halloc coord scroll_y).map fun r r' hr => ?_
  obtain ⟨⟨hscalars, hpools, hclamp⟩, hresult⟩ := hr
  exact ⟨⟨congrArg dropChanges hscalars, hpools, hclamp⟩, hresult⟩

include halloc in
theorem Same.sizeChanged (h : Same k g grid) (coord : ℤ → ℤ)
    (content_height pad_row pad_top pad_bottom scroll_y : ℤ) :
    Refines (SameResult k) IsFault
      (NodeGrid.sizeChanged alloc coord content_height pad_row pad_top pad_bottom scroll_y g)
      (sizeChanged coord content_height pad_row pad_top pad_bottom scroll_y grid) := by
  obtain ⟨scalars, nodes, clamp⟩ := g
  obtain rfl : scalars = { grid with views := ⟨[], [], 0, []⟩ } := h.scalars
  have hsizes : Same k
      ⟨{ grid with views := ⟨[], [], 0, []⟩, content_height, pad_row, pad_top, pad_bottom }, nodes,
        clamp⟩
      { grid with content_height, pad_row, pad_top, pad_bottom } := ⟨rfl, h.pools, h.clamp⟩
  exact .ite (fun _ => hsizes.updateGrid halloc coord scroll_y) fun _ => .ok ⟨hsizes, rfl⟩

include halloc in
/-- An operation on nodes. -/
theorem Same.runOp (h : Same k g grid) (coord : ℤ → ℤ) (op : Op) :
    Refines (SameResult k) IsFault (NodeGrid.runOp alloc coord g op) (op.run coord grid) := by
  cases op with
  | setConfig col_count row_height scroll_y =>
      exact h.setConfig halloc coord col_count row_height scroll_y
  | setData data scroll_y => exact h.setDataAdvanced halloc coord data none 0 scroll_y
  | setDataAdvanced data changes num_changes scroll_y =>
      exact h.setDataAdvanced halloc coord data changes num_changes scroll_y
  | focus position =>
      refine (h.focus halloc position).bind (l := fun r => .ok (r.1, false)) fun r r' hr => ?_
      exact ⟨hr.1, rfl⟩
  | focusWhenAvailable position =>
      exact ⟨⟨congrArg (lvGridviewFocusWhenAvailable position) h.scalars, h.pools, h.clamp⟩, rfl⟩
  | scroll scroll_y => exact h.updateGrid halloc coord scroll_y
  | sizeChanged content_height pad_row pad_top pad_bottom scroll_y =>
      exact h.sizeChanged halloc coord content_height pad_row pad_top pad_bottom scroll_y

/-! ## Events -/

/-- The loops of `lv_gridview_rebind` are left in the same way. -/
def SameLeft (left : NodeGrid.Left ν) (views : Views) : Prop :=
  ∃ nodes, left = .returned nodes ∧ Models nodes views

theorem Models.rebindCell (h : Models s views) (grid : Grid) (row_idx col_idx : ℤ) :
    Refines Models SameLeft
      (NodeGrid.rebindCell { grid with views := ⟨[], [], 0, []⟩ } row_idx col_idx s)
      (rebindCell grid row_idx col_idx views) := by
  obtain ⟨zs, ws, h⟩ := h
  refine .ite (fun _ => .ok ⟨zs, ws, h⟩) fun _ => ?_
  rcases h.nodeAt (row_idx * grid.column_count + col_idx) with
    ⟨hnone, hat⟩ | ⟨as, z, bs, -, -, -, hsome, hat⟩
  · dsimp only
    rw [hat, hnone]
    exact ⟨s, rfl, zs, ws, h⟩
  · dsimp only
    rw [hat, hsome]
    exact ⟨zs, ws, h.call _⟩

/-- **`lv_gridview_rebind`** on nodes. -/
theorem Same.rebind (h : Same k g grid) :
    Refines (Same k) IsFault (NodeGrid.lvGridviewRebind g) (lvGridviewRebind grid) := by
  obtain ⟨scalars, nodes, clamp⟩ := g
  obtain rfl : scalars = { grid with views := ⟨[], [], 0, []⟩ } := h.scalars
  have hrows : Refines Models SameLeft
      (NodeGrid.rebindRows ⟨{ grid with views := ⟨[], [], 0, []⟩ }, nodes, clamp⟩)
      (rebindRows grid) :=
    .up _ _ h.pools fun row_idx _ _ h => .up _ _ h fun col_idx _ _ h =>
      h.rebindCell grid row_idx col_idx
  rw [NodeGrid.lvGridviewRebind, GridView.lvGridviewRebind]
  generalize NodeGrid.rebindRows _ = left at hrows ⊢
  generalize GridView.rebindRows grid = left' at hrows ⊢
  cases left <;> cases left'
  · obtain ⟨nodes, rfl, hpools⟩ := hrows
    exact ⟨rfl, hpools, h.clamp⟩
  · exact hrows.elim
  · exact hrows.elim
  · exact .bind_same isFault (inInt _) fun _ _ => .ok ⟨rfl, hrows, h.clamp⟩

/-- **`lv_gridview_rebind_item`** on nodes. -/
theorem Same.rebindItem (h : Same k g grid) (position : ℤ) :
    Refines (Same k) IsFault (NodeGrid.lvGridviewRebindItem position g)
      (.ok (lvGridviewRebindItem position grid)) := by
  obtain ⟨zs, ws, hnodes⟩ := h.pools
  rw [NodeGrid.lvGridviewRebindItem, GridView.lvGridviewRebindItem, h.scalars]
  rcases hnodes.nodeAt position with ⟨hnone, hat⟩ | ⟨as, z, bs, -, -, -, hsome, hat⟩
  · rw [hat, hnone]
    exact h
  · rw [hat, hsome]
    exact ⟨rfl, h.pools.call _, h.clamp⟩

/-- The grid of the model and its key focus, with the pools in memory. -/
def SameKeys (g : NodeGrid ν) (grid : KeyGrid) : Prop := Same grid.key_focus_clamp g grid.toGrid

include halloc in
/-- An event on nodes. -/
theorem SameKeys.runEvent {grid : KeyGrid} (h : SameKeys g grid) (coord : ℤ → ℤ) (event : Event) :
    Refines SameKeys IsFault (NodeGrid.runEvent alloc coord g event) (event.run coord grid) := by
  have hfocus : ∀ position, Refines SameKeys IsFault
      (NodeGrid.lvGridviewFocus alloc position g >>= fun r => .ok r.1)
      (.ok (grid.focus position)) := by
    intro position
    refine (Same.focus halloc h position).bind
      (l := fun r => .ok { grid with toGrid := r.1 }) fun r r' hr => ?_
    exact hr.1
  cases event with
  | op operation => exact (Same.runOp halloc h coord operation).map fun r r' hr => hr.1
  | key pressed =>
      have hints : keyInts pressed { g.grid with key_focus_clamp := g.key_focus_clamp } =
          keyInts pressed grid := by
        rw [h.scalars, h.clamp]
        rfl
      have htarget : keyTarget pressed { g.grid with key_focus_clamp := g.key_focus_clamp } =
          keyTarget pressed grid := by
        rw [h.scalars, h.clamp]
        rfl
      rw [NodeGrid.runEvent, NodeGrid.keyCb, Event.run, GridView.keyCb, hints, htarget]
      refine .bind_same isFault (inInt (keyInts pressed grid)) fun _ _ => ?_
      cases keyTarget pressed grid with
      | none => exact h
      | some position => exact hfocus position
  | cancel => exact hfocus (-1)
  | setKeyFocusClamp enable => exact ⟨h.scalars, h.pools, rfl⟩
  | rebind =>
      exact (Same.rebind h).map_right fun _ _ hsame => hsame
  | rebindItem position =>
      obtain ⟨g', hrun, h'⟩ := (Same.rebindItem h position).of_ok
      rw [NodeGrid.runEvent, hrun]
      exact h'
  | itemDelete obj =>
      refine (h.pools.delete obj).bind (l := fun views => .ok { grid with views }) ?_
      intro nodes views hpools
      exact ⟨h.scalars, hpools, h.clamp⟩

/-! ## The end -/

/-- **`view_pool_reset`** frees the nodes of a pool, and no other memory. -/
theorem viewPoolReset_eq {heap : Heap ν} {head : Option ν} {nodes : List ν} {fuel : ℕ}
    (hlist : LinkedList.Forward (links heap) head nodes) (hsome : ∀ a ∈ nodes, (heap a).isSome)
    (hnodup : nodes.Nodup) (hfuel : nodes.length ≤ fuel) :
    ∃ heap', NodeViews.viewPoolReset heap fuel head = .ok heap' ∧
      (∀ a ∈ nodes, heap' a = none) ∧ ∀ a ∉ nodes, heap' a = heap a := by
  induction nodes generalizing heap head fuel with
  | nil =>
      obtain rfl : head = none := hlist
      refine ⟨heap, ?_, nofun, fun _ _ => rfl⟩
      cases fuel <;> rfl
  | cons x xs ih =>
      obtain ⟨rfl, hrest⟩ := hlist
      obtain ⟨hx, hnodup⟩ := List.nodup_cons.1 hnodup
      obtain ⟨n, rfl⟩ : ∃ n, fuel = n + 1 := Nat.exists_eq_add_one_of_ne_zero (by
        rintro rfl
        cases hfuel)
      obtain ⟨node, hnode, -, hnext⟩ := exists_node (hsome x List.mem_cons_self)
      have hoff : ∀ a ≠ x, Function.update heap x none a = heap a := fun a ha =>
        Function.update_of_ne ha _ _
      have hapart : ∀ a ∈ xs, a ≠ x := fun a ha heq => hx (heq ▸ ha)
      have hsame : LinkedList.SameOff (links heap) (links (Function.update heap x none)) (· = x) :=
        fun a ha =>
          ⟨congrArg (·.bind Node.prev) (hoff a ha), congrArg (·.bind Node.next) (hoff a ha)⟩
      obtain ⟨heap', hreset, hfreed, hkept⟩ := ih (hrest.sameOff hsame hapart)
        (fun a ha => by
          rw [hoff a (hapart a ha)]
          exact hsome a (List.mem_cons_of_mem _ ha)) hnodup (Nat.le_of_succ_le_succ hfuel)
      refine ⟨heap', ?_, ?_, ?_⟩
      · rw [NodeViews.viewPoolReset, hnode, memFree, hnode]
        rw [← hnext] at hreset
        exact hreset
      · intro a ha
        rcases List.mem_cons.1 ha with rfl | ha
        · rw [hkept a hx, Function.update_self]
        · exact hfreed a ha
      · intro a ha
        obtain ⟨hne, ha⟩ := not_or.1 (mt List.mem_cons.2 ha)
        rw [hkept a ha, hoff a hne]

/-- A pool is freed. -/
theorem reset_pool {heap : Heap ν} {head : Option ν} (h : Represents heap head zs) {fuel : ℕ}
    (hfuel : zs.length ≤ fuel) :
    ∃ heap', NodeViews.viewPoolReset heap fuel head = .ok heap' ∧
      (∀ a ∈ zs.map Prod.fst, heap' a = none) ∧ ∀ a ∉ zs.map Prod.fst, heap' a = heap a :=
  viewPoolReset_eq h.linked.forward (fun _ ha => h.isSome ha) h.linked.forward.nodup
    (by rwa [List.length_map])

/-- **`lv_gridview_destructor`** frees all nodes. -/
theorem Models.destroy (h : Models s views) :
    ∃ s', s.lvGridviewDestructor = .ok s' ∧ ∀ a, s'.heap a = none := by
  obtain ⟨zs, ws, h⟩ := h
  have henough := h.enough
  obtain ⟨heap₁, hfree, hws, hkept⟩ :=
    reset_pool h.pools.free ((Nat.le_add_left _ _).trans henough)
  have hinuse : Represents heap₁ s.pool_inuse zs :=
    h.pools.inuse.frame fun a ha => hkept a (h.pools.apart a ha)
  obtain ⟨heap₂, hinuse, hzs, hkept'⟩ :=
    reset_pool hinuse ((Nat.le_add_right _ _).trans henough)
  refine ⟨{ s with heap := heap₂, pool_inuse := none, pool_free := none }, ?_, fun a => ?_⟩
  · rw [NodeViews.lvGridviewDestructor, hfree]
    change NodeViews.viewPoolReset heap₁ s.created s.pool_inuse >>= _ = _
    rw [hinuse]
    rfl
  · by_cases ha : a ∈ zs.map Prod.fst
    · exact hzs a ha
    · by_cases ha' : a ∈ ws.map Prod.fst
      · exact (hkept' a ha).trans (hws a ha')
      · -- No list has the node: it was not allocated.
        have hnone : s.heap a = none := by
          by_contra hne
          exact (h.pools.all a (Option.isSome_iff_ne_none.2 hne)).elim ha ha'
        exact (hkept' a ha).trans ((hkept a ha').trans hnone)

/-! ## Runs -/

include halloc in
theorem create_refines (coord : ℤ → ℤ) (scroll_y : ℤ) :
    Refines (Same false) IsFault (NodeGrid.lvGridviewCreate alloc coord scroll_y)
      (lvGridviewCreate coord scroll_y) := by
  have hempty : Models (⟨fun _ => none, none, none, 0, []⟩ : NodeViews ν) Grid.zeroed.views :=
    ⟨[], [], ⟨⟨⟨rfl, nofun⟩, ⟨rfl, nofun⟩, nofun, nofun⟩, rfl, rfl, rfl, rfl, le_rfl⟩⟩
  have hzeroed : Same false ⟨Grid.zeroed, ⟨fun _ => none, none, none, 0, []⟩, false⟩
      Grid.zeroed := ⟨rfl, hempty, rfl⟩
  refine (hzeroed.setConfig halloc coord 1 1 scroll_y).bind
    (l := fun r => .ok { r.1 with
      row_start := -1, row_end := -1, focused_index := -1, focus_when_available := -1 })
    fun r r' hr => ?_
  obtain ⟨⟨hscalars, hpools, hclamp⟩, -⟩ := hr
  exact ⟨by rw [hscalars], hpools, hclamp⟩

include halloc in
/-- **The grid on nodes does what the model does**, whatever happens to it.  It
makes the same calls, fails where the model does and for the same reason, and
touches allocated memory only; and when it is deleted, no node is left. -/
theorem run_refines (coord : ℤ → ℤ) (scroll_y : ℤ) (events : List Event) :
    Refines (fun g grid => SameKeys g grid ∧
        ∃ s, g.nodes.lvGridviewDestructor = .ok s ∧ ∀ a, s.heap a = none) IsFault
      (NodeGrid.run alloc coord scroll_y events) (KeyGrid.run coord scroll_y events) := by
  have hrun : Refines SameKeys IsFault (NodeGrid.run alloc coord scroll_y events)
      (KeyGrid.run coord scroll_y events) :=
    (create_refines halloc coord scroll_y).bind fun g grid h =>
      .foldlM events h fun event _ _ _ h => h.runEvent halloc coord event
  exact hrun.imp fun g grid h => ⟨h, h.pools.destroy⟩

/-- The lowest address that is not allocated. -/
noncomputable def firstFree (heap : Heap ℕ) : ℕ := sInf {a | heap a = none}

theorem firstFree_allocates : Allocates firstFree := by
  intro heap hfinite
  obtain ⟨a, ha⟩ := hfinite.infinite_compl.nonempty
  have hfree : {a | heap a = none}.Nonempty := ⟨a, Option.not_isSome_iff_eq_none.1 ha⟩
  exact Nat.sInf_mem hfree

/-- Two items are shown, and one of their views is deleted. -/
def twoItems : List Event :=
  [.op (.setConfig 1 10 0), .op (.sizeChanged 20 0 0 0 0), .op (.setData (some (0, 2)) 0),
    .key .down, .itemDelete 0, .rebind]

theorem run_refines_twoItems :
    (∃ grid, KeyGrid.run id 0 twoItems = .ok grid ∧ grid.views.created = 2) ∧
      Refines (fun g grid => SameKeys g grid ∧
        ∃ s, g.nodes.lvGridviewDestructor = .ok s ∧ ∀ a, s.heap a = none) IsFault
      (NodeGrid.run firstFree id 0 twoItems) (KeyGrid.run id 0 twoItems) :=
  ⟨⟨_, rfl, rfl⟩, run_refines firstFree_allocates id 0 twoItems⟩

end CommonsC.GridView
