import CommonsC.GridView.Nodes
import Mathlib.Data.Finset.Basic
import Mathlib.Data.Multiset.AddSub

/-!
# CommonsC.GridView.Conservation

No view is lost by the pools, and none is in them twice.

The state of the code is the memory of the nodes and the heads of both pools.
What the environment chooses comes with a call: the object that `create_view`
returns, and the memory that `lv_mem_alloc` returns, which may be that of a node
freed before.  A run keeps count of the views that exist, by its calls alone:
`create_view` was called for them, and they have not been deleted since.

`Pools` is the invariant of the memory: two lists apart from each other, and no
other node.  Taking a node off a list and putting one in front keep it
(`Pools.removed`, `Pools.put`).  With the views as a multiset, every call moves
or adds or erases one of them (`Conserves.exec`).
-/

namespace CommonsC.GridView

open Heap LinkedList

/-- What `grid_obtain_item`, `grid_recycle_item` and `item_delete_cb` work on. -/
structure PoolState (ν : Type*) where
  heap : Heap ν
  pool_inuse : Option ν
  pool_free : Option ν

/-- The pools, and the views that exist. -/
structure PoolRun (ν : Type*) extends PoolState ν where
  live : Finset ℕ

namespace PoolState

variable {ν : Type*} [DecidableEq ν]

/-! ## The code -/

/-- `grid_recycle_item`: `none` is also the failed assertion.  `a` is the memory
for the node. -/
def gridRecycleItem (fuel : ℕ) (position : ℤ) (optional : Bool) (a : ν) (s : PoolState ν) :
    Option (PoolState ν) := do
  let (item, pool_inuse, heap) ← s.heap.viewPoolTakeByPosition fuel s.pool_inuse position
  match item with
  | none => if optional then some { s with heap, pool_inuse } else none
  | some item => do
      let (pool_free, heap) ← heap.viewPoolPut s.pool_free a (-1) item
      some { heap, pool_inuse, pool_free }

/-- What `grid_obtain_item` returns, and whether it has called `create_view`. -/
structure Obtained where
  item : ℕ
  created : Bool
  create_view : Bool

/-- `grid_obtain_item`.  `view` is what `create_view` returns, and `a` is the
memory for the node. -/
def gridObtainItem (fuel : ℕ) (position : ℤ) (view : ℕ) (a : ν) (s : PoolState ν) :
    Option (PoolState ν × Obtained) := do
  match ← s.heap.viewPoolNodeByPosition fuel s.pool_inuse position with
  | some cur => some (s, ⟨(← s.heap cur).item, false, false⟩)
  | none => do
      let (item, pool_free, heap) ← s.heap.viewPoolPoll s.pool_free
      match item with
      | some item => do
          let (pool_inuse, heap) ← heap.viewPoolPut s.pool_inuse a position item
          some ({ heap, pool_inuse, pool_free }, ⟨item, true, false⟩)
      | none => do
          let (pool_inuse, heap) ← heap.viewPoolPut s.pool_inuse a position view
          some ({ heap, pool_inuse, pool_free }, ⟨view, true, true⟩)

/-- `item_delete_cb`, when the object is deleted. -/
def itemDeleteCb (fuel : ℕ) (obj : ℕ) (s : PoolState ν) : Option (PoolState ν) := do
  let (pool_inuse, heap) ← s.heap.viewPoolRemoveByInstance fuel s.pool_inuse obj
  let (pool_free, heap) ← heap.viewPoolRemoveByInstance fuel s.pool_free obj
  some { heap, pool_inuse, pool_free }

/-- The calls, with what the environment chooses. -/
inductive Call (ν : Type*)
  | obtain (position : ℤ) (view : ℕ) (a : ν)
  | recycle (position : ℤ) (optional : Bool) (a : ν)
  | delete (obj : ℕ)

/-- One call, and the views that exist after it.  `create_view` returns an object
that does not exist before. -/
def Call.exec (fuel : ℕ) (s : PoolRun ν) : Call ν → Option (PoolRun ν)
  | .obtain position view a => do
      let (pools, obtained) ← gridObtainItem fuel position view a s.toPoolState
      if obtained.create_view then
        if view ∈ s.live then none else some ⟨pools, insert view s.live⟩
      else some ⟨pools, s.live⟩
  | .recycle position optional a => do
      let pools ← gridRecycleItem fuel position optional a s.toPoolState
      some ⟨pools, s.live⟩
  | .delete obj => do
      let pools ← itemDeleteCb fuel obj s.toPoolState
      some ⟨pools, s.live.erase obj⟩

/-- Calls one after another, from pools without views, each with the fuel for its
searches. -/
def run (calls : List (ℕ × Call ν)) : Option (PoolRun ν) :=
  calls.foldlM (fun s (fuel, call) => call.exec fuel s) ⟨⟨fun _ => none, none, none⟩, ∅⟩

/-! ## Two lists -/

/-- There are two lists apart from each other, and no other node. -/
structure Pools (heap : Heap ν) (inuse free : Option ν) (zs ws : List (ν × ViewPoolNode)) :
    Prop where
  inuse : Represents heap inuse zs
  free : Represents heap free ws
  apart : ∀ a ∈ zs.map Prod.fst, a ∉ ws.map Prod.fst
  all : ∀ a, (heap a).isSome → a ∈ zs.map Prod.fst ∨ a ∈ ws.map Prod.fst

variable {heap heap' : Heap ν} {inuse inuse' free : Option ν}
  {zs ws as bs : List (ν × ViewPoolNode)} {z : ν × ViewPoolNode} {a : ν}

omit [DecidableEq ν] in
theorem Pools.symm (h : Pools heap inuse free zs ws) : Pools heap free inuse ws zs where
  inuse := h.free
  free := h.inuse
  apart a hws hzs := h.apart a hzs hws
  all a ha := (h.all a ha).symm

omit [DecidableEq ν] in
/-- A node is taken off one of the lists. -/
theorem Pools.removed (h : Pools heap inuse free (as ++ z :: bs) ws)
    (hremoved : Removed heap heap' inuse' as z bs) : Pools heap' inuse' free (as ++ bs) ws := by
  have hmem : ∀ a, a ∈ (as ++ z :: bs).map Prod.fst ↔ a = z.1 ∨ a ∈ (as ++ bs).map Prod.fst := by
    intro a
    simp only [List.map_append, List.map_cons, List.mem_append, List.mem_cons]
    tauto
  refine ⟨hremoved.represents, h.free.frame fun a ha => ?_, fun a ha => ?_, fun a ha => ?_⟩
  · exact hremoved.frame a fun hzs => h.apart a hzs ha
  · exact h.apart a ((hmem a).2 (.inr ha))
  · by_cases hzs : a ∈ (as ++ z :: bs).map Prod.fst
    · rcases (hmem a).1 hzs with rfl | hzs
      · rw [hremoved.freed] at ha
        cases ha
      · exact .inl hzs
    · rw [hremoved.frame a hzs] at ha
      exact .inr ((h.all a ha).resolve_left hzs)

/-- A node is put in front of one of the lists. -/
theorem Pools.put (h : Pools heap inuse free zs ws) {position : ℤ} {value : ℕ}
    (hrun : heap.viewPoolPut inuse a position value = some (inuse', heap')) :
    Pools heap' inuse' free ((a, ⟨position, value⟩) :: zs) ws := by
  have ha : heap a = none := by
    rw [Heap.viewPoolPut] at hrun
    split at hrun
    · cases hrun
    · next ha => simpa using ha
  obtain ⟨heap₁, hput, hrep, hframe⟩ := viewPoolPut_eq h.inuse ha position value
  cases hput.symm.trans hrun
  have hws : a ∉ ws.map Prod.fst := fun hmem => by
    have hsome := h.free.isSome hmem
    rw [ha] at hsome
    cases hsome
  refine ⟨hrep, h.free.frame fun b hb => ?_, fun b hb => ?_, fun b hb => ?_⟩
  · exact hframe b (fun hzs => h.apart b hzs hb) (ne_of_mem_of_not_mem hb hws)
  · rcases List.mem_cons.1 hb with rfl | hb
    · exact hws
    · exact h.apart b hb
  · by_cases hba : b = a
    · exact .inl (by simp [hba])
    · by_cases hzs : b ∈ zs.map Prod.fst
      · exact .inl (List.mem_cons_of_mem _ hzs)
      · rw [hframe b hzs hba] at hb
        exact .inr ((h.all b hb).resolve_left hzs)

/-! ## The views of the lists -/

/-- The views of a list. -/
def viewsOf (zs : List (ν × ViewPoolNode)) : Multiset ℕ := ↑(zs.map fun z => z.2.item)

omit [DecidableEq ν] in
theorem viewsOf_cons (z : ν × ViewPoolNode) (zs : List (ν × ViewPoolNode)) :
    viewsOf (z :: zs) = z.2.item ::ₘ viewsOf zs := rfl

omit [DecidableEq ν] in
theorem viewsOf_middle (as : List (ν × ViewPoolNode)) (z : ν × ViewPoolNode)
    (bs : List (ν × ViewPoolNode)) : viewsOf (as ++ z :: bs) = z.2.item ::ₘ viewsOf (as ++ bs) :=
  Multiset.coe_eq_coe.2 (List.perm_middle.map _)

omit [DecidableEq ν] in
theorem mem_viewsOf {zs : List (ν × ViewPoolNode)} {view : ℕ} :
    view ∈ viewsOf zs ↔ ∃ z ∈ zs, z.2.item = view := by
  rw [viewsOf, Multiset.mem_coe, List.mem_map]

variable {p p' : PoolState ν} {fuel : ℕ}

/-- `grid_recycle_item` moves a view to the free pool. -/
theorem Pools.recycle (h : Pools p.heap p.pool_inuse p.pool_free zs ws) {position : ℤ}
    {optional : Bool} (hrun : gridRecycleItem fuel position optional a p = some p') :
    ∃ zs' ws', Pools p'.heap p'.pool_inuse p'.pool_free zs' ws' ∧
      viewsOf zs' + viewsOf ws' = viewsOf zs + viewsOf ws := by
  rw [gridRecycleItem, Option.bind_eq_bind, Option.bind_eq_some_iff] at hrun
  obtain ⟨⟨item, pool_inuse, heap⟩, htake, hrun⟩ := hrun
  rcases of_takeByPosition h.inuse htake with
    ⟨rfl, rfl, rfl, -⟩ | ⟨as, z, bs, rfl, -, -, rfl, hremoved⟩
  · dsimp only at hrun
    split at hrun
    · cases hrun
      exact ⟨zs, ws, h, rfl⟩
    · cases hrun
  · obtain ⟨⟨pool_free, heap'⟩, hput, hrun⟩ := Option.bind_eq_some_iff.1 hrun
    cases hrun
    refine ⟨_, _, ((h.removed hremoved).symm.put hput).symm, ?_⟩
    rw [viewsOf_cons, Multiset.add_cons, ← Multiset.cons_add]
    exact (congrArg (· + _) (viewsOf_middle as z bs)).symm

/-- `grid_obtain_item` moves a view to the in-use pool, or puts a new one
there. -/
theorem Pools.obtain (h : Pools p.heap p.pool_inuse p.pool_free zs ws) {position : ℤ} {view : ℕ}
    {obtained : Obtained} (hrun : gridObtainItem fuel position view a p = some (p', obtained)) :
    (obtained.create_view = false ∧ ∃ zs' ws', Pools p'.heap p'.pool_inuse p'.pool_free zs' ws' ∧
      viewsOf zs' + viewsOf ws' = viewsOf zs + viewsOf ws) ∨
    (obtained.create_view = true ∧ (∀ z ∈ zs, z.2.position ≠ position) ∧ ws = [] ∧
      Pools p'.heap p'.pool_inuse p'.pool_free ((a, ⟨position, view⟩) :: zs) []) := by
  rw [gridObtainItem, Option.bind_eq_bind, Option.bind_eq_some_iff] at hrun
  obtain ⟨found, hfind, hrun⟩ := hrun
  cases found with
  | some cur =>
      obtain ⟨node, -, hrun⟩ := Option.bind_eq_some_iff.1 hrun
      cases hrun
      exact .inl ⟨rfl, zs, ws, h, rfl⟩
  | none =>
      have hposition := none_of_find h.inuse hfind
      obtain ⟨⟨item, pool_free, heap⟩, hpoll, hrun⟩ := Option.bind_eq_some_iff.1 hrun
      rcases viewPoolPoll_eq h.free with ⟨rfl, hnone, hempty⟩ | ⟨z, bs, _, _, rfl, hsome, hremoved⟩
      · cases hnone.symm.trans hpoll
        obtain ⟨⟨pool_inuse, heap'⟩, hput, hrun⟩ := Option.bind_eq_some_iff.1 hrun
        cases hrun
        have hpools := h.put hput
        rw [hempty] at hpools
        exact .inr ⟨rfl, by simpa using hposition, rfl, hpools⟩
      · cases hsome.symm.trans hpoll
        obtain ⟨⟨pool_inuse, heap'⟩, hput, hrun⟩ := Option.bind_eq_some_iff.1 hrun
        cases hrun
        have hsplit : Pools p.heap p.pool_free p.pool_inuse ([] ++ z :: bs) zs := h.symm
        refine .inl ⟨rfl, _, _, (hsplit.removed hremoved).symm.put hput, ?_⟩
        rw [viewsOf_cons, Multiset.cons_add, ← Multiset.add_cons]
        rfl

/-- What `view_pool_remove_by_instance` does to a list and its views. -/
theorem Pools.remove (h : Pools heap inuse free zs ws) {obj : ℕ}
    (hrun : heap.viewPoolRemoveByInstance fuel inuse obj = some (inuse', heap')) :
    ∃ zs', Pools heap' inuse' free zs' ws ∧ viewsOf zs' = (viewsOf zs).erase obj := by
  rcases of_removeByInstance h.inuse hrun with
    ⟨rfl, rfl, hnone⟩ | ⟨as, z, bs, rfl, rfl, -, hremoved⟩
  · refine ⟨zs, h, (Multiset.erase_of_notMem fun hmem => ?_).symm⟩
    obtain ⟨z, hz, hitem⟩ := mem_viewsOf.1 hmem
    exact hnone z hz hitem
  · exact ⟨_, h.removed hremoved, by rw [viewsOf_middle, Multiset.erase_cons_head]⟩

/-- An element of a multiset without duplicates is erased from the summand that
it is in. -/
theorem erase_add_erase {α : Type*} [DecidableEq α] {s t : Multiset α} (h : (s + t).Nodup) (x : α) :
    s.erase x + t.erase x = (s + t).erase x := by
  by_cases hs : x ∈ s
  · have ht : x ∉ t := fun ht => Multiset.disjoint_left.1 (Multiset.nodup_add.1 h).2.2 hs ht
    rw [Multiset.erase_of_notMem ht, Multiset.erase_add_left_pos t hs]
  · rw [Multiset.erase_of_notMem hs, Multiset.erase_add_right_neg t hs]

/-- `item_delete_cb` takes a view off the pool that it is in. -/
theorem Pools.delete (h : Pools p.heap p.pool_inuse p.pool_free zs ws)
    (hnodup : (viewsOf zs + viewsOf ws).Nodup) {obj : ℕ}
    (hrun : itemDeleteCb fuel obj p = some p') :
    ∃ zs' ws', Pools p'.heap p'.pool_inuse p'.pool_free zs' ws' ∧
      viewsOf zs' + viewsOf ws' = (viewsOf zs + viewsOf ws).erase obj := by
  rw [itemDeleteCb, Option.bind_eq_bind, Option.bind_eq_some_iff] at hrun
  obtain ⟨⟨pool_inuse, heap₁⟩, hinuse, hrun⟩ := hrun
  obtain ⟨⟨pool_free, heap₂⟩, hfree, hrun⟩ := Option.bind_eq_some_iff.1 hrun
  cases hrun
  obtain ⟨zs', hpools, hzs⟩ := h.remove hinuse
  obtain ⟨ws', hpools, hws⟩ := hpools.symm.remove hfree
  exact ⟨zs', ws', hpools.symm, by rw [hzs, hws, erase_add_erase hnodup]⟩

/-! ## The views that exist -/

/-- The pools are two lists, and their nodes hold each view that exists once. -/
structure Conserves (s : PoolRun ν) (zs ws : List (ν × ViewPoolNode)) : Prop where
  pools : Pools s.heap s.pool_inuse s.pool_free zs ws
  views : viewsOf zs + viewsOf ws = s.live.val

variable {s s' : PoolRun ν}

/-! ## Runs -/

/-- No call loses a view: the pools hold what the calls say. -/
theorem Conserves.exec (h : Conserves s zs ws) {call : Call ν}
    (hrun : call.exec fuel s = some s') : ∃ zs' ws', Conserves s' zs' ws' := by
  cases call with
  | obtain position view a =>
      obtain ⟨⟨pools, obtained⟩, hobtain, hlive⟩ := Option.bind_eq_some_iff.1 hrun
      rcases h.pools.obtain hobtain with
        ⟨hcreate, zs', ws', hpools, hviews⟩ | ⟨hcreate, -, rfl, hpools⟩
      · simp only [hcreate, Bool.false_eq_true, if_false, Option.some.injEq] at hlive
        subst hlive
        exact ⟨zs', ws', hpools, hviews.trans h.views⟩
      · simp only [hcreate, if_true] at hlive
        split at hlive
        · cases hlive
        · next hfresh =>
            cases hlive
            refine ⟨_, [], hpools, ?_⟩
            rw [viewsOf_cons, Multiset.cons_add, h.views, Finset.insert_val_of_notMem hfresh]
  | recycle position optional a =>
      obtain ⟨pools, hrecycle, hlive⟩ := Option.bind_eq_some_iff.1 hrun
      cases hlive
      obtain ⟨zs', ws', hpools, hviews⟩ := h.pools.recycle hrecycle
      exact ⟨zs', ws', hpools, hviews.trans h.views⟩
  | delete obj =>
      obtain ⟨pools, hdelete, hlive⟩ := Option.bind_eq_some_iff.1 hrun
      cases hlive
      obtain ⟨zs', ws', hpools, hviews⟩ := h.pools.delete (h.views ▸ s.live.nodup) hdelete
      refine ⟨zs', ws', hpools, ?_⟩
      rw [hviews, h.views, Finset.erase_val]

omit [DecidableEq ν] in
theorem conserves_empty : Conserves (⟨⟨fun _ => none, none, none⟩, ∅⟩ : PoolRun ν) [] [] where
  pools := ⟨⟨rfl, by simp⟩, ⟨rfl, by simp⟩, by simp, fun _ ha => by cases ha⟩
  views := rfl

theorem conserves_run {calls : List (ℕ × Call ν)} (hrun : run calls = some s) :
    ∃ zs ws, Conserves s zs ws := by
  have hfold : ∀ (calls : List (ℕ × Call ν)) {s₀ : PoolRun ν}, (∃ zs ws, Conserves s₀ zs ws) →
      calls.foldlM (fun s (fuel, call) => Call.exec fuel s call) s₀ = some s →
        ∃ zs ws, Conserves s zs ws := by
    intro calls
    induction calls with
    | nil =>
        rintro s₀ h hrun
        cases hrun
        exact h
    | cons call calls ih =>
        rintro s₀ ⟨zs, ws, h⟩ hrun
        rw [List.foldlM_cons] at hrun
        obtain ⟨s₁, hexec, hrun⟩ := Option.bind_eq_some_iff.1 hrun
        exact ih (h.exec hexec) hrun
  exact hfold calls ⟨[], [], conserves_empty⟩ hrun

/-! ## Returning -/

omit [DecidableEq ν] in
/-- Memory that is not allocated is that of no node, also after one is taken
off. -/
theorem Pools.removed_eq_none (h : Pools heap inuse free (as ++ z :: bs) ws)
    (hremoved : Removed heap heap' inuse' as z bs) (ha : heap a = none) : heap' a = none := by
  rw [hremoved.frame a fun hmem => ?_, ha]
  have hsome := h.inuse.isSome hmem
  rw [ha] at hsome
  cases hsome

theorem Pools.recycle_returns (h : Pools p.heap p.pool_inuse p.pool_free zs ws)
    (hfuel : zs.length ≤ fuel) {position : ℤ} {optional : Bool} (ha : p.heap a = none)
    (hposition : optional = true ∨ ∃ z ∈ zs, z.2.position = position) :
    ∃ s', gridRecycleItem fuel position optional a p = some s' := by
  obtain ⟨⟨item, pool_inuse, heap⟩, htake⟩ := takeByPosition_returns h.inuse hfuel position
  rw [gridRecycleItem, htake, Option.bind_eq_bind, Option.bind_some]
  rcases of_takeByPosition h.inuse htake with
    ⟨rfl, -, -, hnone⟩ | ⟨as, z, bs, rfl, -, -, rfl, hremoved⟩
  · have hoptional : optional = true := hposition.resolve_right fun ⟨z, hz, hat⟩ => hnone z hz hat
    exact ⟨_, if_pos hoptional⟩
  · have hpools := h.removed hremoved
    obtain ⟨heap', hput, -, -⟩ := viewPoolPut_eq hpools.free
      (h.removed_eq_none hremoved ha) (-1) z.2.item
    exact ⟨_, congrArg (Option.bind · _) hput⟩

theorem Pools.obtain_returns (h : Pools p.heap p.pool_inuse p.pool_free zs ws)
    (hfuel : zs.length ≤ fuel) (position : ℤ) (view : ℕ) (ha : p.heap a = none) :
    ∃ r, gridObtainItem fuel position view a p = some r := by
  obtain ⟨found, hfind⟩ := find_returns h.inuse (·.position == position) hfuel
  rw [gridObtainItem, Heap.viewPoolNodeByPosition, hfind, Option.bind_eq_bind, Option.bind_some]
  cases found with
  | some cur =>
      obtain ⟨as, z, bs, rfl, rfl, -, -⟩ := split_of_find h.inuse hfind
      obtain ⟨node, hnode, -⟩ := Option.map_eq_some_iff.1 (h.inuse.data z (by simp))
      exact ⟨_, congrArg (Option.bind · _) hnode⟩
  | none =>
      rcases viewPoolPoll_eq h.free with
        ⟨rfl, hnone, -⟩ | ⟨z, bs, pool_free, heap, rfl, hsome, hremoved⟩
      · obtain ⟨heap', hput, -, -⟩ := viewPoolPut_eq h.inuse ha position view
        simp only [hnone, hput, Option.bind_eq_bind, Option.bind_some]
        exact ⟨_, rfl⟩
      · have hsplit : Pools p.heap p.pool_free p.pool_inuse ([] ++ z :: bs) zs := h.symm
        have hpools := hsplit.removed hremoved
        obtain ⟨heap', hput, -, -⟩ := viewPoolPut_eq hpools.free
          (hsplit.removed_eq_none hremoved ha) position z.2.item
        simp only [hsome, hput, Option.bind_eq_bind, Option.bind_some]
        exact ⟨_, rfl⟩

theorem Pools.delete_returns (h : Pools p.heap p.pool_inuse p.pool_free zs ws)
    (hzs : zs.length ≤ fuel) (hws : ws.length ≤ fuel) (obj : ℕ) :
    ∃ s', itemDeleteCb fuel obj p = some s' := by
  obtain ⟨⟨pool_inuse, heap₁⟩, hinuse⟩ := removeByInstance_returns h.inuse hzs obj
  obtain ⟨zs', hpools, -⟩ := h.remove hinuse
  obtain ⟨⟨pool_free, heap₂⟩, hfree⟩ := removeByInstance_returns hpools.free hws obj
  simp only [itemDeleteCb, hinuse, hfree, Option.bind_eq_bind, Option.bind_some]
  exact ⟨_, rfl⟩

/-! ## Conservation -/

/-- The object of a node. -/
def itemAt (heap : Heap ν) (a : ν) : Option ℕ := (heap a).map (·.item)

/-- The position of a node. -/
def positionAt (heap : Heap ν) (a : ν) : Option ℤ := (heap a).map (·.position)

/-- The nodes `xs` are the in-use pool and `ys` the free pool; each view that
exists is in one of them, and no other view is in any.  A view is created only
where no other can be taken, and every call returns, unless it fails the
assertion. -/
structure Conserved (s : PoolRun ν) (xs ys : List ν) : Prop where
  inuse : Linked (links s.heap) s.pool_inuse xs
  free : Linked (links s.heap) s.pool_free ys
  apart : (xs ++ ys).Nodup
  held : ∀ view ∈ s.live, ∃! a, a ∈ xs ++ ys ∧ itemAt s.heap a = some view
  only : ∀ a ∈ xs ++ ys, ∃ view ∈ s.live, itemAt s.heap a = some view
  gone : ∀ view ∉ s.live, ∀ a ∈ xs ++ ys, itemAt s.heap a ≠ some view
  creates : ∀ fuel position view a s' obtained,
    gridObtainItem fuel position view a s.toPoolState = some (s', obtained) →
      obtained.create_view = true → (∀ x ∈ xs, positionAt s.heap x ≠ some position) ∧ ys = []
  obtains : ∀ fuel position view a, (xs ++ ys).length ≤ fuel → s.heap a = none →
    ∃ r, gridObtainItem fuel position view a s.toPoolState = some r
  recycles : ∀ fuel position optional a, (xs ++ ys).length ≤ fuel → s.heap a = none →
    (optional = true ∨ ∃ x ∈ xs, positionAt s.heap x = some position) →
      ∃ s', gridRecycleItem fuel position optional a s.toPoolState = some s'
  deletes : ∀ fuel obj, (xs ++ ys).length ≤ fuel →
    ∃ s', itemDeleteCb fuel obj s.toPoolState = some s'

omit [DecidableEq ν] in
/-- A node of a list has its data. -/
theorem at_of_mem {head : Option ν} (h : Represents heap head zs) (hz : z ∈ zs) :
    itemAt heap z.1 = some z.2.item ∧ positionAt heap z.1 = some z.2.position := by
  obtain ⟨node, hnode, hdata⟩ := Option.map_eq_some_iff.1 (h.data z hz)
  rw [itemAt, positionAt, hnode, ← hdata]
  exact ⟨rfl, rfl⟩

omit [DecidableEq ν] in
theorem Conserves.itemAt (h : Conserves s zs ws) (hz : z ∈ zs ++ ws) :
    itemAt s.heap z.1 = some z.2.item := by
  rcases List.mem_append.1 hz with hz | hz
  · exact (at_of_mem h.pools.inuse hz).1
  · exact (at_of_mem h.pools.free hz).1

omit [DecidableEq ν] in
theorem Conserves.viewsOf_append (h : Conserves s zs ws) : viewsOf (zs ++ ws) = s.live.val := by
  rw [← h.views, viewsOf, List.map_append, ← Multiset.coe_add]
  rfl

omit [DecidableEq ν] in
theorem Conserves.mem_live (h : Conserves s zs ws) {view : ℕ} :
    view ∈ s.live ↔ ∃ z ∈ zs ++ ws, z.2.item = view := by
  rw [← mem_viewsOf, h.viewsOf_append, Finset.mem_val]

omit [DecidableEq ν] in
/-- A view that exists is in one node. -/
theorem Conserves.held (h : Conserves s zs ws) {view : ℕ} (hview : view ∈ s.live) :
    ∃! a, a ∈ (zs ++ ws).map Prod.fst ∧ PoolState.itemAt s.heap a = some view := by
  have hviews : (viewsOf (zs ++ ws)).Nodup := h.viewsOf_append ▸ s.live.nodup
  have hnodup : ((zs ++ ws).map fun z => z.2.item).Nodup := Multiset.coe_nodup.1 hviews
  obtain ⟨z, hz, rfl⟩ := h.mem_live.1 hview
  refine ⟨z.1, ⟨List.mem_map_of_mem hz, h.itemAt hz⟩, ?_⟩
  rintro a ⟨ha, hitem⟩
  obtain ⟨y, hy, rfl⟩ := List.mem_map.1 ha
  rw [h.itemAt hy, Option.some.injEq] at hitem
  rw [List.inj_on_of_nodup_map hnodup hy hz hitem]

omit [DecidableEq ν] in
/-- A node holds a view that exists. -/
theorem Conserves.only (h : Conserves s zs ws) {a : ν} (ha : a ∈ (zs ++ ws).map Prod.fst) :
    ∃ view ∈ s.live, PoolState.itemAt s.heap a = some view := by
  obtain ⟨z, hz, rfl⟩ := List.mem_map.1 ha
  exact ⟨z.2.item, h.mem_live.2 ⟨z, hz, rfl⟩, h.itemAt hz⟩

omit [DecidableEq ν] in
/-- A view that was deleted, or never created, is in no node. -/
theorem Conserves.gone (h : Conserves s zs ws) {view : ℕ} (hview : view ∉ s.live) {a : ν}
    (ha : a ∈ (zs ++ ws).map Prod.fst) : PoolState.itemAt s.heap a ≠ some view := by
  obtain ⟨other, hother, hitem⟩ := h.only ha
  rw [hitem, ne_eq, Option.some.injEq]
  exact ne_of_mem_of_not_mem hother hview

theorem Conserves.conserved (h : Conserves s zs ws) :
    Conserved s (zs.map Prod.fst) (ws.map Prod.fst) := by
  have hlen : (zs.map Prod.fst ++ ws.map Prod.fst).length = zs.length + ws.length := by simp
  refine
    { inuse := h.pools.inuse.linked
      free := h.pools.free.linked
      apart := List.nodup_append.2 ⟨h.pools.inuse.linked.forward.nodup,
        h.pools.free.linked.forward.nodup, fun a ha b hb hab => h.pools.apart a ha (hab ▸ hb)⟩
      held := fun view hview => List.map_append ▸ h.held hview
      only := fun a ha => h.only (List.map_append ▸ ha)
      gone := fun view hview a ha => h.gone hview (List.map_append ▸ ha)
      obtains := fun fuel position view a hfuel ha =>
        h.pools.obtain_returns (by omega) position view ha
      deletes := fun fuel obj hfuel => h.pools.delete_returns (by omega) (by omega) obj
      creates := ?_, recycles := ?_ }
  · intro fuel position view a s' obtained hrun hcreate
    rcases h.pools.obtain hrun with ⟨hnot, -⟩ | ⟨-, hposition, rfl, -⟩
    · rw [hcreate] at hnot
      cases hnot
    refine ⟨fun x hx => ?_, rfl⟩
    obtain ⟨z, hz, rfl⟩ := List.mem_map.1 hx
    rw [(at_of_mem h.pools.inuse hz).2, ne_eq, Option.some.injEq]
    exact hposition z hz
  · intro fuel position optional a hfuel ha hposition
    refine h.pools.recycle_returns (by omega) ha (hposition.imp_right ?_)
    rintro ⟨x, hx, hat⟩
    obtain ⟨z, hz, rfl⟩ := List.mem_map.1 hx
    rw [(at_of_mem h.pools.inuse hz).2, Option.some.injEq] at hat
    exact ⟨z, hz, hat⟩

/-- **After any calls both pools are well-formed lists, and each view that was
created and not deleted is in one node of one of them.** -/
theorem pools_conserve_views {calls : List (ℕ × Call ν)} (hrun : run calls = some s) :
    ∃ xs ys, Conserved s xs ys := by
  obtain ⟨zs, ws, h⟩ := conserves_run hrun
  exact ⟨_, _, h.conserved⟩

/-- Two views are created, one is recycled and used again, and the other is
deleted: it is in no node, and the first is in one. -/
theorem pools_conserve_views_two :
    ∃ (s : PoolRun ℕ) (xs ys : List ℕ), run [(0, .obtain 0 10 100), (1, .obtain 1 11 101),
      (2, .recycle 0 false 102), (1, .obtain 5 12 100), (2, .delete 11)] = some s ∧
      Conserved s xs ys ∧ (∀ a ∈ xs ++ ys, itemAt s.heap a ≠ some 11) ∧
      ∃! a, a ∈ xs ++ ys ∧ itemAt s.heap a = some 10 := by
  obtain ⟨s, hs, hlive⟩ : ∃ s : PoolRun ℕ, run [(0, .obtain 0 10 100), (1, .obtain 1 11 101),
      (2, .recycle 0 false 102), (1, .obtain 5 12 100), (2, .delete 11)] = some s ∧
      s.live = {10} := ⟨_, rfl, by decide⟩
  obtain ⟨xs, ys, h⟩ := pools_conserve_views hs
  exact ⟨s, xs, ys, hs, h, h.gone 11 (by rw [hlive]; decide), h.held 10 (by rw [hlive]; decide)⟩

end PoolState

end CommonsC.GridView
