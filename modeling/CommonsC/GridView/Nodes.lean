import CommonsC.GridView.Model
import CommonsC.LinkedList.Sequence

/-!
# CommonsC.GridView.Nodes

The pools of views at the level of their nodes.

A node is read and written only where it is allocated: `none` is an access to
memory that is not, a failed assertion, or a search that does not come to an end
within its fuel.
`Represents heap head zs` says that `head` is a well-formed doubly linked list
of the nodes `zs`, each with its data.  The links are those of
`CommonsC.LinkedList`, so that `view_pool_node_unlink` need only be shown to do
to them what `remove` of the header does (`viewPoolNodeUnlink_eq`).

Each operation takes a node off its list or puts one in front, and changes no node
off the list (`Removed`, `viewPoolPut_eq`).
-/

namespace CommonsC.GridView

open Function (update)
open LinkedList (Links Linked Forward SameOff)

/-- `view_pool_ll_t`. -/
structure Node (ν : Type*) extends ViewPoolNode where
  prev : Option ν
  next : Option ν

/-- The nodes at their addresses; `none` is memory that is not allocated. -/
abbrev Heap (ν : Type*) := ν → Option (Node ν)

namespace Heap

variable {ν : Type*}

/-- The links of the nodes. -/
def links (heap : Heap ν) : Links ν where
  prev a := (heap a).bind Node.prev
  next a := (heap a).bind Node.next

/-- The data of a node. -/
def dataAt (heap : Heap ν) (a : ν) : Option ViewPoolNode := (heap a).map Node.toViewPoolNode

/-! ## The code -/

/-- The loop of `view_pool_node_by_position` and `view_pool_node_by_instance`. -/
def find (heap : Heap ν) (p : ViewPoolNode → Bool) : Nat → Option ν → Option (Option ν)
  | _, none => some none
  | 0, some _ => none
  | fuel + 1, some cur => do
      let node ← heap cur
      if p node.toViewPoolNode then some (some cur) else find heap p fuel node.next

/-- `view_pool_node_by_position`. -/
def viewPoolNodeByPosition (heap : Heap ν) (fuel : Nat) (pool : Option ν) (position : Int) :
    Option (Option ν) :=
  find heap (·.position == position) fuel pool

/-- `view_pool_node_by_instance`. -/
def viewPoolNodeByInstance (heap : Heap ν) (fuel : Nat) (pool : Option ν) (obj : Nat) :
    Option (Option ν) :=
  find heap (·.item == obj) fuel pool

variable [DecidableEq ν]

/-- Write to a node. -/
def store (heap : Heap ν) (a : ν) (change : Node ν → Node ν) : Option (Heap ν) :=
  (heap a).map fun node => update heap a (some (change node))

/-- `lv_mem_free`. -/
def memFree (heap : Heap ν) (a : ν) : Option (Heap ν) := (heap a).map fun _ => update heap a none

/-- `if (p) p->next = next; else head = next;`. -/
def storeNext (heap : Heap ν) (head p next : Option ν) : Option (Option ν × Heap ν) :=
  match p with
  | some p => (store heap p ({ · with next })).map (head, ·)
  | none => some (next, heap)

/-- `if (q) q->prev = prev;`. -/
def storePrev (heap : Heap ν) (q prev : Option ν) : Option (Heap ν) :=
  match q with
  | some q => store heap q ({ · with prev })
  | none => some heap

/-- `view_pool_node_unlink`: the new head.  It asserts that there is a head. -/
def viewPoolNodeUnlink (heap : Heap ν) (head : Option ν) (cur : ν) :
    Option (Option ν × Heap ν) :=
  if head.isNone then none
  else do
    let prev := (← heap cur).prev
    let (head, heap) ← storeNext heap head prev (← heap cur).next
    let heap ← storePrev heap (← heap cur).next prev
    some (head, heap)

/-- `*pool = view_pool_node_unlink(*pool, node); lv_mem_free(node);`. -/
def removeNode (heap : Heap ν) (pool : Option ν) (node : ν) : Option (Option ν × Heap ν) := do
  let (pool, heap) ← viewPoolNodeUnlink heap pool node
  let heap ← memFree heap node
  some (pool, heap)

/-- `view_pool_take_by_position`: the item, the new head. -/
def viewPoolTakeByPosition (heap : Heap ν) (fuel : Nat) (pool : Option ν) (position : Int) :
    Option (Option Nat × Option ν × Heap ν) := do
  match ← viewPoolNodeByPosition heap fuel pool position with
  | none => some (none, pool, heap)
  | some node => do
      let item := (← heap node).item
      let (pool, heap) ← removeNode heap pool node
      some (some item, pool, heap)

/-- `view_pool_remove_by_instance`: the new head. -/
def viewPoolRemoveByInstance (heap : Heap ν) (fuel : Nat) (pool : Option ν) (obj : Nat) :
    Option (Option ν × Heap ν) := do
  match ← viewPoolNodeByInstance heap fuel pool obj with
  | none => some (pool, heap)
  | some node => removeNode heap pool node

/-- `view_pool_poll`: the item, the new head. -/
def viewPoolPoll (heap : Heap ν) (pool : Option ν) : Option (Option Nat × Option ν × Heap ν) :=
  match pool with
  | none => some (none, none, heap)
  | some head => do
      let item := (← heap head).item
      let heap ← storePrev heap (← heap head).next none
      let pool := (← heap head).next
      let heap ← memFree heap head
      some (some item, pool, heap)

/-- `view_pool_put`: the new head, which `lv_mem_alloc` returns: memory that was
not allocated.  It is taken to succeed. -/
def viewPoolPut (heap : Heap ν) (pool : Option ν) (head : ν) (position : Int) (value : Nat) :
    Option (Option ν × Heap ν) :=
  if (heap head).isSome then none
  else do
    let old_head := pool
    let heap := update heap head (some { position, item := value, prev := none, next := old_head })
    let heap ← storePrev heap old_head (some head)
    some (some head, heap)

/-! ## Writes -/

section

omit [DecidableEq ν]

variable {heap heap' : Heap ν} {a : ν}

theorem isSome_dataAt (heap : Heap ν) (a : ν) : (dataAt heap a).isSome = (heap a).isSome :=
  Option.isSome_map

/-- A node that is allocated has links. -/
theorem exists_node (h : (heap a).isSome) :
    ∃ node, heap a = some node ∧ node.prev = (links heap).prev a ∧
      node.next = (links heap).next a := by
  obtain ⟨node, hnode⟩ := Option.isSome_iff_exists.1 h
  exact ⟨node, hnode, (congrArg (·.bind Node.prev) hnode).symm,
    (congrArg (·.bind Node.next) hnode).symm⟩

/-- A node is its data and its links. -/
theorem eq_of_same (hdata : dataAt heap' a = dataAt heap a)
    (hprev : (links heap').prev a = (links heap).prev a)
    (hnext : (links heap').next a = (links heap).next a) : heap' a = heap a := by
  rw [dataAt, dataAt] at hdata
  simp only [links] at hprev hnext
  cases h : heap a with
  | none =>
      rw [h] at hdata
      exact Option.map_eq_none_iff.1 hdata
  | some node =>
      cases h' : heap' a with
      | none => simp [h, h'] at hdata
      | some node' =>
          rw [h, h'] at hdata hprev hnext
          obtain ⟨data, prev, next⟩ := node
          obtain ⟨data', prev', next'⟩ := node'
          cases hdata
          cases hprev
          cases hnext
          rfl

end

variable {heap heap' : Heap ν} {a : ν}

/-- The write keeps the data of all nodes. -/
def SameData (heap heap' : Heap ν) : Prop := ∀ a, dataAt heap' a = dataAt heap a

omit [DecidableEq ν] in
theorem SameData.isSome (h : SameData heap heap') (a : ν) : (heap' a).isSome = (heap a).isSome := by
  rw [← isSome_dataAt, h, isSome_dataAt]

theorem sameData_update {node node' : Node ν} (h : heap a = some node)
    (hsame : node'.toViewPoolNode = node.toViewPoolNode) :
    SameData heap (update heap a (some node')) := by
  intro b
  by_cases hb : b = a
  · subst hb
    simp [dataAt, h, hsame]
  · simp [dataAt, hb]

/-- The links after a write to a node. -/
theorem links_update (heap : Heap ν) (a : ν) (node : Node ν) :
    links (update heap a (some node)) =
      ((links heap).setPrev a node.prev).setNext a node.next := by
  rw [links, Links.setNext, Links.setPrev, Links.mk.injEq]
  constructor <;> funext b <;> by_cases hb : b = a
  · simp [hb]
  · simp [hb, links]
  · simp [hb]
  · simp [hb, links]

/-- `if (p) p->next = next; else head = next;` changes this link. -/
theorem storeNext_eq {p : Option ν} (h : ∀ a ∈ p, (heap a).isSome) (head next : Option ν) :
    ∃ heap', storeNext heap head p next = some (p.elim next fun _ => head, heap') ∧
      links heap' = (p.elim (links heap) fun a => (links heap).setNext a next) ∧
      SameData heap heap' := by
  cases p with
  | none => exact ⟨heap, rfl, rfl, fun _ => rfl⟩
  | some a =>
      obtain ⟨node, hnode, hprev, -⟩ := exists_node (h a rfl)
      have hstore :
          store heap a ({ · with next }) = some (update heap a (some { node with next })) :=
        congrArg (Option.map _) hnode
      refine ⟨_, congrArg (Option.map _) hstore, ?_, sameData_update hnode rfl⟩
      rw [links_update, hprev, Links.setPrev, Function.update_eq_self]
      rfl

/-- `if (q) q->prev = prev;` changes this link. -/
theorem storePrev_eq {q : Option ν} (h : ∀ a ∈ q, (heap a).isSome) (prev : Option ν) :
    ∃ heap', storePrev heap q prev = some heap' ∧
      links heap' = (q.elim (links heap) fun a => (links heap).setPrev a prev) ∧
      SameData heap heap' := by
  cases q with
  | none => exact ⟨heap, rfl, rfl, fun _ => rfl⟩
  | some a =>
      obtain ⟨node, hnode, -, hnext⟩ := exists_node (h a rfl)
      have hstore :
          store heap a ({ · with prev }) = some (update heap a (some { node with prev })) :=
        congrArg (Option.map _) hnode
      refine ⟨_, hstore, ?_, sameData_update hnode rfl⟩
      rw [links_update, hnext]
      exact congrArg (Links.mk _) (Function.update_eq_self a (links heap).next)

/-- `view_pool_node_unlink` does to the links what `remove` of the header
does. -/
theorem viewPoolNodeUnlink_eq {head : Option ν} (hhead : head.isSome) (h : (heap a).isSome)
    (hprev : ∀ p ∈ (links heap).prev a, p ≠ a ∧ (heap p).isSome)
    (hnext : ∀ q ∈ (links heap).next a, (heap q).isSome) :
    ∃ heap', viewPoolNodeUnlink heap head a = some (((links heap).remove head a).1, heap') ∧
      links heap' = ((links heap).remove head a).2 ∧ SameData heap heap' := by
  obtain ⟨node, hnode, hp, hn⟩ := exists_node h
  obtain ⟨heap₁, hfirst, hlinks₁, hdata₁⟩ :=
    storeNext_eq (fun p hp => (hprev p hp).2) head ((links heap).next a)
  -- The node still leads to the same one.
  obtain ⟨node₁, hnode₁, -, hn₁⟩ := exists_node ((hdata₁.isSome a).trans h)
  have hsame : (links heap₁).next a = (links heap).next a := by
    rw [hlinks₁]
    cases hcase : (links heap).prev a with
    | none => rfl
    | some p => exact Function.update_of_ne (hprev p hcase).1.symm _ _
  obtain ⟨heap₂, hsecond, hlinks₂, hdata₂⟩ :=
    storePrev_eq (fun q hq => (hdata₁.isSome q).trans (hnext q hq)) ((links heap).prev a)
  refine ⟨heap₂, ?_, ?_, fun b => (hdata₂ b).trans (hdata₁ b)⟩
  · rw [viewPoolNodeUnlink, if_neg (by simpa using Option.isSome_iff_ne_none.1 hhead),
      LinkedList.remove_eq, hnode]
    simp only [Option.bind_eq_bind, Option.bind_some, hp, hn, hfirst, hnode₁, hn₁, hsame, hsecond]
  · rw [hlinks₂, hlinks₁, LinkedList.remove_eq]

/-! ## Lists in the heap -/

/-- The nodes `zs`, each with its data, are a list from `head` on. -/
structure Represents (heap : Heap ν) (head : Option ν) (zs : List (ν × ViewPoolNode)) : Prop where
  linked : Linked (links heap) head (zs.map Prod.fst)
  data : ∀ z ∈ zs, dataAt heap z.1 = some z.2

variable {head pool pool' : Option ν} {zs as bs : List (ν × ViewPoolNode)} {z : ν × ViewPoolNode}

omit [DecidableEq ν] in
theorem Represents.isSome (h : Represents heap head zs) (ha : a ∈ zs.map Prod.fst) :
    (heap a).isSome := by
  obtain ⟨z, hz, rfl⟩ := List.mem_map.1 ha
  rw [← isSome_dataAt, h.data z hz]
  rfl

omit [DecidableEq ν] in
/-- A list depends on its own nodes only. -/
theorem Represents.frame (h : Represents heap head zs)
    (hsame : ∀ a ∈ zs.map Prod.fst, heap' a = heap a) : Represents heap' head zs where
  linked := LinkedList.Segment.frame h.linked fun a ha =>
    ⟨congrArg (·.bind Node.prev) (hsame a ha), congrArg (·.bind Node.next) (hsame a ha)⟩
  data z hz :=
    (congrArg (Option.map _) (hsame z.1 (List.mem_map_of_mem hz))).trans (h.data z hz)

omit [DecidableEq ν] in
/-- The search finds the first node with such data. -/
theorem eq_of_find (h : Represents heap head zs) {p : ViewPoolNode → Bool} {fuel : Nat}
    {r : Option ν} (hrun : find heap p fuel head = some r) :
    r = (zs.find? fun z => p z.2).map Prod.fst := by
  have hdata := h.data
  have hlinked := h.linked.forward
  clear h
  induction zs generalizing head fuel with
  | nil =>
      obtain rfl : head = none := hlinked
      cases fuel <;> exact (Option.some.inj hrun).symm
  | cons z zs ih =>
      obtain ⟨rfl, hrest⟩ := hlinked
      cases fuel with
      | zero => cases hrun
      | succ fuel =>
          obtain ⟨node, hnode, hz⟩ := Option.map_eq_some_iff.1 (hdata z List.mem_cons_self)
          have hnext : (links heap).next z.1 = node.next := congrArg (·.bind Node.next) hnode
          rw [find, hnode, Option.bind_eq_bind, Option.bind_some, hz] at hrun
          rw [hnext] at hrest
          cases hp : p z.2 with
          | true =>
              rw [if_pos hp] at hrun
              simp only [List.find?_cons, hp]
              exact (Option.some.inj hrun).symm
          | false =>
              rw [if_neg (by simp [hp])] at hrun
              simp only [List.find?_cons, hp]
              exact ih hrun (fun y hy => hdata y (List.mem_cons_of_mem _ hy)) hrest

omit [DecidableEq ν] in
/-- The list is cut at the node that is found. -/
theorem split_of_find (h : Represents heap head zs) {p : ViewPoolNode → Bool} {fuel : Nat}
    (hrun : find heap p fuel head = some (some a)) :
    ∃ as z bs, zs = as ++ z :: bs ∧ z.1 = a ∧ p z.2 ∧ ∀ y ∈ as, p y.2 = false := by
  obtain ⟨z, hz, rfl⟩ := Option.map_eq_some_iff.1 (eq_of_find h hrun).symm
  obtain ⟨hp, as, bs, rfl, has⟩ := List.find?_eq_some_iff_append.1 hz
  exact ⟨as, z, bs, rfl, rfl, hp, by simpa using has⟩

omit [DecidableEq ν] in
theorem none_of_find (h : Represents heap head zs) {p : ViewPoolNode → Bool} {fuel : Nat}
    (hrun : find heap p fuel head = some none) : ∀ z ∈ zs, p z.2 = false := by
  simpa using Option.map_eq_none_iff.1 (eq_of_find h hrun).symm

omit [DecidableEq ν] in
/-- The search comes to an end. -/
theorem find_returns (h : Represents heap head zs) (p : ViewPoolNode → Bool) {fuel : Nat}
    (hfuel : zs.length ≤ fuel) : ∃ r, find heap p fuel head = some r := by
  have hdata := h.data
  have hlinked := h.linked.forward
  clear h
  induction zs generalizing head fuel with
  | nil =>
      obtain rfl : head = none := hlinked
      cases fuel <;> exact ⟨none, rfl⟩
  | cons z zs ih =>
      obtain ⟨rfl, hrest⟩ := hlinked
      obtain ⟨fuel, rfl⟩ : ∃ k, fuel = k + 1 := ⟨fuel - 1, by simp at hfuel; omega⟩
      obtain ⟨node, hnode, hz⟩ := Option.map_eq_some_iff.1 (hdata z List.mem_cons_self)
      have hnext : (links heap).next z.1 = node.next := congrArg (·.bind Node.next) hnode
      rw [find, hnode, Option.bind_eq_bind, Option.bind_some]
      rw [hnext] at hrest
      split
      · exact ⟨_, rfl⟩
      · exact ih (by simpa using hfuel) (fun y hy => hdata y (List.mem_cons_of_mem _ hy)) hrest

/-! ## The operations on a list -/

/-- The node `z` is freed, and off the list from `head'` on. -/
structure Removed (heap heap' : Heap ν) (head' : Option ν) (as : List (ν × ViewPoolNode))
    (z : ν × ViewPoolNode) (bs : List (ν × ViewPoolNode)) : Prop where
  represents : Represents heap' head' (as ++ bs)
  freed : heap' z.1 = none
  frame : ∀ a ∉ (as ++ z :: bs).map Prod.fst, heap' a = heap a

/-- A node that is off the list is freed. -/
theorem memFree_removed {heap₁ : Heap ν} {head' : Option ν}
    (h : Represents heap head (as ++ z :: bs)) (hdata : SameData heap heap₁)
    (hlinked : Linked (links heap₁) head' ((as ++ bs).map Prod.fst))
    (hsame : SameOff (links heap) (links heap₁) (· ∈ (as ++ bs).map Prod.fst)) :
    ∃ heap', memFree heap₁ z.1 = some heap' ∧ Removed heap heap' head' as z bs := by
  have hnodup := h.linked.forward.nodup
  rw [List.map_append, List.map_cons, List.nodup_middle, List.nodup_cons, ← List.map_append]
    at hnodup
  have hz : z ∈ as ++ z :: bs := List.mem_append_right _ List.mem_cons_self
  obtain ⟨node, hnode⟩ := Option.isSome_iff_exists.1
    ((hdata.isSome z.1).trans (h.isSome (List.mem_map_of_mem hz)))
  have hfree : memFree heap₁ z.1 = some (update heap₁ z.1 none) := congrArg (Option.map _) hnode
  have hrest : Represents heap₁ head' (as ++ bs) := by
    refine ⟨hlinked, fun y hy => (hdata y.1).trans (h.data y ?_)⟩
    simp only [List.mem_append, List.mem_cons] at hy ⊢
    tauto
  refine ⟨_, hfree, ?_, Function.update_self _ _ _, fun a ha => ?_⟩
  · exact hrest.frame fun a ha => Function.update_of_ne (ne_of_mem_of_not_mem ha hnodup.1) _ _
  · simp only [List.map_append, List.map_cons, List.mem_append, List.mem_cons, not_or] at ha
    rw [Function.update_of_ne ha.2.1]
    obtain ⟨hp, hn⟩ := hsame a (by simp [ha])
    exact eq_of_same (hdata a) hp hn

/-- A node of a list is unlinked and freed. -/
theorem removeNode_eq (h : Represents heap head (as ++ z :: bs)) :
    ∃ head' heap', removeNode heap head z.1 = some (head', heap') ∧
      Removed heap heap' head' as z bs := by
  have hz : z ∈ as ++ z :: bs := List.mem_append_right _ List.mem_cons_self
  have hnodup := h.linked.forward.nodup
  have hlinked := h.linked
  rw [List.map_append, List.map_cons] at hlinked hnodup
  obtain ⟨mid, hfirst, rfl, hprev, hrest⟩ := LinkedList.segment_append.1 hlinked
  have hmem : z.1 ∉ as.map Prod.fst := fun hmem =>
    (List.nodup_append.1 hnodup).2.2 z.1 hmem z.1 List.mem_cons_self rfl
  have hsome : ∀ a ∈ as.map Prod.fst ++ bs.map Prod.fst, (heap a).isSome := by
    intro a ha
    refine h.isSome ?_
    simp only [List.map_append, List.map_cons, List.mem_append, List.mem_cons] at ha ⊢
    tauto
  have hhead : head.isSome := by
    rw [LinkedList.head_of_segment hlinked]
    simp
  obtain ⟨heap₁, hunlink, hlinks, hdata⟩ := viewPoolNodeUnlink_eq hhead
    (h.isSome (List.mem_map_of_mem hz))
    (fun p hp => by
      rw [hprev, Option.or_none] at hp
      have hp := List.mem_of_getLast? hp
      exact ⟨ne_of_mem_of_not_mem hp hmem, hsome p (List.mem_append_left _ hp)⟩)
    (fun q hq => by
      rw [LinkedList.head_of_segment hrest, Option.or_none] at hq
      exact hsome q (List.mem_append_right _ (List.mem_of_head? hq)))
  have hin : z.1 ∈ as.map Prod.fst ++ z.1 :: bs.map Prod.fst :=
    List.mem_append_right _ List.mem_cons_self
  obtain ⟨hremoved, hsame⟩ := LinkedList.remove_linked hlinked hin
  rw [List.erase_append_right _ hmem, List.erase_cons_head, ← List.map_append, ← hlinks]
    at hremoved hsame
  obtain ⟨heap', hfree, hfreed⟩ := memFree_removed h hdata hremoved hsame
  refine ⟨_, heap', ?_, hfreed⟩
  simp only [removeNode, hunlink, hfree, Option.bind_eq_bind, Option.bind_some]

/-- A search comes to an end, and a node that it finds can be removed. -/
theorem find_removes (h : Represents heap pool zs) (p : ViewPoolNode → Bool) {fuel : Nat}
    (hfuel : zs.length ≤ fuel) :
    ∃ found, find heap p fuel pool = some found ∧
      ∀ a ∈ found, ∃ node r, heap a = some node ∧ removeNode heap pool a = some r := by
  obtain ⟨found, hfind⟩ := find_returns h p hfuel
  refine ⟨found, hfind, ?_⟩
  rintro a rfl
  obtain ⟨as, z, bs, rfl, rfl, -, -⟩ := split_of_find h hfind
  obtain ⟨head', heap₁, hremove, -⟩ := removeNode_eq h
  obtain ⟨node, hnode, -⟩ := Option.map_eq_some_iff.1 (h.data z (by simp))
  exact ⟨node, _, hnode, hremove⟩

/-- What `view_pool_take_by_position` does: nothing, or the node at the position
is removed. -/
theorem of_takeByPosition (h : Represents heap pool zs) {fuel : Nat} {position : Int}
    {item : Option Nat}
    (hrun : viewPoolTakeByPosition heap fuel pool position = some (item, pool', heap')) :
    (item = none ∧ pool' = pool ∧ heap' = heap ∧ ∀ z ∈ zs, z.2.position ≠ position) ∨
      ∃ as z bs, zs = as ++ z :: bs ∧ z.2.position = position ∧
        (∀ y ∈ as, y.2.position ≠ position) ∧ item = some z.2.item ∧
        Removed heap heap' pool' as z bs := by
  rw [viewPoolTakeByPosition, viewPoolNodeByPosition, Option.bind_eq_bind,
    Option.bind_eq_some_iff] at hrun
  obtain ⟨found, hfind, hrun⟩ := hrun
  cases found with
  | none =>
      cases hrun
      exact .inl ⟨rfl, rfl, rfl, by simpa using none_of_find h hfind⟩
  | some a =>
      obtain ⟨as, z, bs, rfl, rfl, hz, has⟩ := split_of_find h hfind
      obtain ⟨head', heap₁, hremove, hremoved⟩ := removeNode_eq h
      obtain ⟨node, hnode, hdata⟩ := Option.map_eq_some_iff.1 (h.data z (by simp))
      simp only [hnode, hremove, Option.bind_eq_bind, Option.bind_some, Option.some.injEq,
        Prod.mk.injEq] at hrun
      obtain ⟨rfl, rfl, rfl⟩ := hrun
      exact .inr ⟨as, z, bs, rfl, by simpa using hz, by simpa using has,
        congrArg (some ·.item) hdata, hremoved⟩

theorem takeByPosition_returns (h : Represents heap pool zs) {fuel : Nat} (hfuel : zs.length ≤ fuel)
    (position : Int) : ∃ r, viewPoolTakeByPosition heap fuel pool position = some r := by
  obtain ⟨found, hfind, hfound⟩ := find_removes h (·.position == position) hfuel
  rw [viewPoolTakeByPosition, viewPoolNodeByPosition, hfind, Option.bind_eq_bind, Option.bind_some]
  cases found with
  | none => exact ⟨_, rfl⟩
  | some a =>
      obtain ⟨node, r, hnode, hremove⟩ := hfound a rfl
      simp only [hnode, hremove, Option.bind_eq_bind, Option.bind_some]
      exact ⟨_, rfl⟩

/-- What `view_pool_remove_by_instance` does: nothing, or the node of the object
is removed. -/
theorem of_removeByInstance (h : Represents heap pool zs) {fuel obj : Nat}
    (hrun : viewPoolRemoveByInstance heap fuel pool obj = some (pool', heap')) :
    (pool' = pool ∧ heap' = heap ∧ ∀ z ∈ zs, z.2.item ≠ obj) ∨
      ∃ as z bs, zs = as ++ z :: bs ∧ z.2.item = obj ∧ (∀ y ∈ as, y.2.item ≠ obj) ∧
        Removed heap heap' pool' as z bs := by
  rw [viewPoolRemoveByInstance, viewPoolNodeByInstance, Option.bind_eq_bind,
    Option.bind_eq_some_iff] at hrun
  obtain ⟨found, hfind, hrun⟩ := hrun
  cases found with
  | none =>
      cases hrun
      exact .inl ⟨rfl, rfl, by simpa using none_of_find h hfind⟩
  | some a =>
      obtain ⟨as, z, bs, rfl, rfl, hz, has⟩ := split_of_find h hfind
      obtain ⟨head', heap₁, hremove, hremoved⟩ := removeNode_eq h
      cases hremove.symm.trans hrun
      exact .inr ⟨as, z, bs, rfl, by simpa using hz, by simpa using has, hremoved⟩

theorem removeByInstance_returns (h : Represents heap pool zs) {fuel : Nat}
    (hfuel : zs.length ≤ fuel) (obj : Nat) :
    ∃ r, viewPoolRemoveByInstance heap fuel pool obj = some r := by
  obtain ⟨found, hfind, hfound⟩ := find_removes h (·.item == obj) hfuel
  rw [viewPoolRemoveByInstance, viewPoolNodeByInstance, hfind, Option.bind_eq_bind,
    Option.bind_some]
  cases found with
  | none => exact ⟨_, rfl⟩
  | some a =>
      obtain ⟨-, r, -, hremove⟩ := hfound a rfl
      exact ⟨r, hremove⟩

/-- `view_pool_poll` removes the first node. -/
theorem viewPoolPoll_eq (h : Represents heap pool zs) :
    (zs = [] ∧ viewPoolPoll heap pool = some (none, none, heap) ∧ pool = none) ∨
      ∃ z bs pool' heap', zs = z :: bs ∧
        viewPoolPoll heap pool = some (some z.2.item, pool', heap') ∧
        Removed heap heap' pool' [] z bs := by
  cases zs with
  | nil =>
      obtain rfl : pool = none := h.linked
      exact .inl ⟨rfl, rfl, rfl⟩
  | cons z bs =>
      obtain ⟨rfl, hprev, hrest⟩ := id h.linked
      obtain ⟨node, hnode, -, hn⟩ := exists_node (h.isSome List.mem_cons_self)
      have hdata : node.toViewPoolNode = z.2 := by
        have hz := h.data z List.mem_cons_self
        rwa [dataAt, hnode, Option.map_some, Option.some.injEq] at hz
      have hmem : z.1 ∉ bs.map Prod.fst := (List.nodup_cons.1 h.linked.forward.nodup).1
      have hsome : ∀ q ∈ (links heap).next z.1, (heap q).isSome := by
        intro q hq
        rw [LinkedList.head_of_segment hrest, Option.or_none] at hq
        exact h.isSome (List.mem_cons_of_mem _ (List.mem_of_head? hq))
      obtain ⟨heap₁, hstore, hlinks, hsame⟩ := storePrev_eq hsome none
      obtain ⟨hlinked, hoff⟩ := LinkedList.segment_setPrev hrest none
      rw [← hlinks] at hlinked hoff
      have hsplit : Represents heap (some z.1) ([] ++ z :: bs) := h
      obtain ⟨heap', hfree, hremoved⟩ := memFree_removed hsplit hsame hlinked hoff
      obtain ⟨node₁, hnode₁, -, hn₁⟩ := exists_node ((hsame.isSome z.1).trans
        (h.isSome List.mem_cons_self))
      have hnext : (links heap₁).next z.1 = (links heap).next z.1 := (hoff z.1 hmem).2
      refine .inr ⟨z, bs, _, heap', rfl, ?_, hremoved⟩
      simp only [viewPoolPoll, hnode, hn, hstore, hnode₁, hn₁, hnext, hfree, hdata,
        Option.bind_eq_bind, Option.bind_some]

/-- `view_pool_put` puts a node in front. -/
theorem viewPoolPut_eq (h : Represents heap pool zs) (ha : heap a = none) (position : Int)
    (value : Nat) :
    ∃ heap', viewPoolPut heap pool a position value = some (some a, heap') ∧
      Represents heap' (some a) ((a, ⟨position, value⟩) :: zs) ∧
      ∀ b ∉ zs.map Prod.fst, b ≠ a → heap' b = heap b := by
  have hmem : a ∉ zs.map Prod.fst := fun hmem => by
    have hsome := h.isSome hmem
    rw [ha] at hsome
    cases hsome
  let node : Node ν := { position, item := value, prev := none, next := pool }
  have hnew : update heap a (some node) a = some node := Function.update_self _ _ _
  have h₀ : Represents (update heap a (some node)) pool zs :=
    h.frame fun b hb => Function.update_of_ne (ne_of_mem_of_not_mem hb hmem) _ _
  have hsome : ∀ q ∈ pool, (update heap a (some node) q).isSome := by
    intro q hq
    rw [LinkedList.head_of_segment h₀.linked, Option.or_none] at hq
    exact h₀.isSome (List.mem_of_head? hq)
  obtain ⟨heap', hstore, hlinks, hsame⟩ := storePrev_eq hsome (some a)
  obtain ⟨hlinked, hoff⟩ := LinkedList.segment_setPrev h₀.linked (some a)
  rw [← hlinks] at hlinked hoff
  refine ⟨heap', ?_, ⟨⟨rfl, ?_, ?_⟩, fun z hz => ?_⟩, fun b hb hne => ?_⟩
  · rw [viewPoolPut, ha, if_neg (by simp)]
    exact congrArg (·.bind fun heap => some (some a, heap)) hstore
  · exact (hoff a hmem).1.trans (congrArg (·.bind Node.prev) hnew)
  · have hnext : (links heap').next a = pool :=
      (hoff a hmem).2.trans (congrArg (·.bind Node.next) hnew)
    rw [hnext]
    exact hlinked
  · rw [hsame]
    rcases List.mem_cons.1 hz with rfl | hz
    · exact congrArg (Option.map _) hnew
    · exact h₀.data z hz
  · rw [eq_of_same (hsame b) (hoff b hb).1 (hoff b hb).2, Function.update_of_ne hne]

end Heap

end CommonsC.GridView
