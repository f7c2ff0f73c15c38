import CommonsC.Base.Slide
import CommonsC.GridView.Operations
import Mathlib.Data.Int.LeastGreatest

/-!
# CommonsC.GridView.Follow

Views that go with their items through the change loop.

`Change.follow` says where a splice takes an item: nowhere, if it is removed or
taken out of the range of the loop.  A view is to go there with it.  The loop
moves one position after the other in the pool it searches, so a view that was
moved down can be met again before the one that was at its new position.  It is
not met again exactly when the pool holds the two in the right order
(`Change.InOrder`); this is `CommonsC.Base.Slide` at the nodes of the pool.
-/

namespace CommonsC.GridView

/-! ## Where items go -/

/-- The position of an item after a splice, if it is not removed. -/
def Change.newPosition (change : Change) (position : ℤ) : Option ℤ :=
  if position < change.start then some position
  else if position < change.moveFrom then none
  else some (position + change.moveDelta)

/-- Where a splice takes an item that is to keep its view. -/
def Change.follow (item_start max_item_end : ℤ) (change : Change) (position : ℤ) : Option ℤ :=
  (change.newPosition position).filter fun new_pos =>
    item_start ≤ new_pos ∧ new_pos ≤ max_item_end

/-- Where a list of splices takes an item that is to keep its view. -/
def followAll (item_start max_item_end : ℤ) : List Change → ℤ → Option ℤ
  | [], position => some position
  | change :: changes, position =>
      (change.follow item_start max_item_end position).bind
        (followAll item_start max_item_end changes)

/-- **Views keep their items**: one whose item is still there, and was in the
range after each splice, is in use at the new position of the item and nowhere
else; all others are free. -/
structure KeepsItems (item_start max_item_end : ℤ) (changes : List Change) (old : ℤ)
    (views views' : Views) : Prop where
  stays : ∀ node ∈ views.pool_inuse, 0 ≤ node.position → node.position < old → ∀ new_pos,
    followAll item_start max_item_end changes node.position = some new_pos →
    ∀ m, (m ∈ views'.pool_inuse ∧ m.item = node.item) ↔ m = ⟨new_pos, node.item⟩
  leaves : ∀ node ∈ views.pool_inuse, 0 ≤ node.position → node.position < old →
    followAll item_start max_item_end changes node.position = none →
    ∃ m ∈ views'.pool_free, m.item = node.item

/-- The change loop does not fail, and lets views keep their items. -/
def Follows (column_count item_start max_item_end : ℤ) (changes : List Change) (old : ℤ)
    (views : Views) : Prop :=
  ∃ count views', changeLoop column_count item_start max_item_end changes old views =
    .ok (count, views') ∧ KeepsItems item_start max_item_end changes old views views'

/-! ## Where nodes go -/

/-- What is to become of a node.  There are no items from `old` on. -/
def Change.settle (item_start max_item_end old : ℤ) (change : Change) (node : ViewPoolNode) :
    Option ViewPoolNode :=
  if node.position < old then
    (change.follow item_start max_item_end node.position).map fun new_pos =>
      { node with position := new_pos }
  else some node

/-- If the splice moves a node to where the loop is still to come, the node stands
behind another that is there. -/
def Change.Led (item_start max_item_end old : ℤ) (change : Change) (pool : ViewPool)
    (node : ViewPoolNode) : Prop :=
  node.position < old → node.position ≤ max_item_end →
    change.moveFrom ≤ node.position + change.moveDelta →
    item_start ≤ node.position + change.moveDelta →
    ∃ other : ViewPoolNode, other.position = node.position + change.moveDelta ∧
      List.Sublist [other, node] pool

/-- A splice that takes away more than it brings finds the nodes in order. -/
def Change.InOrder (item_start max_item_end old : ℤ) (change : Change) (pool : ViewPool) : Prop :=
  change.moveDelta < 0 → ∀ node ∈ pool, change.Led item_start max_item_end old pool node

/-- What is to become of a node in a list of splices. -/
def settleAll (item_start max_item_end : ℤ) :
    List Change → (old : ℤ) → ViewPoolNode → Option ViewPoolNode
  | [], _, node => some node
  | change :: changes, old, node =>
      (change.settle item_start max_item_end old node).bind
        (settleAll item_start max_item_end changes (old + change.moveDelta))

/-- Every splice finds the pool in order. -/
def Orderly (item_start max_item_end : ℤ) : List Change → (old : ℤ) → ViewPool → Prop
  | [], _, _ => True
  | change :: changes, old, pool =>
      (pool.map ViewPoolNode.position).Nodup ∧
        change.InOrder item_start max_item_end old pool ∧
        Orderly item_start max_item_end changes (old + change.moveDelta)
          (pool.filterMap (change.settle item_start max_item_end old))

section

variable {item_start max_item_end : ℤ} {change : Change} {position : ℤ}

theorem follow_of_lt (h : position < change.start) :
    change.follow item_start max_item_end position =
      if item_start ≤ position ∧ position ≤ max_item_end then some position else none := by
  rw [Change.follow, Change.newPosition, if_pos h, Option.filter_some]
  simp only [decide_eq_true_eq]

theorem follow_of_removed (hlo : change.start ≤ position) (hhi : position < change.moveFrom) :
    change.follow item_start max_item_end position = none := by
  rw [Change.follow, Change.newPosition, if_neg (by omega), if_pos hhi]
  rfl

theorem follow_of_le (hsane : change.Sane) (h : change.moveFrom ≤ position) :
    change.follow item_start max_item_end position =
      if item_start ≤ position + change.moveDelta ∧ position + change.moveDelta ≤ max_item_end then
        some (position + change.moveDelta) else none := by
  have hstart := hsane.start_le_moveFrom
  rw [Change.follow, Change.newPosition, if_neg (by omega), if_neg (by omega), Option.filter_some]
  simp only [decide_eq_true_eq]

end

theorem not_led_iff {item_start max_item_end old : ℤ} {change : Change} {pool : ViewPool}
    {node : ViewPoolNode} : ¬change.Led item_start max_item_end old pool node ↔
      node.position < old ∧ node.position ≤ max_item_end ∧
        change.moveFrom ≤ node.position + change.moveDelta ∧
        item_start ≤ node.position + change.moveDelta ∧
        ∀ other : ViewPoolNode, other.position = node.position + change.moveDelta →
          ¬List.Sublist [other, node] pool := by
  simp only [Change.Led, not_forall, not_exists, not_and, exists_prop]

/-! ## One position -/

/-- What a round of the moving loop makes of the node it finds. -/
def slideNode (item_start max_item_end move_delta : ℤ) (node : ViewPoolNode) :
    Option ViewPoolNode :=
  if item_start ≤ node.position + move_delta ∧ node.position + move_delta ≤ max_item_end then
    some { node with position := node.position + move_delta }
  else none

/-- Without a node at a position nothing is moved. -/
theorem slideFirst_of_none {views : Views} {position : ℤ}
    {move : ViewPoolNode → Option ViewPoolNode}
    (h : viewPoolNodeByPosition views.pool_inuse position = none) :
    Slide.slideFirst ViewPoolNode.position move position views.pool_inuse = views.pool_inuse :=
  Slide.slideFirst_of_forall_ne fun _ hm heq => nodeByPosition_eq_none.1 h
    (Multiset.mem_coe.2 (heq ▸ List.mem_map_of_mem hm))

/-- Recycling drops the node at a position. -/
theorem pool_gridRecycleItem {position : ℤ} {optional : Bool} {views views' : Views}
    (h : gridRecycleItem position optional views = .ok views') :
    views'.pool_inuse =
      Slide.slideFirst ViewPoolNode.position (fun _ => none) position views.pool_inuse := by
  rcases gridRecycleItem_cases h with ⟨hnone, rfl⟩ | ⟨a, node, b, hpool, hposition, ha, hdropped⟩
  · exact (slideFirst_of_none hnone).symm
  · rw [hdropped.inuse_eq, hpool, Slide.slideFirst_append ha hposition]
    rfl

/-- A round of the moving loop slides the node at a position. -/
theorem pool_moveView {column_count item_start max_item_end move_delta old_pos : ℤ}
    {views views' : Views}
    (h : moveView column_count item_start max_item_end move_delta old_pos views = .ok views') :
    views'.pool_inuse = Slide.slideFirst ViewPoolNode.position
      (slideNode item_start max_item_end move_delta) old_pos views.pool_inuse := by
  rcases moveView_cases h with
    ⟨hnone, rfl⟩ | ⟨hrun, hrange⟩ | ⟨a, node, b, hpool, hposition, ha, hlo, hhi, hmoved⟩
  · exact (slideFirst_of_none hnone).symm
  · rw [pool_gridRecycleItem hrun]
    refine Slide.slideFirst_congr fun node hnode => ?_
    rw [slideNode, hnode, if_neg (by omega)]
  · have hslide : slideNode item_start max_item_end move_delta node =
        some { node with position := old_pos + move_delta } := by
      rw [slideNode, hposition, if_pos ⟨hlo, hhi⟩]
    rw [hmoved.inuse_eq, hpool, Slide.slideFirst_append ha hposition, hslide]
    rfl

/-! ## One splice -/

/-- A node that the removing loop has not dropped when it has come to `i`. -/
def spared (lo i : ℤ) (node : ViewPoolNode) : Bool :=
  decide (node.position < lo ∨ i ≤ node.position)

theorem spared_iff {lo i : ℤ} {node : ViewPoolNode} :
    spared lo i node = true ↔ node.position < lo ∨ i ≤ node.position := decide_eq_true_iff

/-- The removing loop drops what the splice removes. -/
theorem pool_removeLoop {lo hi : ℤ} (hle : lo ≤ hi) {views views' : Views}
    (hnodup : (views.pool_inuse.map ViewPoolNode.position).Nodup)
    (h : Loop.up lo hi (fun del_pos => gridRecycleItem del_pos true) views = .ok views') :
    views'.pool_inuse = views.pool_inuse.filter (spared lo hi) := by
  refine Loop.of_up
    (P := fun i (v : Views) => v.pool_inuse = views.pool_inuse.filter (spared lo i)) hle ?_ ?_ h
  · exact (List.filter_eq_self.2 fun node _ => spared_iff.2 (by omega)).symm
  · intro i v v' hlo _ hv hround
    have hkeys : (v.pool_inuse.map ViewPoolNode.position).Nodup := by
      rw [hv]
      exact hnodup.sublist (List.filter_sublist.map _)
    rw [pool_gridRecycleItem hround, Slide.slideFirst_none hkeys, hv, List.filter_filter]
    refine List.filter_congr fun node _ => ?_
    rw [Bool.eq_iff_iff, Bool.and_eq_true, decide_eq_true_iff, spared_iff, spared_iff]
    omega

section

variable {column_count item_start max_item_end old : ℤ} {change : Change} {pool : ViewPool}

/-- What the two loops of a splice make of a node. -/
theorem settle_eq (hsane : change.Sane) (hfrom : change.moveFrom ≤ old) {node : ViewPoolNode}
    (hrange : item_start ≤ node.position ∧ node.position ≤ max_item_end) :
    change.settle item_start max_item_end old node =
      if spared change.start change.moveFrom node then
        if change.moveDelta = 0 then some node
        else Slide.slid ViewPoolNode.position
          (slideNode item_start max_item_end change.moveDelta) (min (old - 1) max_item_end)
          (change.moveFrom - 1) node
      else none := by
  have hstart := hsane.start_le_moveFrom
  have hslid := @Slide.slid_of_not _ ViewPoolNode.position
    (slideNode item_start max_item_end change.moveDelta) (min (old - 1) max_item_end)
    (change.moveFrom - 1) node
  rw [Change.settle]
  -- A node is before the splice, removed by it, behind it, or at no item.
  by_cases hbelow : node.position < change.start
  · rw [if_pos (by omega), follow_of_lt hbelow, if_pos hrange, if_pos (spared_iff.2 (.inl hbelow)),
      hslid (by omega), ite_self]
    rfl
  by_cases hremoved : node.position < change.moveFrom
  · rw [if_pos (by omega), follow_of_removed (by omega) hremoved,
      if_neg fun h => by have := spared_iff.1 h; omega]
    rfl
  rw [if_pos (spared_iff.2 (.inr (Int.not_lt.1 hremoved)))]
  by_cases hold : node.position < old
  · rw [if_pos hold, follow_of_le hsane (Int.not_lt.1 hremoved)]
    by_cases hdelta : change.moveDelta = 0
    · rw [if_pos hdelta, hdelta, Int.add_zero, if_pos hrange]
      rfl
    · rw [if_neg hdelta, Slide.slid_of_mem (by omega) (by omega), apply_ite (Option.map _)]
      rfl
  · rw [if_neg hold, hslid (by omega), ite_self]

/-- What the moving loop meets, and what it is to meet again. -/
theorem ledAt_of_led {i : ℤ} (hi : change.moveFrom ≤ i)
    (h : ∀ node ∈ pool, i < node.position → node.position + change.moveDelta = i →
      change.Led item_start max_item_end old pool node) :
    Slide.LedAt ViewPoolNode.position (slideNode item_start max_item_end change.moveDelta)
      (min (old - 1) max_item_end) i (pool.filter (spared change.start change.moveFrom)) := by
  intro node hnode hlt hle moved hmove hmoved
  rw [slideNode] at hmove
  split at hmove
  · next hrange =>
      cases hmove
      change node.position + change.moveDelta = i at hmoved
      obtain ⟨other, hother, hsub⟩ := h node (List.mem_of_mem_filter hnode) hlt hmoved (by omega)
        (by omega) (by omega) hrange.1
      refine ⟨other, by omega, ?_⟩
      have hkept := hsub.filter (spared change.start change.moveFrom)
      rwa [List.filter_eq_self.2] at hkept
      intro m hm
      rcases List.mem_pair.1 hm with rfl | rfl
      · exact spared_iff.2 (.inr (by omega))
      · exact spared_iff.2 (.inr (by omega))
  · cases hmove

/-- **One splice** settles the nodes of a pool in order. -/
theorem pool_applyChange {views views' : Views} (hsane : change.Sane)
    (hfrom : change.moveFrom ≤ old)
    (hnodup : (views.pool_inuse.map ViewPoolNode.position).Nodup)
    (hrange : ∀ node ∈ views.pool_inuse,
      item_start ≤ node.position ∧ node.position ≤ max_item_end)
    (horder : change.InOrder item_start max_item_end old views.pool_inuse)
    (h : applyChange column_count item_start max_item_end old change views = .ok views') :
    views'.pool_inuse = views.pool_inuse.filterMap (change.settle item_start max_item_end old) := by
  obtain ⟨kept, hremove, hmoves⟩ := applyChange_parts h
  have hkept := pool_removeLoop hsane.start_le_moveFrom hnodup hremove
  have hsettle : views.pool_inuse.filterMap (change.settle item_start max_item_end old) =
      kept.pool_inuse.filterMap fun node => if change.moveDelta = 0 then some node
        else Slide.slid ViewPoolNode.position
          (slideNode item_start max_item_end change.moveDelta) (min (old - 1) max_item_end)
          (change.moveFrom - 1) node := by
    rw [hkept, List.filterMap_filter]
    exact List.filterMap_congr fun node hnode => settle_eq hsane hfrom (hrange node hnode)
  rw [hsettle]
  split at hmoves
  · next hdelta =>
      cases hmoves
      simp only [if_pos hdelta, List.filterMap_some]
  · next hdelta =>
      simp only [if_neg hdelta]
      have hkeys : (kept.pool_inuse.map ViewPoolNode.position).Nodup := by
        rw [hkept]
        exact hnodup.sublist (List.filter_sublist.map _)
      have hmoved := Loop.of_down (P := fun i (v : Views) => v.pool_inuse =
          kept.pool_inuse.filterMap (Slide.slid ViewPoolNode.position
            (slideNode item_start max_item_end change.moveDelta) (min (old - 1) max_item_end) i))
        (Slide.filterMap_slid_init _).symm
        (fun i v v' hlo hhi hv hround => by
          rw [pool_moveView hround, hv]
          have hled := ledAt_of_led hlo fun node hnode hlt hi => horder (by omega) node hnode
          exact Slide.slideFirst_slid hkeys (hkept ▸ hled) hhi)
        hmoves
      rw [hmoved]
      exact List.filterMap_congr fun node _ => Slide.slid_min

/-- A splice does not fail. -/
theorem applyChange_ok (hsane : change.Sane) (views : Views) :
    ∃ views', applyChange column_count item_start max_item_end old change views = .ok views' := by
  obtain ⟨kept, hremove⟩ : ∃ kept, Loop.up change.start change.moveFrom
      (fun del_pos => gridRecycleItem del_pos true) views = .ok kept :=
    Loop.up_total fun _ _ => gridRecycleItem_ok (.inl rfl)
  rw [applyChange_of_remove hsane.1 hremove]
  split
  · exact ⟨kept, rfl⟩
  · refine Loop.down_total fun old_pos v => ?_
    obtain ⟨v', hround, -⟩ :=
      moveView_eq column_count item_start max_item_end change.moveDelta old_pos v
    exact ⟨v', hround⟩

theorem slideNode_position {move_delta : ℤ} (node moved : ViewPoolNode)
    (h : slideNode item_start max_item_end move_delta node = some moved) :
    moved.position = node.position + move_delta := by
  rw [slideNode] at h
  split at h
  · cases h
    rfl
  · cases h

theorem slideNode_item {move_delta : ℤ} (node moved : ViewPoolNode)
    (h : slideNode item_start max_item_end move_delta node = some moved) :
    moved.item = node.item := by
  rw [slideNode] at h
  split at h
  · cases h
    rfl
  · cases h

/-- A node that is moved in front of its new position is moved again. -/
theorem moveLoop_below {kept views' : Views} {hi lo move_delta : ℤ} {node : ViewPoolNode}
    (hdelta : move_delta < 0) (hkeys : (kept.pool_inuse.map ViewPoolNode.position).Nodup)
    (hitems : (kept.pool_inuse.map ViewPoolNode.item).Nodup) (hnode : node ∈ kept.pool_inuse)
    (hlo : lo ≤ node.position + move_delta) (hhi : node.position ≤ hi)
    (hrange : item_start ≤ node.position + move_delta ∧
      node.position + move_delta ≤ max_item_end)
    (hled : ∀ i, lo ≤ i → node.position + move_delta < i →
      Slide.LedAt ViewPoolNode.position (slideNode item_start max_item_end move_delta) hi i
        kept.pool_inuse)
    (hnone : ∀ m : ViewPoolNode, m.position = node.position + move_delta →
      ¬List.Sublist [m, node] kept.pool_inuse)
    (h : Loop.down hi lo (moveView column_count item_start max_item_end move_delta) kept =
      .ok views') :
    ∀ m ∈ views'.pool_inuse, m.item = node.item → m.position < node.position + move_delta := by
  generalize hi' : node.position + move_delta = i at *
  -- Down to `i` the rounds move what they should, the next one moves the node again.
  have hbelow := Loop.of_down
    (P := fun j (v : Views) =>
      (i ≤ j → v.pool_inuse = kept.pool_inuse.filterMap (Slide.slid ViewPoolNode.position
        (slideNode item_start max_item_end move_delta) hi j)) ∧
      (j < i → ∀ m ∈ v.pool_inuse, m.item = node.item → m.position < i))
    ⟨fun _ => (Slide.filterMap_slid_init _).symm, fun hj => by omega⟩
    (fun j v v' hj hjhi ⟨hslid, hpast⟩ hround => by
      rw [pool_moveView hround]
      refine ⟨fun hij => ?_, fun hji => ?_⟩
      · rw [hslid (by omega)]
        exact Slide.slideFirst_slid hkeys (hled j hj (by omega)) hjhi
      · rcases Int.lt_or_eq_of_le (Int.le_of_lt_add_one (by omega : j < i + 1)) with hji | rfl
        · exact Slide.slideFirst_below hdelta slideNode_position slideNode_item (hpast hji)
        · rw [hslid (Int.le_refl _)]
          exact Slide.misled hdelta slideNode_position slideNode_item hkeys hitems hnode
            (by omega) hhi (if_pos ⟨by omega, by omega⟩) hi' hnone)
    h
  exact hbelow.2 (by omega)

/-- **Out of order**: of the nodes that are not led, the last one ends up before
its new position. -/
theorem exists_below {views views' : Views} (hsane : change.Sane)
    (hitems : (views.pool_inuse.map ViewPoolNode.item).Nodup)
    (hnodup : (views.pool_inuse.map ViewPoolNode.position).Nodup)
    (hdelta : change.moveDelta < 0)
    (hbad : ∃ node ∈ views.pool_inuse,
      ¬change.Led item_start max_item_end old views.pool_inuse node)
    (h : applyChange column_count item_start max_item_end old change views = .ok views') :
    ∃ node ∈ views.pool_inuse,
      ¬change.Led item_start max_item_end old views.pool_inuse node ∧
      ∀ m ∈ views'.pool_inuse, m.item = node.item →
        m.position < node.position + change.moveDelta := by
  obtain ⟨kept, hremove, hmoves⟩ := applyChange_parts h
  rw [if_neg (by omega)] at hmoves
  have hkept := pool_removeLoop hsane.start_le_moveFrom hnodup hremove
  have hsub : List.Sublist kept.pool_inuse views.pool_inuse := hkept ▸ List.filter_sublist
  obtain ⟨last, ⟨node, hnode, rfl, hled⟩, hgreatest⟩ := Int.exists_greatest_of_bdd
    (P := fun p => ∃ node ∈ views.pool_inuse, node.position = p ∧
      ¬change.Led item_start max_item_end old views.pool_inuse node)
    ⟨max_item_end, fun p ⟨node, _, hp, hled⟩ => hp ▸ (not_led_iff.1 hled).2.1⟩
    (hbad.elim fun node hnode => ⟨node.position, node, hnode.1, rfl, hnode.2⟩)
  obtain ⟨hlt, hle, hfrom, hlo, hnone⟩ := not_led_iff.1 hled
  have hmem : node ∈ kept.pool_inuse := by
    rw [hkept]
    exact List.mem_filter.2 ⟨hnode, spared_iff.2 (.inr (by omega))⟩
  refine ⟨node, hnode, hled, moveLoop_below hdelta (hnodup.sublist (hsub.map _))
    (hitems.sublist (hsub.map _)) hmem hfrom (by omega) ⟨hlo, by omega⟩ (fun i hi hlast => ?_)
    (fun m hm hmsub => hnone m hm (hmsub.trans hsub)) hmoves⟩
  -- Above the last of them all nodes are led.
  rw [hkept]
  refine ledAt_of_led hi fun m hm _ hpos => ?_
  by_contra hnot
  have := hgreatest _ ⟨m, hm, rfl, hnot⟩
  omega

/-! ## The settled pool -/

/-- The position of a settled node. -/
theorem of_settle {node settled : ViewPoolNode} (hlt : node.position < old)
    (h : change.settle item_start max_item_end old node = some settled) :
    settled.item = node.item ∧
      change.follow item_start max_item_end node.position = some settled.position := by
  rw [Change.settle, if_pos hlt, Option.map_eq_some_iff] at h
  obtain ⟨new_pos, hfollow, rfl⟩ := h
  exact ⟨rfl, hfollow⟩

/-- Where an item goes. -/
theorem of_follow (hsane : change.Sane) {position new_pos : ℤ}
    (h : change.follow item_start max_item_end position = some new_pos) :
    item_start ≤ new_pos ∧ new_pos ≤ max_item_end ∧
      (position < change.start ∧ new_pos = position ∨
        change.moveFrom ≤ position ∧ new_pos = position + change.moveDelta) := by
  by_cases hbelow : position < change.start
  · rw [follow_of_lt hbelow] at h
    split at h
    · next hrange =>
        cases h
        exact ⟨hrange.1, hrange.2, .inl ⟨hbelow, rfl⟩⟩
    · cases h
  by_cases hremoved : position < change.moveFrom
  · rw [follow_of_removed (Int.not_lt.1 hbelow) hremoved] at h
    cases h
  rw [follow_of_le hsane (Int.not_lt.1 hremoved)] at h
  split at h
  · next hrange =>
      cases h
      exact ⟨hrange.1, hrange.2, .inr ⟨Int.not_lt.1 hremoved, rfl⟩⟩
  · cases h

/-- Two items do not go to one position. -/
theorem follow_inj (hsane : change.Sane) {p q new_pos : ℤ}
    (hp : change.follow item_start max_item_end p = some new_pos)
    (hq : change.follow item_start max_item_end q = some new_pos) : p = q := by
  have := change.moveFrom_add_moveDelta
  have := hsane.2.2
  have := (of_follow hsane hp).2.2
  have := (of_follow hsane hq).2.2
  omega

theorem settle_item {node settled : ViewPoolNode}
    (h : change.settle item_start max_item_end old node = some settled) :
    settled.item = node.item := by
  rw [Change.settle] at h
  split at h
  · obtain ⟨new_pos, -, rfl⟩ := Option.map_eq_some_iff.1 h
    rfl
  · cases h
    rfl

/-- Settled nodes are in the range. -/
theorem settle_range (hsane : change.Sane)
    (hrange : ∀ node ∈ pool, item_start ≤ node.position ∧ node.position ≤ max_item_end) :
    ∀ node ∈ pool.filterMap (change.settle item_start max_item_end old),
      item_start ≤ node.position ∧ node.position ≤ max_item_end := by
  intro settled hsettled
  obtain ⟨node, hnode, hsettle⟩ := List.mem_filterMap.1 hsettled
  by_cases hlt : node.position < old
  · obtain ⟨hlo, hhi, -⟩ := of_follow hsane (of_settle hlt hsettle).2
    exact ⟨hlo, hhi⟩
  · rw [Change.settle, if_neg hlt] at hsettle
    exact Option.some.inj hsettle ▸ hrange node hnode

/-- Settled nodes are at items, if the others were. -/
theorem follow_lt (hsane : change.Sane) (hfrom : change.moveFrom ≤ old) {position new_pos : ℤ}
    (hlt : position < old)
    (h : change.follow item_start max_item_end position = some new_pos) :
    new_pos < old + change.moveDelta := by
  have := change.moveFrom_add_moveDelta
  have := hsane.2.2
  have := (of_follow hsane h).2.2
  omega

theorem settle_lt (hsane : change.Sane) (hfrom : change.moveFrom ≤ old)
    (hlt : ∀ node ∈ pool, node.position < old) :
    ∀ node ∈ pool.filterMap (change.settle item_start max_item_end old),
      node.position < old + change.moveDelta := by
  intro settled hsettled
  obtain ⟨node, hnode, hsettle⟩ := List.mem_filterMap.1 hsettled
  exact follow_lt hsane hfrom (hlt node hnode) (of_settle (hlt node hnode) hsettle).2

/-- Views that are settled are not doubled. -/
theorem settle_items : List.Sublist
    ((pool.filterMap (change.settle item_start max_item_end old)).map ViewPoolNode.item)
    (pool.map ViewPoolNode.item) := by
  induction pool with
  | nil => exact .slnil
  | cons node pool ih =>
      rw [List.filterMap_cons, List.map_cons]
      split
      · exact ih.cons _
      · next settled hsettle =>
          rw [List.map_cons, settle_item hsettle]
          exact ih.cons_cons _

/-- Settled nodes are at different positions. -/
theorem settle_positions (hsane : change.Sane) (hlt : ∀ node ∈ pool, node.position < old)
    (hnodup : (pool.map ViewPoolNode.position).Nodup) :
    ((pool.filterMap (change.settle item_start max_item_end old)).map
      ViewPoolNode.position).Nodup := by
  have hfollow : (pool.filterMap (change.settle item_start max_item_end old)).map
      ViewPoolNode.position =
        (pool.map ViewPoolNode.position).filterMap (change.follow item_start max_item_end) := by
    rw [List.map_filterMap, List.filterMap_map]
    refine List.filterMap_congr fun node hnode => ?_
    rw [Function.comp_apply, Change.settle, if_pos (hlt node hnode), Option.map_map]
    exact Option.map_id'
  rw [hfollow]
  exact hnodup.filterMap fun p q new_pos hp hq => follow_inj hsane hp hq

end

/-! ## The change loop -/

section

variable {column_count item_start max_item_end old new : ℤ} {changes : List Change}

theorem settleAll_item {node settled : ViewPoolNode}
    (h : settleAll item_start max_item_end changes old node = some settled) :
    settled.item = node.item := by
  induction changes generalizing old node with
  | nil =>
      cases h
      rfl
  | cons change changes ih =>
      obtain ⟨next, hnext, hrest⟩ := Option.bind_eq_some_iff.1 h
      rw [ih hrest, settle_item hnext]

/-- A node goes where its item goes. -/
theorem settleAll_eq (hsplices : Splices changes old new) {node : ViewPoolNode}
    (hlt : node.position < old) :
    settleAll item_start max_item_end changes old node =
      (followAll item_start max_item_end changes node.position).map fun new_pos =>
        { node with position := new_pos } := by
  induction changes generalizing old node with
  | nil => rfl
  | cons change changes ih =>
      obtain ⟨hstart, hremove, hadd, hfrom, hrest⟩ := hsplices
      rw [settleAll, followAll, Change.settle, if_pos hlt]
      cases hfollow : change.follow item_start max_item_end node.position with
      | none => rfl
      | some new_pos =>
          have hnext := follow_lt ⟨hstart, hremove, hadd⟩ hfrom hlt hfollow
          exact @ih _ hrest { node with position := new_pos } hnext

/-- **The change loop** settles the nodes of a pool that stays in order. -/
theorem changeLoop_settles (hsplices : Splices changes old new) {views : Views}
    (hrange : ∀ node ∈ views.pool_inuse,
      item_start ≤ node.position ∧ node.position ≤ max_item_end)
    (horderly : Orderly item_start max_item_end changes old views.pool_inuse) :
    ∃ views', changeLoop column_count item_start max_item_end changes old views =
        .ok (new, views') ∧
      views'.pool_inuse =
        views.pool_inuse.filterMap (settleAll item_start max_item_end changes old) := by
  induction changes generalizing old views with
  | nil => exact ⟨views, by rw [changeLoop, hsplices], List.filterMap_some.symm⟩
  | cons change changes ih =>
      obtain ⟨hstart, hremove, hadd, hfrom, hrest⟩ := hsplices
      obtain ⟨hnodup, horder, horderly⟩ := horderly
      have hsane : change.Sane := ⟨hstart, hremove, hadd⟩
      obtain ⟨mid, hchange⟩ : ∃ mid,
          applyChange column_count item_start max_item_end old change views = .ok mid :=
        applyChange_ok hsane views
      have hmid := pool_applyChange hsane hfrom hnodup hrange horder hchange
      obtain ⟨views', hrun, hpool⟩ :=
        ih hrest (hmid ▸ settle_range hsane hrange) (hmid ▸ horderly)
      refine ⟨views', ?_, ?_⟩
      · rw [changeLoop, hchange]
        exact hrun
      · rw [hpool, hmid, List.filterMap_filterMap]
        rfl

theorem owned_changeLoop {views views' : Views}
    (h : changeLoop column_count item_start max_item_end changes old views = .ok (new, views')) :
    views'.owned = views.owned :=
  changeLoop_keeps (P := fun v => v.owned = views.owned)
    (fun _ _ _ hv hrun => (owned_gridRecycleItem hrun).1.trans hv)
    (fun _ _ _ _ _ _ hv hrun => (owned_moveView hrun).1.trans hv) h rfl

theorem mem_owned {views : Views} {item : ℕ} :
    item ∈ views.owned ↔ (∃ node ∈ views.pool_inuse, node.item = item) ∨
      ∃ node ∈ views.pool_free, node.item = item := by
  rw [Views.owned, Multiset.mem_add, Multiset.mem_coe, Multiset.mem_coe, List.mem_map, List.mem_map]

/-- Where nodes go with their items, views keep their items. -/
theorem keepsItems_of_settled (hsplices : Splices changes old new) {views views' : Views}
    (hitems : (views.pool_inuse.map ViewPoolNode.item).Nodup) (howned : views'.owned = views.owned)
    (hpool : views'.pool_inuse =
      views.pool_inuse.filterMap (settleAll item_start max_item_end changes old)) :
    KeepsItems item_start max_item_end changes old views views' := by
  -- A node of the settled pool comes from the one node that has its view.
  have hof : ∀ node ∈ views.pool_inuse, ∀ m ∈ views'.pool_inuse, m.item = node.item →
      settleAll item_start max_item_end changes old node = some m := by
    intro node hnode m hm hitem
    rw [hpool] at hm
    obtain ⟨w, hw, hsettle⟩ := List.mem_filterMap.1 hm
    have hwitem : w.item = node.item := (settleAll_item hsettle).symm.trans hitem
    rwa [List.inj_on_of_nodup_map hitems hw hnode hwitem] at hsettle
  refine ⟨fun node hnode _ hlt new_pos hfollow m => ⟨fun ⟨hm, hitem⟩ => ?_, ?_⟩,
    fun node hnode _ hlt hfollow => ?_⟩
  · have hsettle := hof node hnode m hm hitem
    rw [settleAll_eq hsplices hlt, hfollow] at hsettle
    exact (Option.some.inj hsettle).symm
  · rintro rfl
    rw [hpool]
    refine ⟨List.mem_filterMap.2 ⟨node, hnode, ?_⟩, rfl⟩
    rw [settleAll_eq hsplices hlt, hfollow]
    rfl
  · have hmem : node.item ∈ views'.owned := by
      rw [howned]
      exact mem_owned.2 (.inl ⟨node, hnode, rfl⟩)
    rcases mem_owned.1 hmem with ⟨m, hm, hitem⟩ | hfree
    · have hsettle := hof node hnode m hm hitem
      rw [settleAll_eq hsplices hlt, hfollow] at hsettle
      cases hsettle
    · exact hfree

/-- A pool that stays in order lets views keep their items. -/
theorem follows_of_orderly (hsplices : Splices changes old new) {views : Views}
    (hitems : (views.pool_inuse.map ViewPoolNode.item).Nodup)
    (hrange : ∀ node ∈ views.pool_inuse,
      item_start ≤ node.position ∧ node.position ≤ max_item_end)
    (horderly : Orderly item_start max_item_end changes old views.pool_inuse) :
    Follows column_count item_start max_item_end changes old views := by
  obtain ⟨views', hrun, hpool⟩ := changeLoop_settles hsplices hrange horderly
  exact ⟨new, views', hrun,
    keepsItems_of_settled hsplices hitems (owned_changeLoop hrun) hpool⟩

/-- If views keep their items in one splice, it found the pool in order. -/
theorem inOrder_of_keepsItems {change : Change} (hsane : change.Sane) {views views' : Views}
    (hitems : (views.pool_inuse.map ViewPoolNode.item).Nodup)
    (hnodup : (views.pool_inuse.map ViewPoolNode.position).Nodup)
    (hchange : applyChange column_count item_start max_item_end old change views = .ok views')
    (hkeeps : KeepsItems item_start max_item_end [change] old views views') :
    change.InOrder item_start max_item_end old views.pool_inuse := by
  intro hdelta node hnode
  by_contra hled
  obtain ⟨node, hnode, hled, hbelow⟩ :=
    exists_below hsane hitems hnodup hdelta ⟨node, hnode, hled⟩ hchange
  obtain ⟨hlt, hle, hfrom, hlo, -⟩ := not_led_iff.1 hled
  have hstart := hsane.1
  have hstart' := hsane.start_le_moveFrom
  have hfollow : followAll item_start max_item_end [change] node.position =
      some (node.position + change.moveDelta) := by
    rw [followAll, follow_of_le hsane (by omega), if_pos ⟨hlo, by omega⟩]
    rfl
  obtain ⟨hmem, hitem⟩ :=
    (hkeeps.stays node hnode (by omega) hlt _ hfollow ⟨_, node.item⟩).2 rfl
  exact absurd (hbelow _ hmem hitem) (Int.lt_irrefl _)

/-- The rest of the splices, from the settled pool on. -/
theorem KeepsItems.tail {change : Change} (hsane : change.Sane) {views mid views' : Views}
    (hlt : ∀ node ∈ views.pool_inuse, node.position < old)
    (hmid : mid.pool_inuse =
      views.pool_inuse.filterMap (change.settle item_start max_item_end old))
    (h : KeepsItems item_start max_item_end (change :: changes) old views views') :
    KeepsItems item_start max_item_end changes (old + change.moveDelta) mid views' := by
  have hof : ∀ settled ∈ mid.pool_inuse, 0 ≤ settled.position →
      ∃ node ∈ views.pool_inuse, 0 ≤ node.position ∧ settled.item = node.item ∧
        followAll item_start max_item_end (change :: changes) node.position =
          followAll item_start max_item_end changes settled.position := by
    intro settled hsettled hnonneg
    rw [hmid] at hsettled
    obtain ⟨node, hnode, hsettle⟩ := List.mem_filterMap.1 hsettled
    obtain ⟨hitem, hfollow⟩ := of_settle (hlt node hnode) hsettle
    have hstart := hsane.1
    have hstart' := hsane.start_le_moveFrom
    have hpos := (of_follow hsane hfollow).2.2
    refine ⟨node, hnode, by omega, hitem, ?_⟩
    rw [followAll, hfollow]
    rfl
  refine ⟨fun settled hsettled hnonneg _ new_pos hfollow m => ?_,
    fun settled hsettled hnonneg _ hfollow => ?_⟩
  · obtain ⟨node, hnode, hnonneg', hitem, heq⟩ := hof settled hsettled hnonneg
    rw [hitem]
    exact h.stays node hnode hnonneg' (hlt node hnode) new_pos (heq.trans hfollow) m
  · obtain ⟨node, hnode, hnonneg', hitem, heq⟩ := hof settled hsettled hnonneg
    rw [hitem]
    exact h.leaves node hnode hnonneg' (hlt node hnode) (heq.trans hfollow)

/-- If views keep their items in the first splices, however many, the pool stays
in order. -/
theorem orderly_of_follows (hsplices : Splices changes old new) {views : Views}
    (hitems : (views.pool_inuse.map ViewPoolNode.item).Nodup)
    (hnodup : (views.pool_inuse.map ViewPoolNode.position).Nodup)
    (hrange : ∀ node ∈ views.pool_inuse,
      item_start ≤ node.position ∧ node.position ≤ max_item_end)
    (hlt : ∀ node ∈ views.pool_inuse, node.position < old)
    (h : ∀ k, Follows column_count item_start max_item_end (changes.take k) old views) :
    Orderly item_start max_item_end changes old views.pool_inuse := by
  induction changes generalizing old views with
  | nil => trivial
  | cons change changes ih =>
      obtain ⟨hstart, hremove, hadd, hfrom, hrest⟩ := hsplices
      have hsane : change.Sane := ⟨hstart, hremove, hadd⟩
      obtain ⟨mid, hchange⟩ : ∃ mid,
          applyChange column_count item_start max_item_end old change views = .ok mid :=
        applyChange_ok hsane views
      have hinOrder : change.InOrder item_start max_item_end old views.pool_inuse := by
        obtain ⟨count, views', hrun, hkeeps⟩ := h 1
        rw [List.take_succ_cons, List.take_zero, changeLoop, hchange] at hrun
        cases hrun
        exact inOrder_of_keepsItems hsane hitems hnodup hchange hkeeps
      have hmid := pool_applyChange hsane hfrom hnodup hrange hinOrder hchange
      refine ⟨hnodup, hinOrder, ?_⟩
      rw [← hmid]
      refine ih hrest (hmid ▸ hitems.sublist settle_items)
        (hmid ▸ settle_positions hsane hlt hnodup) (hmid ▸ settle_range hsane hrange)
        (hmid ▸ settle_lt hsane hfrom hlt) fun k => ?_
      obtain ⟨count, views', hrun, hkeeps⟩ := h (k + 1)
      rw [List.take_succ_cons, changeLoop, hchange] at hrun
      rw [List.take_succ_cons] at hkeeps
      exact ⟨count, views', hrun, hkeeps.tail hsane hlt hmid⟩

theorem Splices.take (hsplices : Splices changes old new) (k : ℕ) :
    ∃ count, Splices (changes.take k) old count := by
  induction changes generalizing old k with
  | nil => exact ⟨old, by rw [List.take_nil]; rfl⟩
  | cons change changes ih =>
      cases k with
      | zero => exact ⟨old, rfl⟩
      | succ k =>
          obtain ⟨hstart, hremove, hadd, hfrom, hrest⟩ := hsplices
          obtain ⟨count, hcount⟩ := ih hrest k
          exact ⟨count, hstart, hremove, hadd, hfrom, hcount⟩

theorem Orderly.take {pool : ViewPool} (h : Orderly item_start max_item_end changes old pool)
    (k : ℕ) : Orderly item_start max_item_end (changes.take k) old pool := by
  induction changes generalizing old pool k with
  | nil => rwa [List.take_nil]
  | cons change changes ih =>
      cases k with
      | zero => trivial
      | succ k => exact ⟨h.1, h.2.1, ih h.2.2 k⟩

/-- **Growth**: splices that bring as much as they take away, or more, find every
pool in order whose views are at items. -/
theorem orderly_of_nonneg (hsplices : Splices changes old new)
    (hgrows : ∀ change ∈ changes, 0 ≤ change.moveDelta) {pool : ViewPool}
    (hnodup : (pool.map ViewPoolNode.position).Nodup)
    (hlt : ∀ node ∈ pool, node.position < old) :
    Orderly item_start max_item_end changes old pool := by
  induction changes generalizing old pool with
  | nil => trivial
  | cons change changes ih =>
      obtain ⟨hstart, hremove, hadd, hfrom, hrest⟩ := hsplices
      have hsane : change.Sane := ⟨hstart, hremove, hadd⟩
      have hgrow := hgrows change List.mem_cons_self
      refine ⟨hnodup, fun hneg => absurd hneg (Int.not_lt.2 hgrow), ?_⟩
      exact ih hrest (fun c hc => hgrows c (List.mem_cons_of_mem _ hc))
        (settle_positions hsane hlt hnodup) (settle_lt hsane hfrom hlt)

/-- **Views go with their items** if every splice finds the pool in order; and
if no view in use is beyond the items, then only so. -/
theorem views_follow (hsplices : Splices changes old new) {views : Views}
    (hitems : (views.pool_inuse.map ViewPoolNode.item).Nodup)
    (hnodup : (views.pool_inuse.map ViewPoolNode.position).Nodup)
    (hrange : ∀ node ∈ views.pool_inuse,
      item_start ≤ node.position ∧ node.position ≤ max_item_end) :
    (Orderly item_start max_item_end changes old views.pool_inuse →
      ∀ k, Follows column_count item_start max_item_end (changes.take k) old views) ∧
    ((∀ node ∈ views.pool_inuse, node.position < old) →
      ((∀ k, Follows column_count item_start max_item_end (changes.take k) old views) ↔
        Orderly item_start max_item_end changes old views.pool_inuse)) := by
  have hof : Orderly item_start max_item_end changes old views.pool_inuse →
      ∀ k, Follows column_count item_start max_item_end (changes.take k) old views := by
    intro horderly k
    obtain ⟨count, hcount⟩ := hsplices.take k
    exact follows_of_orderly hcount hitems hrange (horderly.take k)
  exact ⟨hof, fun hlt => ⟨orderly_of_follows hsplices hitems hnodup hrange hlt, hof⟩⟩

end

/-- The views of three items, in a pool of some order. -/
def threeViews (pool : ViewPool) : Views := ⟨pool, [], 3, []⟩

/-- The first of three items is removed. -/
theorem removeFirst_splices : Splices [⟨0, 1, 0⟩] 3 2 :=
  ⟨by decide, by decide, by decide, by decide, rfl⟩

/-- Views in the order of their items follow them. -/
theorem views_follow_ascending :
    Follows 1 0 2 [⟨0, 1, 0⟩] 3 (threeViews [⟨0, 0⟩, ⟨1, 1⟩, ⟨2, 2⟩]) := by
  have horder : Change.InOrder 0 2 3 ⟨0, 1, 0⟩ [⟨0, 0⟩, ⟨1, 1⟩, ⟨2, 2⟩] := by
    intro _ node hnode
    simp only [List.mem_cons, List.not_mem_nil, or_false] at hnode
    rcases hnode with rfl | rfl | rfl
    · exact fun _ _ hfrom _ => absurd hfrom (by decide)
    · exact fun _ _ hfrom _ => absurd hfrom (by decide)
    · exact fun _ _ _ _ => ⟨⟨1, 1⟩, rfl, by decide⟩
  have horderly : Orderly 0 2 [⟨0, 1, 0⟩] 3
      (threeViews [⟨0, 0⟩, ⟨1, 1⟩, ⟨2, 2⟩]).pool_inuse := ⟨by decide, horder, trivial⟩
  exact (views_follow removeFirst_splices (by decide) (by decide) (by decide)).1 horderly 1

/-- **Views can be swapped**: `fill_rows` has put the view of the last item in
front, and when the first item is removed, that view is moved twice, and the
other one not at all. -/
theorem views_swapped : ¬∀ (column_count item_start max_item_end old new : ℤ)
    (changes : List Change) (views : Views), Splices changes old new →
    (views.pool_inuse.map ViewPoolNode.item).Nodup →
    (views.pool_inuse.map ViewPoolNode.position).Nodup →
    (∀ node ∈ views.pool_inuse,
      item_start ≤ node.position ∧ node.position ≤ max_item_end ∧ node.position < old) →
    Follows column_count item_start max_item_end changes old views := by
  intro hclaim
  obtain ⟨count, views', hrun, hkeeps⟩ := hclaim 1 0 2 3 2 [⟨0, 1, 0⟩]
    (threeViews [⟨2, 2⟩, ⟨1, 1⟩, ⟨0, 0⟩]) removeFirst_splices (by decide) (by decide) (by decide)
  have hpool : views'.pool_inuse = [⟨0, 2⟩, ⟨1, 1⟩] := by
    cases hrun
    rfl
  have hstays := (hkeeps.stays ⟨2, 2⟩ (by decide) (by decide) (by decide) 1 rfl ⟨1, 2⟩).2 rfl
  rw [hpool] at hstays
  exact absurd hstays.1 (by decide)

end CommonsC.GridView
