import CommonsC.GridView.Pools

/-!
# CommonsC.GridView.Ownership

Which node holds a view, and what was last asked of the view.

The two pools are to hold every view in one node (`Sound`).  Recycling moves
the view of a node to the free pool, and showing takes one from there or has a
new one created; `gridRecycleItem_cases` and `gridObtainItem_cases` say all that
they can do, with the in-use pool cut at the node in question.

The cells that `fill_rows` shows are those of a range of positions
(`showRows_eq`), so that what one cell keeps is kept by all of them.
-/

namespace CommonsC.GridView

open Multiset

/-! ## The node of a position -/

/-- The node that is found is the first at the position: the pool is cut there. -/
theorem nodeByPosition_split {pool : ViewPool} {position : ℤ} {node : ViewPoolNode}
    (h : viewPoolNodeByPosition pool position = some node) :
    node.position = position ∧
      ∃ a b, pool = a ++ node :: b ∧ ∀ m ∈ a, m.position ≠ position := by
  rw [viewPoolNodeByPosition, List.find?_eq_some_iff_append] at h
  simpa only [beq_iff_eq, Bool.not_eq_true', beq_eq_false_iff_ne] using h

theorem nodeByPosition_cons_self (pool : ViewPool) (position : ℤ) (item : ℕ) :
    viewPoolNodeByPosition (⟨position, item⟩ :: pool) position = some ⟨position, item⟩ :=
  List.find?_cons_of_pos (beq_self_eq_true position)

theorem nodeByPosition_cons_of_ne {pool : ViewPool} {node : ViewPoolNode} {position : ℤ}
    (h : node.position ≠ position) :
    viewPoolNodeByPosition (node :: pool) position = viewPoolNodeByPosition pool position := by
  rw [viewPoolNodeByPosition, List.find?_cons_of_neg (by rwa [beq_iff_eq])]
  rfl

theorem eraseP_append {a b : ViewPool} {node : ViewPoolNode} {position : ℤ}
    (ha : ∀ m ∈ a, m.position ≠ position) (hnode : node.position = position) :
    (a ++ node :: b).eraseP (·.position == position) = a ++ b := by
  rw [List.eraseP_append_right _ fun m hm => by rw [beq_iff_eq]; exact ha m hm,
    List.eraseP_cons_of_pos (by rw [hnode, beq_self_eq_true])]

theorem renumber_append {a b : ViewPool} {node : ViewPoolNode} {old_pos : ℤ} (new_pos : ℤ)
    (ha : ∀ m ∈ a, m.position ≠ old_pos) (hnode : node.position = old_pos) :
    renumber old_pos new_pos (a ++ node :: b) = a ++ { node with position := new_pos } :: b := by
  induction a with
  | nil => rw [List.nil_append, renumber, if_pos hnode, List.nil_append]
  | cons m a ih =>
      rw [List.cons_append, renumber, if_neg (ha m List.mem_cons_self),
        ih fun n hn => ha n (List.mem_cons_of_mem m hn), List.cons_append]

/-! ## Views in the pools -/

/-- The views of both pools. -/
def Views.owned (views : Views) : Multiset ℕ :=
  views.pool_inuse.map ViewPoolNode.item + views.pool_free.map ViewPoolNode.item

/-- Every view is in one node, and the views that the adapter creates are new. -/
structure Sound (views : Views) : Prop where
  nodup : views.owned.Nodup
  lt_created : ∀ item ∈ views.owned, item < views.created

theorem Sound.of_owned_eq {views views' : Views} (h : Sound views)
    (howned : views'.owned = views.owned) (hcreated : views'.created = views.created) :
    Sound views' :=
  ⟨howned ▸ h.nodup, fun item hitem => hcreated ▸ h.lt_created item (howned ▸ hitem)⟩

/-- Two nodes in use do not share a view. -/
theorem Sound.nodup_inuse {views : Views} (h : Sound views) :
    (views.pool_inuse.map ViewPoolNode.item).Nodup :=
  coe_nodup.1 (nodup_of_le (le_add_right _ _) h.nodup)

/-- A view is in use for one position. -/
theorem Sound.node_inj {views : Views} (h : Sound views) {m n : ViewPoolNode}
    (hm : m ∈ views.pool_inuse) (hn : n ∈ views.pool_inuse) (hitem : m.item = n.item) : m = n :=
  List.inj_on_of_nodup_map h.nodup_inuse hm hn hitem

/-! ## What was asked -/

/-- More calls were made, each of a certain kind. -/
def Views.Asks (kind : Call → Prop) (views views' : Views) : Prop :=
  ∃ calls, views'.calls = calls ++ views.calls ∧ ∀ c ∈ calls, kind c

section Asks

variable {kind : Call → Prop} {views views' views'' : Views}

theorem Views.Asks.refl (h : views'.calls = views.calls) : views.Asks kind views' :=
  ⟨[], h, nofun⟩

theorem Views.Asks.trans (h : views.Asks kind views') (h' : views'.Asks kind views'') :
    views.Asks kind views'' := by
  obtain ⟨calls, hcalls, hkind⟩ := h
  obtain ⟨calls', hcalls', hkind'⟩ := h'
  refine ⟨calls' ++ calls, by rw [hcalls', hcalls, List.append_assoc], fun c hc => ?_⟩
  exact (List.mem_append.1 hc).elim (hkind' c) (hkind c)

theorem Views.Asks.call (h : views.Asks kind views') {c : Call} (hc : kind c) :
    views.Asks kind (views'.call c) :=
  h.trans ⟨[c], rfl, fun d hd => by rwa [List.mem_singleton.1 hd]⟩

theorem Views.Asks.mono {kind' : Call → Prop} (h : views.Asks kind views')
    (hkind : ∀ c, kind c → kind' c) : views.Asks kind' views' := by
  obtain ⟨calls, hcalls, hall⟩ := h
  exact ⟨calls, hcalls, fun c hc => hkind c (hall c hc)⟩

end Asks

/-- Views were asked something, but not created, recycled or moved. -/
structure OnlyCalls (kind : Call → Prop) (views views' : Views) : Prop where
  inuse_eq : views'.pool_inuse = views.pool_inuse
  free_eq : views'.pool_free = views.pool_free
  created_eq : views'.created = views.created
  asks : views.Asks kind views'

theorem OnlyCalls.refl (kind : Call → Prop) (views : Views) : OnlyCalls kind views views :=
  ⟨rfl, rfl, rfl, .refl rfl⟩

theorem OnlyCalls.sound {kind : Call → Prop} {views views' : Views}
    (h : OnlyCalls kind views views') (hsound : Sound views) : Sound views' := by
  refine hsound.of_owned_eq ?_ h.created_eq
  rw [Views.owned, Views.owned, h.inuse_eq, h.free_eq]

/-- A call that binds a view. -/
def Call.Binds : Call → Prop
  | .bindView .. => True
  | _ => False

/-- A call that neither binds a view nor places one. -/
def Call.Quiet : Call → Prop
  | .bindView .. | .setGridCell .. => False
  | _ => True

/-- What a call binds a view to. -/
def Call.bound (view : ℕ) : Call → Option (Option ℕ × ℤ)
  | .bindView item data position => if item = view then some (data, position) else none
  | _ => none

/-- Where a call places a view. -/
def Call.placed (view : ℕ) : Call → Option (ℤ × ℤ)
  | .setGridCell item col row => if item = view then some (col, row) else none
  | _ => none

/-- The last `bind_view` of a view. -/
def Views.lastBind (views : Views) (view : ℕ) : Option (Option ℕ × ℤ) :=
  views.calls.findSome? (Call.bound view)

/-- The last `lv_obj_set_grid_cell` of a view. -/
def Views.lastCell (views : Views) (view : ℕ) : Option (ℤ × ℤ) :=
  views.calls.findSome? (Call.placed view)

theorem lastBind_call (views : Views) (c : Call) (view : ℕ) :
    (views.call c).lastBind view = (c.bound view).or (views.lastBind view) := by
  rw [Views.lastBind, Views.call, List.findSome?_cons]
  cases c.bound view <;> rfl

theorem lastCell_call (views : Views) (c : Call) (view : ℕ) :
    (views.call c).lastCell view = (c.placed view).or (views.lastCell view) := by
  rw [Views.lastCell, Views.call, List.findSome?_cons]
  cases c.placed view <;> rfl

/-- Calls that do not concern a view leave what it was last asked. -/
theorem lastBind_of_asks {kind : Call → Prop} {views views' : Views} {view : ℕ}
    (h : views.Asks kind views') (hkind : ∀ c, kind c → c.bound view = none) :
    views'.lastBind view = views.lastBind view := by
  obtain ⟨calls, hcalls, hall⟩ := h
  have hnone : calls.findSome? (Call.bound view) = none :=
    List.findSome?_eq_none_iff.2 fun c hc => hkind c (hall c hc)
  rw [Views.lastBind, hcalls, List.findSome?_append, hnone]
  rfl

theorem lastCell_of_asks {kind : Call → Prop} {views views' : Views} {view : ℕ}
    (h : views.Asks kind views') (hkind : ∀ c, kind c → c.placed view = none) :
    views'.lastCell view = views.lastCell view := by
  obtain ⟨calls, hcalls, hall⟩ := h
  have hnone : calls.findSome? (Call.placed view) = none :=
    List.findSome?_eq_none_iff.2 fun c hc => hkind c (hall c hc)
  rw [Views.lastCell, hcalls, List.findSome?_append, hnone]
  rfl

theorem Call.Quiet.bound_eq {c : Call} (h : c.Quiet) (view : ℕ) : c.bound view = none := by
  cases c with
  | bindView => exact h.elim
  | _ => rfl

theorem Call.Quiet.placed_eq {c : Call} (h : c.Quiet) (view : ℕ) : c.placed view = none := by
  cases c with
  | setGridCell => exact h.elim
  | _ => rfl

/-! ## Recycling -/

/-- A node is gone from the in-use pool, its view is in the free pool. -/
structure Dropped (views views' : Views) (a : ViewPool) (node : ViewPoolNode) (b : ViewPool) :
    Prop where
  inuse_eq : views'.pool_inuse = a ++ b
  free_eq : views'.pool_free = ⟨-1, node.item⟩ :: views.pool_free
  created_eq : views'.created = views.created
  asks : views.Asks Call.Quiet views'

/-- What `grid_recycle_item` can do. -/
theorem gridRecycleItem_cases {position : ℤ} {optional : Bool} {views views' : Views}
    (h : gridRecycleItem position optional views = .ok views') :
    (viewPoolNodeByPosition views.pool_inuse position = none ∧ views' = views) ∨
      ∃ a node b, views.pool_inuse = a ++ node :: b ∧ node.position = position ∧
        (∀ m ∈ a, m.position ≠ position) ∧ Dropped views views' a node b := by
  rw [gridRecycleItem, viewPoolTakeByPosition] at h
  cases hnode : viewPoolNodeByPosition views.pool_inuse position with
  | none =>
      rw [hnode] at h
      cases optional
      · cases h
      · cases h
        exact .inl ⟨rfl, rfl⟩
  | some node =>
      rw [hnode] at h
      cases h
      obtain ⟨hposition, a, b, hpool, ha⟩ := nodeByPosition_split hnode
      refine .inr ⟨a, node, b, hpool, hposition, ha, ?_, rfl, rfl, ?_⟩
      · change views.pool_inuse.eraseP (·.position == position) = a ++ b
        rw [hpool, eraseP_append ha hposition]
      · exact ⟨[.addFlagHidden node.item, .sendDefocused node.item], rfl, by simp [Call.Quiet]⟩

theorem Dropped.owned_eq {views views' : Views} {a b : ViewPool} {node : ViewPoolNode}
    (h : Dropped views views' a node b) (hpool : views.pool_inuse = a ++ node :: b) :
    views'.owned = views.owned := by
  rw [Views.owned, Views.owned, h.inuse_eq, h.free_eq, hpool]
  simp only [List.map_append, List.map_cons, ← coe_add, ← cons_coe, add_cons, cons_add]

theorem owned_gridRecycleItem {position : ℤ} {optional : Bool} {views views' : Views}
    (h : gridRecycleItem position optional views = .ok views') :
    views'.owned = views.owned ∧ views'.created = views.created := by
  rcases gridRecycleItem_cases h with ⟨-, rfl⟩ | ⟨a, node, b, hpool, -, -, hdropped⟩
  · exact ⟨rfl, rfl⟩
  · exact ⟨hdropped.owned_eq hpool, hdropped.created_eq⟩

/-- Recycling brings no node into use, and asks nothing of the others. -/
theorem recycle_quiet {position : ℤ} {optional : Bool} {views views' : Views}
    (h : gridRecycleItem position optional views = .ok views') :
    views.Asks Call.Quiet views' ∧ ∀ m ∈ views'.pool_inuse, m ∈ views.pool_inuse := by
  rcases gridRecycleItem_cases h with ⟨-, rfl⟩ | ⟨a, node, b, hpool, -, -, hdropped⟩
  · exact ⟨.refl rfl, fun m hm => hm⟩
  · refine ⟨hdropped.asks, fun m hm => ?_⟩
    rw [hdropped.inuse_eq] at hm
    rw [hpool]
    exact List.mem_append.2 ((List.mem_append.1 hm).imp_right (List.mem_cons_of_mem _))

/-- Recycling leaves every view in one node. -/
theorem Sound.recycle {position : ℤ} {optional : Bool} {views views' : Views} (h : Sound views)
    (hrun : gridRecycleItem position optional views = .ok views') : Sound views' :=
  h.of_owned_eq (owned_gridRecycleItem hrun).1 (owned_gridRecycleItem hrun).2

/-! ## Showing -/

/-- The view that is taken was in no node, or is in none any more. -/
theorem takeFree_eq (views : Views) :
    ∃ views' item, takeFree views = (views', item) ∧ views'.pool_inuse = views.pool_inuse ∧
      views.Asks Call.Quiet views' ∧
        (Sound views → (item ::ₘ views'.owned).Nodup ∧
          ∀ i ∈ item ::ₘ views'.owned, i < views'.created) := by
  rw [takeFree]
  cases hfree : views.pool_free with
  | nil =>
      let views' := { views with pool_free := [], created := views.created + 1 }
      have howned : (views'.call (.createView views.created)).owned = views.owned := by
        rw [Views.owned, Views.owned, hfree]
        rfl
      refine ⟨_, _, rfl, rfl, (Views.Asks.refl rfl).call trivial, fun hsound => ?_⟩
      rw [howned]
      refine ⟨nodup_cons.2 ⟨fun hmem => ?_, hsound.nodup⟩, fun i hi => ?_⟩
      · exact (hsound.lt_created _ hmem).ne rfl
      · rcases mem_cons.1 hi with rfl | hi
        · exact Nat.lt_succ_self _
        · exact Nat.lt_succ_of_lt (hsound.lt_created i hi)
  | cons head next =>
      have howned : head.item ::ₘ { views with pool_free := next }.owned = views.owned := by
        rw [Views.owned, Views.owned, hfree, List.map_cons, ← cons_coe, add_cons]
      refine ⟨_, _, rfl, rfl, .refl rfl, fun hsound => ?_⟩
      rw [howned]
      exact ⟨hsound.nodup, hsound.lt_created⟩

/-- What `grid_obtain_item` can do. -/
theorem gridObtainItem_cases (position : ℤ) (views : Views) :
    (∃ node, viewPoolNodeByPosition views.pool_inuse position = some node ∧
        gridObtainItem position views = (views, node.item, false)) ∨
      (viewPoolNodeByPosition views.pool_inuse position = none ∧
        ∃ views' item, gridObtainItem position views = (views', item, true) ∧
          views'.pool_inuse = ⟨position, item⟩ :: views.pool_inuse ∧
          views.Asks Call.Quiet views' ∧ (Sound views → Sound views')) := by
  rw [gridObtainItem]
  cases hnode : viewPoolNodeByPosition views.pool_inuse position with
  | some node => exact .inl ⟨node, rfl, rfl⟩
  | none =>
      obtain ⟨taken, item, htake, hinuse, hasks, hsound⟩ := takeFree_eq views
      refine .inr ⟨rfl, { taken.call (.clearFlagHidden item) with
        pool_inuse := viewPoolPut taken.pool_inuse position item }, item, by rw [htake]; rfl, ?_,
        hasks.trans ⟨[.clearFlagHidden item], rfl, by simp [Call.Quiet]⟩, fun h => ?_⟩
      · change (⟨position, item⟩ :: taken.pool_inuse : ViewPool) = _
        rw [hinuse]
      · obtain ⟨hnodup, hlt⟩ := hsound h
        rw [Views.owned, ← cons_add] at hnodup hlt
        exact ⟨hnodup, hlt⟩

end CommonsC.GridView
