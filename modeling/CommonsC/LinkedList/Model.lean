import Mathlib.Data.List.Nodup
import Mathlib.Logic.Function.Basic
import Mathlib.Tactic.Simps.Basic

/-!
# CommonsC.LinkedList.Model

The doubly linked list of `util/linked-list/linked_list.h`, at the level of its
links: the header is instantiated for a type of nodes, and a node is anything
with a `prev` and a `next`.

`Linked links head xs` says that the links from `head` on are those of the list
`xs`.  Every operation that the header performs on such a list performs the
list operation it is named after, and leaves the links of all other nodes
alone:

* `append_linked` — the node comes last (`xs ++ [node]`);
* `remove_linked` — the node is erased (`xs.erase node`);
* `unlinkHead_linked` — the first node is taken off;
* `len_eq`, `eq_of_findBy` — the traversals that change nothing.

A traversal takes fuel, for a list that is not linked up may have no end; on a
linked list any fuel above its length will do.
-/

namespace CommonsC.LinkedList

open Function (update)

/-- The links of all nodes. -/
structure Links (ν : Type*) where
  prev : ν → Option ν
  next : ν → Option ν

variable {ν : Type*}

namespace Links

section Changes

variable [DecidableEq ν]

/-- `node->prev = p`. -/
@[simps] def setPrev (l : Links ν) (node : ν) (p : Option ν) : Links ν :=
  { l with prev := update l.prev node p }

/-- `node->next = q`. -/
@[simps] def setNext (l : Links ν) (node : ν) (q : Option ν) : Links ν :=
  { l with next := update l.next node q }

end Changes

/-! ## The operations -/

/-- `while (cur->next != NULL) cur = cur->next;`. -/
def last (l : Links ν) : Nat → ν → Option ν
  | 0, _ => none
  | fuel + 1, cur =>
      match l.next cur with
      | some q => last l fuel q
      | none => some cur

/-- `append(p, node)`: the new head and the links. -/
def append [DecidableEq ν] (l : Links ν) (fuel : Nat) (p : Option ν) (node : ν) :
    Option (Option ν × Links ν) :=
  match p with
  | none => some (some node, l)
  | some cur => (l.last fuel cur).map fun cur =>
      (p, (l.setNext cur (some node)).setPrev node (some cur))

/-- `remove(head, node)`: the new head and the links. -/
def remove [DecidableEq ν] (l : Links ν) (head : Option ν) (node : ν) : Option ν × Links ν :=
  let prev := l.prev node
  let next := l.next node
  let (head, l) :=
    match prev with
    | some p => (head, l.setNext p next)
    | none => (next, l)
  match next with
  | some q => (head, l.setPrev q prev)
  | none => (head, l)

/-- `head = node->next; if (head != NULL) head->prev = NULL;`. -/
def unlinkHead [DecidableEq ν] (l : Links ν) (node : ν) : Option ν × Links ν :=
  match l.next node with
  | some q => (some q, l.setPrev q none)
  | none => (none, l)

/-- `len(p)`. -/
def len (l : Links ν) : Nat → Option ν → Option Nat
  | _, none => some 0
  | 0, some _ => none
  | fuel + 1, some cur => (len l fuel (l.next cur)).map (· + 1)

/-- `find_by(p, v, fn)`, where `fn` says which nodes compare equal to `v`. -/
def findBy (l : Links ν) (fn : ν → Bool) : Nat → Option ν → Option (Option ν)
  | _, none => some none
  | 0, some _ => none
  | fuel + 1, some ret => if fn ret then some (some ret) else findBy l fn fuel (l.next ret)

end Links

/-! ## Lists in the links -/

/-- The links from `head` on go through the nodes `xs` and on to `stop`, and
those of each node lead back to the one before it, `before` the first one. -/
def Segment (l : Links ν) (before head : Option ν) : List ν → Option ν → Prop
  | [], stop => head = stop
  | x :: xs, stop =>
      head = some x ∧ l.prev x = before ∧ Segment l (some x) (l.next x) xs stop

/-- `head` is the head of a doubly linked list with the nodes `xs`. -/
def Linked (l : Links ν) (head : Option ν) (xs : List ν) : Prop := Segment l none head xs none

/-- The links from `head` on go through the nodes `xs` to their end. -/
def Forward (l : Links ν) (head : Option ν) : List ν → Prop
  | [] => head = none
  | x :: xs => head = some x ∧ Forward l (l.next x) xs

variable {l l' : Links ν} {before head stop : Option ν} {xs ys : List ν} {x : ν}

/-- A segment depends on the links of its own nodes only. -/
theorem Segment.frame (h : Segment l before head xs stop)
    (hsame : ∀ x ∈ xs, l'.prev x = l.prev x ∧ l'.next x = l.next x) :
    Segment l' before head xs stop := by
  induction xs generalizing before head with
  | nil => exact h
  | cons x xs ih =>
      obtain ⟨hhead, hprev, hrest⟩ := h
      obtain ⟨hp, hn⟩ := hsame x (by simp)
      refine ⟨hhead, hp.trans hprev, ?_⟩
      rw [hn]
      exact ih hrest fun y hy => hsame y (by simp [hy])

/-- Segments are cut and joined at any node. -/
theorem segment_append :
    Segment l before head (xs ++ ys) stop ↔
      ∃ mid, Segment l before head xs mid ∧ Segment l (xs.getLast?.or before) mid ys stop := by
  induction xs generalizing before head with
  | nil => simp [Segment]
  | cons x xs ih =>
      have hlast : ((x :: xs).getLast?).or before = (xs.getLast?).or (some x) := by
        cases xs with
        | nil => rfl
        | cons y ys => simp [List.getLast?_cons]
      simp only [List.cons_append, Segment, ih, hlast]
      constructor
      · rintro ⟨hhead, hprev, mid, hxs, hys⟩
        exact ⟨mid, ⟨hhead, hprev, hxs⟩, hys⟩
      · rintro ⟨mid, ⟨hhead, hprev, hxs⟩, hys⟩
        exact ⟨hhead, hprev, mid, hxs, hys⟩

/-- The last node of a segment. -/
theorem segment_concat :
    Segment l before head (xs ++ [x]) stop ↔
      Segment l before head xs (some x) ∧ l.prev x = xs.getLast?.or before ∧ l.next x = stop := by
  rw [segment_append]
  constructor
  · rintro ⟨mid, hxs, rfl, hprev, hnext⟩
    exact ⟨hxs, hprev, hnext⟩
  · rintro ⟨hxs, hprev, hnext⟩
    exact ⟨some x, hxs, rfl, hprev, hnext⟩

/-- A segment up to the end is linked forward. -/
theorem segment_forward (h : Segment l before head xs none) : Forward l head xs := by
  induction xs generalizing before head with
  | nil => exact h
  | cons x xs ih => exact ⟨h.1, ih h.2.2⟩

theorem Linked.forward (h : Linked l head xs) : Forward l head xs := segment_forward h

/-- What is linked forward from a node is determined by it. -/
theorem Forward.unique (h : Forward l head xs) (h' : Forward l head ys) : xs = ys := by
  induction xs generalizing head ys with
  | nil =>
      obtain rfl : head = none := h
      cases ys with
      | nil => rfl
      | cons y ys => cases h'.1
  | cons x xs ih =>
      obtain ⟨rfl, hrest⟩ := h
      cases ys with
      | nil => cases h'
      | cons y ys =>
          obtain ⟨hxy, hrest'⟩ := h'
          cases hxy
          rw [ih hrest hrest']

/-- The part behind any node of a forward list is linked forward. -/
theorem Forward.suffix (h : Forward l head (xs ++ x :: ys)) : Forward l (some x) (x :: ys) := by
  induction xs generalizing head with
  | nil =>
      obtain ⟨rfl, hrest⟩ := h
      exact ⟨rfl, hrest⟩
  | cons y xs ih => exact ih h.2

/-- A list that comes to an end has no node twice. -/
theorem Forward.nodup (h : Forward l head xs) : xs.Nodup := by
  induction xs generalizing head with
  | nil => exact List.nodup_nil
  | cons x xs ih =>
      refine List.nodup_cons.2 ⟨fun hmem => ?_, ih h.2⟩
      -- From the second `x` on the list would be the same as from the first.
      obtain ⟨ys, zs, rfl⟩ := List.append_of_mem hmem
      have hagain : Forward l (some x) (x :: zs) := Forward.suffix h.2
      have hfirst : Forward l (some x) (x :: (ys ++ x :: zs)) := ⟨rfl, h.2⟩
      have hsame := Forward.unique hagain hfirst
      have hlen := congrArg List.length hsame
      simp only [List.length_cons, List.length_append] at hlen
      omega

/-! ## Traversals -/

/-- `len` counts the nodes. -/
theorem len_eq (h : Forward l head xs) (fuel : Nat) :
    l.len fuel head = if xs.length ≤ fuel then some xs.length else none := by
  induction xs generalizing head fuel with
  | nil =>
      obtain rfl : head = none := h
      cases fuel <;> rfl
  | cons x xs ih =>
      obtain ⟨rfl, hrest⟩ := h
      cases fuel with
      | zero => rfl
      | succ fuel =>
          rw [Links.len, ih hrest]
          by_cases hle : xs.length ≤ fuel <;> simp [hle]

/-- `find_by` finds the first node that compares equal. -/
theorem eq_of_findBy (h : Forward l head xs) {fn : ν → Bool} {fuel : Nat} {r : Option ν}
    (hrun : l.findBy fn fuel head = some r) : xs.find? fn = r := by
  induction xs generalizing head fuel with
  | nil =>
      obtain rfl : head = none := h
      cases fuel <;> exact Option.some.inj hrun
  | cons x xs ih =>
      obtain ⟨rfl, hrest⟩ := h
      cases fuel with
      | zero => cases hrun
      | succ fuel =>
          rw [Links.findBy] at hrun
          cases hx : fn x with
          | true =>
              rw [hx, if_pos rfl] at hrun
              rw [List.find?_cons_of_pos hx]
              exact Option.some.inj hrun
          | false =>
              rw [hx, if_neg (by simp)] at hrun
              rw [List.find?_cons_of_neg (by simp [hx])]
              exact ih hrest hrun

/-- `find_by` comes to an end. -/
theorem findBy_returns (h : Forward l head xs) (fn : ν → Bool) {fuel : Nat}
    (hfuel : xs.length ≤ fuel) : ∃ r, l.findBy fn fuel head = some r := by
  induction xs generalizing head fuel with
  | nil =>
      obtain rfl : head = none := h
      cases fuel <;> exact ⟨none, rfl⟩
  | cons x xs ih =>
      obtain ⟨rfl, hrest⟩ := h
      obtain ⟨fuel, rfl⟩ : ∃ k, fuel = k + 1 := ⟨fuel - 1, by simp at hfuel; omega⟩
      rw [Links.findBy]
      split
      · exact ⟨_, rfl⟩
      · exact ih hrest (by simpa using hfuel)

/-- The search for the end of a list finds its last node. -/
theorem last_eq {c : ν} (h : Segment l before (some x) (xs ++ [c]) none) (fuel : Nat) :
    l.last fuel x = if xs.length < fuel then some c else none := by
  induction xs generalizing before x fuel with
  | nil =>
      obtain ⟨hxc, -, hnext⟩ := h
      obtain rfl : x = c := Option.some.inj hxc
      obtain hnext : l.next x = none := hnext
      cases fuel with
      | zero => rfl
      | succ fuel =>
          rw [Links.last, hnext]
          rfl
  | cons y ys ih =>
      obtain ⟨hxy, -, hrest⟩ := h
      obtain rfl : x = y := Option.some.inj hxy
      cases fuel with
      | zero => rfl
      | succ fuel =>
          obtain ⟨q, hq⟩ : ∃ q, l.next x = some q := by
            cases ys with
            | nil => exact ⟨c, hrest.1⟩
            | cons z zs => exact ⟨z, hrest.1⟩
          rw [Links.last, hq]
          dsimp only
          rw [ih (hq ▸ hrest)]
          simp

/-! ## Changes -/

/-- The links of the nodes off `S` are the same. -/
def SameOff (l l' : Links ν) (S : ν → Prop) : Prop :=
  ∀ x, ¬S x → l'.prev x = l.prev x ∧ l'.next x = l.next x

/-- A list that is off the change stays as it is. -/
theorem Linked.sameOff {S : ν → Prop} (h : Linked l head xs) (hsame : SameOff l l' S)
    (hoff : ∀ x ∈ xs, ¬S x) : Linked l' head xs :=
  Segment.frame h fun x hx => hsame x (hoff x hx)

theorem Forward.sameOff {S : ν → Prop} (h : Forward l head xs) (hsame : SameOff l l' S)
    (hoff : ∀ x ∈ xs, ¬S x) : Forward l' head xs := by
  induction xs generalizing head with
  | nil => exact h
  | cons x xs ih =>
      refine ⟨h.1, ?_⟩
      rw [(hsame x (hoff x (by simp))).2]
      exact ih h.2 fun y hy => hoff y (by simp [hy])

variable [DecidableEq ν] {node : ν}

theorem setPrev_sameOff (l : Links ν) (x : ν) (p : Option ν) :
    SameOff l (l.setPrev x p) (· = x) := fun _ hy => ⟨Function.update_of_ne hy _ _, rfl⟩

theorem setNext_sameOff (l : Links ν) (x : ν) (q : Option ν) :
    SameOff l (l.setNext x q) (· = x) := fun _ hy => ⟨rfl, Function.update_of_ne hy _ _⟩

/-- `append` returns on a linked list. -/
theorem append_returns (h : Linked l head xs) (node : ν) {fuel : Nat} (hfuel : xs.length ≤ fuel) :
    ∃ r, l.append fuel head node = some r := by
  rcases List.eq_nil_or_concat' xs with rfl | ⟨ys, c, rfl⟩
  · obtain rfl : head = none := h
    exact ⟨_, rfl⟩
  · obtain ⟨x, rfl⟩ : ∃ x, head = some x := by
      cases ys with
      | nil => exact ⟨_, h.1⟩
      | cons y ys => exact ⟨_, h.1⟩
    have hlt : ys.length < fuel := by simp at hfuel; omega
    rw [Links.append, last_eq h, if_pos hlt]
    exact ⟨_, rfl⟩

/-- `append` puts a detached node behind the list. -/
theorem append_linked (h : Linked l head xs) (hp : l.prev node = none) (hn : l.next node = none)
    (hmem : node ∉ xs) {fuel : Nat} {head' : Option ν}
    (hrun : l.append fuel head node = some (head', l')) :
    Linked l' head' (xs ++ [node]) ∧ SameOff l l' fun x => x ∈ xs ∨ x = node := by
  rcases List.eq_nil_or_concat' xs with rfl | ⟨ys, c, rfl⟩
  · obtain rfl : head = none := h
    cases hrun
    exact ⟨⟨rfl, hp, hn⟩, fun _ _ => ⟨rfl, rfl⟩⟩
  · have hnodup := h.forward.nodup
    obtain ⟨x, rfl⟩ : ∃ x, head = some x := by
      cases ys with
      | nil => exact ⟨_, h.1⟩
      | cons y ys => exact ⟨_, h.1⟩
    rw [Links.append, last_eq h] at hrun
    split at hrun
    · cases hrun
      obtain ⟨hys, hprev, -⟩ := segment_concat.1 h
      obtain ⟨-, -, hdisj⟩ := List.nodup_append.1 hnodup
      have hc : ∀ y ∈ ys, y ≠ c := fun y hy => hdisj y hy c (by simp)
      have hnode : ∀ y ∈ ys ++ [c], y ≠ node := fun y hy hyn => hmem (hyn ▸ hy)
      have hcn : c ≠ node := hnode c (by simp)
      have hlinks : ∀ y ∈ ys, ((l.setNext c (some node)).setPrev node (some c)).prev y = l.prev y ∧
          ((l.setNext c (some node)).setPrev node (some c)).next y = l.next y := fun y hy =>
        ⟨Function.update_of_ne (hnode y (by simp [hy])) _ _, Function.update_of_ne (hc y hy) _ _⟩
      refine ⟨segment_concat.2 ⟨segment_concat.2 ⟨hys.frame hlinks, ?_, ?_⟩, ?_, ?_⟩, ?_⟩
      · rw [Links.setPrev_prev, Function.update_of_ne hcn, Links.setNext_prev, hprev]
      · rw [Links.setPrev_next, Links.setNext_next, Function.update_self]
      · rw [Links.setPrev_prev, Function.update_self]
        simp
      · rw [Links.setPrev_next, Links.setNext_next, Function.update_of_ne hcn.symm, hn]
      · intro y hy
        have hyc : y ≠ c := fun hyc => hy (.inl (by simp [hyc]))
        exact ⟨Function.update_of_ne (fun hyn => hy (.inr hyn)) _ _, Function.update_of_ne hyc _ _⟩
    · cases hrun

/-- `if (next) next->prev = prev;` gives the rest of a list another node before
it. -/
theorem segment_setPrev (h : Segment l before head xs none) (prev : Option ν) :
    Segment (head.elim l fun q => l.setPrev q prev) prev head xs none ∧
      SameOff l (head.elim l fun q => l.setPrev q prev) (· ∈ xs) := by
  cases xs with
  | nil =>
      obtain rfl : head = none := h
      exact ⟨rfl, fun _ _ => ⟨rfl, rfl⟩⟩
  | cons x xs =>
      have hnodup : (x :: xs).Nodup := (segment_forward h).nodup
      obtain ⟨rfl, -, hrest⟩ := h
      have hne : ∀ y ∈ xs, y ≠ x := fun y hy hyx => (List.nodup_cons.1 hnodup).1 (hyx ▸ hy)
      refine ⟨⟨rfl, Function.update_self _ _ _, ?_⟩, fun y hy => ?_⟩
      · exact hrest.frame fun y hy => ⟨Function.update_of_ne (hne y hy) _ _, rfl⟩
      · exact ⟨Function.update_of_ne (fun hyx => hy (by simp [hyx])) _ _, rfl⟩

/-- `if (prev) prev->next = next; else head = next;` leads the first part of a
list on to another node. -/
theorem segment_setNext (h : Segment l none head xs stop) (hnodup : xs.Nodup)
    (next : Option ν) :
    Segment (xs.getLast?.elim l fun p => l.setNext p next) none
        (xs.getLast?.elim next fun _ => head) xs next ∧
      SameOff l (xs.getLast?.elim l fun p => l.setNext p next) (· ∈ xs) := by
  rcases List.eq_nil_or_concat' xs with rfl | ⟨ys, c, rfl⟩
  · exact ⟨rfl, fun _ _ => ⟨rfl, rfl⟩⟩
  · obtain ⟨hys, hprev, -⟩ := segment_concat.1 h
    obtain ⟨-, -, hdisj⟩ := List.nodup_append.1 hnodup
    have hne : ∀ y ∈ ys, y ≠ c := fun y hy => hdisj y hy c (by simp)
    rw [List.getLast?_concat]
    refine ⟨segment_concat.2 ⟨?_, hprev, Function.update_self _ _ _⟩, fun y hy => ?_⟩
    · exact hys.frame fun y hy => ⟨rfl, Function.update_of_ne (hne y hy) _ _⟩
    · exact ⟨rfl, Function.update_of_ne (fun hyc => hy (by simp [hyc])) _ _⟩

theorem unlinkHead_eq (l : Links ν) (node : ν) :
    l.unlinkHead node = (l.next node, (l.next node).elim l fun q => l.setPrev q none) := by
  rw [Links.unlinkHead]
  cases l.next node <;> rfl

theorem remove_eq (l : Links ν) (head : Option ν) (node : ν) :
    l.remove head node =
      let l₁ := (l.prev node).elim l fun p => l.setNext p (l.next node)
      ((l.prev node).elim (l.next node) fun _ => head,
        (l.next node).elim l₁ fun q => l₁.setPrev q (l.prev node)) := by
  rw [Links.remove]
  cases l.prev node <;> cases l.next node <;> rfl

/-- `queue_poll` takes the first node off. -/
theorem unlinkHead_linked (h : Linked l head (node :: xs)) :
    Linked (l.unlinkHead node).2 (l.unlinkHead node).1 xs ∧
      SameOff l (l.unlinkHead node).2 (· ∈ xs) := by
  obtain ⟨-, -, hrest⟩ := h
  rw [unlinkHead_eq]
  exact segment_setPrev hrest none

/-- `remove` takes any node off. -/
theorem remove_linked (h : Linked l head xs) (hmem : node ∈ xs) :
    Linked (l.remove head node).2 (l.remove head node).1 (xs.erase node) ∧
      SameOff l (l.remove head node).2 (· ∈ xs.erase node) := by
  have hnodup := h.forward.nodup
  obtain ⟨ys, zs, rfl⟩ := List.append_of_mem hmem
  obtain ⟨hys, hnode, hdisj⟩ := List.nodup_append.1 hnodup
  have hmem : node ∉ ys := fun hmem => hdisj node hmem node (by simp) rfl
  obtain ⟨mid, hfirst, rfl, hprev, hrest⟩ := segment_append.1 h
  rw [Option.or_none] at hprev
  rw [List.erase_append_right _ hmem, List.erase_cons_head, remove_eq, hprev]
  obtain ⟨hfirst, hsame⟩ := segment_setNext hfirst hys (l.next node)
  generalize (ys.getLast?.elim l fun p => l.setNext p (l.next node)) = l₁ at hfirst hsame ⊢
  -- The rest is off the first part, and the other way round.
  have hoff : ∀ y ∈ zs, y ∉ ys := fun y hy hy' => hdisj y hy' y (by simp [hy]) rfl
  have hrest := hrest.frame fun y hy => hsame y (hoff y hy)
  obtain ⟨hrest, hsame'⟩ := segment_setPrev hrest ys.getLast?
  refine ⟨segment_append.2 ⟨_, hfirst.frame fun y hy => hsame' y fun hy' => hoff y hy' hy, ?_⟩, ?_⟩
  · rw [Option.or_none]
    exact hrest
  · intro y hy
    obtain ⟨hp, hn⟩ := hsame y fun h => hy (by simp [h])
    obtain ⟨hp', hn'⟩ := hsame' y fun h => hy (by simp [h])
    exact ⟨hp'.trans hp, hn'.trans hn⟩

end CommonsC.LinkedList
