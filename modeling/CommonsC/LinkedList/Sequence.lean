import CommonsC.Base.Numeral
import CommonsC.LinkedList.Model
import Mathlib.Data.List.Chain

/-!
# CommonsC.LinkedList.Sequence

The rest of `util/linked-list/linked_list.h`, and what the whole header does to
a sequence of nodes.

`sortedinsert` links a node in between two others, one of which may be missing
at either end; `insertBetween_linked` says once what that does to a list.  The
counter of `len`, `index` and `find_by` is of type `int`, and `none` is also
one that overflows; `nth` counts up to an `int`, and needs no fuel.

`refinesSequence` puts the operations together: on a list that is linked up each
of them does to the sequence of its nodes what it is named after.
-/

namespace CommonsC.LinkedList

open Numeral (intSucc)

variable {ν : Type*}

/-- `prev` and `next` are `NULL`. -/
def Detached (l : Links ν) (node : ν) : Prop := l.prev node = none ∧ l.next node = none

namespace Links

/-! ## The operations -/

/-- The loop of `len`, `index` and `find_by`, from `cur` on: up to the first node
at which `stop` holds, with the number of nodes before it. -/
def walk (l : Links ν) (stop : ν → Bool) : Nat → Nat → Option ν → Option (Nat × Option ν)
  | _, i, none => some (i, none)
  | 0, _, some _ => none
  | fuel + 1, i, some cur =>
      if stop cur then some (i, some cur)
      else (intSucc i).bind fun i => walk l stop fuel i (l.next cur)

/-- `len(p)`. -/
def lenInt (l : Links ν) (fuel : Nat) (p : Option ν) : Option Nat :=
  (l.walk (fun _ => false) fuel 0 p).map Prod.fst

/-- `find_by(p, v, fn)`, where `fn` says which nodes compare equal to `v`. -/
def findByInt (l : Links ν) (fn : ν → Bool) (fuel : Nat) (p : Option ν) : Option (Option ν) :=
  (l.walk fn fuel 0 p).map Prod.snd

/-- The loop of `nth` for `n < 0`. -/
def nthPrev (l : Links ν) (n i : Int) (ret : Option ν) : Option ν :=
  match ret with
  | none => none
  | some cur => if i > n then nthPrev l n (i - 1) (l.prev cur) else some cur
termination_by (i - n).toNat

/-- The loop of `nth` for other `n`. -/
def nthNext (l : Links ν) (n i : Int) (ret : Option ν) : Option ν :=
  match ret with
  | none => none
  | some cur => if i < n then nthNext l n (i + 1) (l.next cur) else some cur
termination_by (n - i).toNat

/-- `nth(p, n)`. -/
def nth (l : Links ν) (p : Option ν) (n : Int) : Option ν :=
  if n < 0 then nthPrev l n 0 p else nthNext l n 0 p

/-- The loop of `sortedinsert` that locates the node after which `node` is to be
inserted. -/
def locate (l : Links ν) (fn : ν → ν → Int) (node : ν) : Nat → ν → Option ν
  | 0, _ => none
  | fuel + 1, current =>
      match l.next current with
      | some q => if fn q node < 0 then locate l fn node fuel q else some current
      | none => some current

variable [DecidableEq ν]

/-- `index(p, f)`. -/
def indexInt (l : Links ν) (f : ν) (fuel : Nat) (p : Option ν) : Option Int :=
  (l.walk (· = f) fuel 0 p).map fun (i, cur) => if cur.isSome then (i : Int) else -1

/-- `sortedinsert(p, node, fn)`: the new head and the links. -/
def sortedInsert (l : Links ν) (fuel : Nat) (p : Option ν) (node : ν) (fn : ν → ν → Int) :
    Option (Option ν × Links ν) :=
  match p with
  | none => some (some node, l)
  | some head =>
      if fn head node ≥ 0 then
        some (some node, (l.setNext node (some head)).setPrev head (some node))
      else (l.locate fn node fuel head).map fun current =>
        let l := l.setNext node (l.next current)
        let l :=
          match l.next current with
          | some q => l.setPrev q (some node)
          | none => l
        (some head, (l.setNext current (some node)).setPrev node (some current))

/-- What `queue_poll` does with the links of the head, `task`. -/
def pollHead (l : Links ν) (task : ν) : Option ν × Links ν :=
  let (head, l) := l.unlinkHead task
  (head, (l.setPrev task none).setNext task none)

end Links

variable {l l' : Links ν} {head before stop : Option ν} {xs ys zs : List ν} {node : ν}

/-! ## Traversals -/

/-- The walk gets as far as the counter is an `int`. -/
theorem walk_eq (h : Forward l head xs) (stop : ν → Bool) {fuel i : Nat} (hfuel : xs.length ≤ fuel)
    (hint : i < 2 ^ 31) :
    l.walk stop fuel i head =
      if i + xs.findIdx stop < 2 ^ 31 then some (i + xs.findIdx stop, xs.find? stop) else none := by
  induction xs generalizing head fuel i with
  | nil =>
      obtain rfl : head = none := h
      rw [List.findIdx_nil, Nat.add_zero, if_pos hint]
      cases fuel <;> rfl
  | cons x xs ih =>
      obtain ⟨rfl, hrest⟩ := h
      obtain ⟨fuel, rfl⟩ : ∃ k, fuel = k + 1 := ⟨fuel - 1, by simp at hfuel; omega⟩
      rw [List.length_cons, Nat.add_le_add_iff_right] at hfuel
      rw [Links.walk, List.findIdx_cons]
      cases hx : stop x with
      | true =>
          rw [if_pos rfl, cond_true, Nat.add_zero, if_pos hint, List.find?_cons_of_pos hx]
      | false =>
          rw [if_neg (by simp), List.find?_cons_of_neg (by simp [hx]), cond_false,
            Nat.add_comm (xs.findIdx stop), ← Nat.add_assoc]
          by_cases hlt : i + 1 < 2 ^ 31
          · rw [Numeral.intSucc_of_lt hlt, Option.bind_some, ih hrest hfuel hlt]
          · rw [Numeral.intSucc_of_ge (by omega), if_neg (by omega)]
            rfl

/-- The counter of a walk is an `int`. -/
theorem lt_of_walk {stop : ν → Bool} {fuel i : Nat} {r : Nat × Option ν} (hint : i < 2 ^ 31)
    (h : l.walk stop fuel i head = some r) : r.1 < 2 ^ 31 := by
  induction fuel generalizing head i with
  | zero =>
      cases head with
      | none =>
          cases h
          exact hint
      | some x => cases h
  | succ fuel ih =>
      cases head with
      | none =>
          cases h
          exact hint
      | some x =>
          rw [Links.walk] at h
          split at h
          · cases h
            exact hint
          · obtain ⟨i', hsucc, h⟩ := Option.bind_eq_some_iff.1 h
            rw [Numeral.intSucc] at hsucc
            split at hsucc
            · next hlt =>
                cases hsucc
                exact ih hlt h
            · cases hsucc

/-- `len` counts the nodes. -/
theorem lenInt_eq (h : Forward l head xs) {fuel : Nat} (hfuel : xs.length ≤ fuel) :
    l.lenInt fuel head = if xs.length < 2 ^ 31 then some xs.length else none := by
  have hall : xs.findIdx (fun _ => false) = xs.length := List.findIdx_eq_length.2 fun _ _ => rfl
  rw [Links.lenInt, walk_eq h _ hfuel (by decide), hall, Nat.zero_add]
  split <;> rfl

/-- `find_by` finds the first node that compares equal. -/
theorem findByInt_eq (h : Forward l head xs) (fn : ν → Bool) {fuel : Nat}
    (hfuel : xs.length ≤ fuel) :
    l.findByInt fn fuel head = if xs.findIdx fn < 2 ^ 31 then some (xs.find? fn) else none := by
  rw [Links.findByInt, walk_eq h _ hfuel (by decide), Nat.zero_add]
  split <;> rfl

/-- `index` is the place of a node, or -1. -/
theorem indexInt_eq [DecidableEq ν] (h : Forward l head xs) (f : ν) {fuel : Nat}
    (hfuel : xs.length ≤ fuel) :
    l.indexInt f fuel head =
      if xs.idxOf f < 2 ^ 31 then some (if f ∈ xs then (xs.idxOf f : Int) else -1) else none := by
  have hplace : xs.findIdx (fun x => decide (x = f)) = xs.idxOf f := rfl
  have hfound : (xs.find? fun x => decide (x = f)).isSome = decide (f ∈ xs) := by
    rw [Bool.eq_iff_iff, List.find?_isSome]
    simp
  rw [Links.indexInt, walk_eq h _ hfuel (by decide), Nat.zero_add, hplace]
  split
  · simp only [Option.map_some, hfound, decide_eq_true_eq]
  · rfl

/-- `nth` goes on to the node at that place. -/
theorem nthNext_eq (h : Forward l head xs) (i k : Nat) :
    l.nthNext (i + k : Nat) i head = xs[k]? := by
  induction xs generalizing head i k with
  | nil =>
      obtain rfl : head = none := h
      rw [Links.nthNext]
      rfl
  | cons x xs ih =>
      obtain ⟨rfl, hrest⟩ := h
      rw [Links.nthNext]
      cases k with
      | zero =>
          rw [if_neg (by omega)]
          rfl
      | succ k =>
          rw [if_pos (by omega), List.getElem?_cons_succ, ← ih hrest (i + 1) k]
          congr 1
          omega

theorem nth_eq (h : Forward l head xs) (n : Nat) : l.nth head n = xs[n]? := by
  have hnext := nthNext_eq h 0 n
  rw [Nat.zero_add] at hnext
  rw [Links.nth, if_neg (by omega), ← hnext]
  rfl

/-! ## Insertion -/

/-- The search stops at the last of the nodes in front that are less. -/
theorem locate_eq {x : ν} (h : Forward l (some x) (x :: xs)) (fn : ν → ν → Int) {fuel : Nat}
    (hfuel : xs.length < fuel) :
    l.locate fn node fuel x = (x :: xs.takeWhile (fn · node < 0)).getLast? := by
  induction xs generalizing x fuel with
  | nil =>
      obtain ⟨fuel, rfl⟩ : ∃ k, fuel = k + 1 := ⟨fuel - 1, by omega⟩
      obtain ⟨-, hnext⟩ := h
      rw [Links.locate, hnext]
      rfl
  | cons y xs ih =>
      obtain ⟨fuel, rfl⟩ : ∃ k, fuel = k + 1 := ⟨fuel - 1, by omega⟩
      obtain ⟨-, hnext, hrest⟩ := h
      rw [List.length_cons, Nat.add_lt_add_iff_right] at hfuel
      rw [Links.locate, hnext]
      by_cases hy : fn y node < 0
      · simp only [if_pos hy]
        rw [ih ⟨rfl, hrest⟩ hfuel, List.takeWhile_cons_of_pos (by simpa using hy),
          List.getLast?_cons_cons]
      · simp only [if_neg hy]
        rw [List.takeWhile_cons_of_neg (by simpa using hy)]
        rfl

/-- A segment begins with its first node, or with where it stops. -/
theorem head_of_segment (h : Segment l before head xs stop) : head = xs.head?.or stop := by
  cases xs with
  | nil => exact h
  | cons x xs => exact h.1

/-- The nodes before the place of `node`. -/
def less (fn : ν → ν → Int) (node : ν) (xs : List ν) : List ν := xs.takeWhile (fn · node < 0)

/-- The nodes from the first one on that compares greater or equal. -/
def notLess (fn : ν → ν → Int) (node : ν) (xs : List ν) : List ν := xs.dropWhile (fn · node < 0)

theorem less_append_notLess (fn : ν → ν → Int) (node : ν) (xs : List ν) :
    less fn node xs ++ notLess fn node xs = xs := List.takeWhile_append_dropWhile

theorem SameOff.trans {l₁ l₂ : Links ν} {S T : ν → Prop} (h : SameOff l l₁ S)
    (h' : SameOff l₁ l₂ T) : SameOff l l₂ fun x => S x ∨ T x := fun x hx =>
  have ⟨hp, hn⟩ := h x fun hS => hx (.inl hS)
  have ⟨hp', hn'⟩ := h' x fun hT => hx (.inr hT)
  ⟨hp'.trans hp, hn'.trans hn⟩

theorem SameOff.mono {S T : ν → Prop} (h : SameOff l l' S) (hST : ∀ x, S x → T x) :
    SameOff l l' T := fun x hx => h x fun hS => hx (hST x hS)

variable [DecidableEq ν]

/-- `node` between `before` and `after`. -/
def Links.insertBetween (l : Links ν) (before : Option ν) (node : ν) (after : Option ν) :
    Links ν :=
  let l := l.setNext node after
  let l := after.elim l fun q => l.setPrev q (some node)
  before.elim l fun p => (l.setNext p (some node)).setPrev node (some p)

/-- A detached node is linked in between two parts of a list. -/
theorem insertBetween_linked (h : Linked l head (ys ++ zs)) (hprev : l.prev node = none)
    (hmem : node ∉ ys ++ zs) :
    let l' := l.insertBetween ys.getLast? node zs.head?
    Linked l' (ys.getLast?.elim (some node) fun _ => head) (ys ++ node :: zs) ∧
      SameOff l l' fun x => x ∈ ys ++ zs ∨ x = node := by
  have hnodup := h.forward.nodup
  obtain ⟨hys, -, hdisj⟩ := List.nodup_append.1 hnodup
  rw [List.mem_append, not_or] at hmem
  obtain ⟨mid, hfirst, hrest⟩ := segment_append.1 h
  obtain rfl : mid = zs.head? := by
    rw [head_of_segment hrest, Option.or_none]
  rw [Links.insertBetween]
  -- `node->next = after`
  have hset := setNext_sameOff l node zs.head?
  have hnext : (l.setNext node zs.head?).next node = zs.head? := Function.update_self _ _ _
  rw [← Links.setNext_prev l node zs.head?] at hprev
  generalize l.setNext node zs.head? = l₁ at *
  have hfirst := hfirst.frame fun y hy => hset y (ne_of_mem_of_not_mem hy hmem.1)
  have hrest := hrest.frame fun y hy => hset y (ne_of_mem_of_not_mem hy hmem.2)
  -- `after->prev = node`
  obtain ⟨hlast, hsame⟩ := segment_setPrev hrest (some node)
  generalize (zs.head?.elim l₁ fun q => l₁.setPrev q (some node)) = l₂ at *
  have hoff : ∀ y ∈ ys, y ∉ zs := fun y hy hy' => hdisj y hy y hy' rfl
  have hfirst := hfirst.frame fun y hy => hsame y (hoff y hy)
  rw [← (hsame node hmem.2).1] at hprev
  rw [← (hsame node hmem.2).2] at hnext
  rcases List.eq_nil_or_concat' ys with rfl | ⟨ys, c, rfl⟩
  · refine ⟨⟨rfl, hprev, ?_⟩, (hset.trans hsame).mono (by simp [or_comm])⟩
    rw [List.getLast?_nil, Option.elim_none, hnext]
    exact hlast
  · -- `current->next = node; node->prev = current`
    obtain ⟨hfirst, hsame'⟩ := segment_setNext hfirst hys (some node)
    rw [List.getLast?_concat, Option.elim_some] at *
    rw [Option.elim_some] at hfirst
    rw [← (hsame' node hmem.1).2] at hnext
    have hlast := hlast.frame fun y hy => hsame' y fun hy' => hoff y hy' hy
    generalize l₂.setNext c (some node) = l₃ at *
    have hset' := setPrev_sameOff l₃ node (some c)
    refine ⟨segment_append.2 ⟨some node, ?_, rfl, ?_, ?_⟩, ?_⟩
    · exact hfirst.frame fun y hy => hset' y (ne_of_mem_of_not_mem hy hmem.1)
    · rw [Links.setPrev_prev, Function.update_self, List.getLast?_concat]
      rfl
    · rw [Links.setPrev_next, hnext]
      exact hlast.frame fun y hy => hset' y (ne_of_mem_of_not_mem hy hmem.2)
    · refine (((hset.trans hsame).trans hsame').trans hset').mono fun x hx => ?_
      rw [List.mem_append (s := ys ++ [c])]
      tauto

/-- `sortedinsert` links the node in before the first one that is not less. -/
theorem sortedInsert_eq (h : Linked l head xs) (hnode : Detached l node) (hmem : node ∉ xs)
    (fn : ν → ν → Int) {fuel : Nat} (hfuel : xs.length ≤ fuel) :
    l.sortedInsert fuel head node fn =
      some ((less fn node xs).getLast?.elim (some node) fun _ => head,
        l.insertBetween (less fn node xs).getLast? node (notLess fn node xs).head?) := by
  cases xs with
  | nil =>
      obtain rfl : head = none := h
      have hset : l.setNext node none = l := by
        rw [Links.setNext, ← hnode.2, Function.update_eq_self]
      exact congrArg (fun l => some (some node, l)) hset.symm
  | cons x xs =>
      obtain ⟨rfl, -, -⟩ := id h
      rw [Links.sortedInsert, less, notLess]
      by_cases hx : fn x node < 0
      · have htake : (x :: xs).takeWhile (fn · node < 0) = x :: xs.takeWhile (fn · node < 0) :=
          List.takeWhile_cons_of_pos (by simpa using hx)
        obtain ⟨ys, c, hys⟩ := (List.eq_nil_or_concat' ((x :: xs).takeWhile (fn · node < 0))
          ).resolve_left (by rw [htake]; exact List.cons_ne_nil _ _)
        have hc : c ≠ node := by
          refine ne_of_mem_of_not_mem (List.takeWhile_subset (fn · node < 0) ?_) hmem
          rw [hys]
          exact List.mem_append_right _ List.mem_cons_self
        have hnext : l.next c = ((x :: xs).dropWhile (fn · node < 0)).head? := by
          rw [← less_append_notLess fn node (x :: xs), less, hys, notLess] at h
          obtain ⟨mid, hfirst, hrest⟩ := segment_append.1 h
          rw [(segment_concat.1 hfirst).2.2, head_of_segment hrest, Option.or_none]
        rw [if_neg (by omega), locate_eq h.forward fn hfuel, ← htake, hys, List.getLast?_concat,
          Option.map_some]
        simp only [Links.setNext_next, Function.update_of_ne hc, hnext]
        cases ((x :: xs).dropWhile (fn · node < 0)).head? <;> rfl
      · have htake : (x :: xs).takeWhile (fn · node < 0) = [] :=
          List.takeWhile_cons_of_neg (by simpa using hx)
        have hdrop : (x :: xs).dropWhile (fn · node < 0) = x :: xs :=
          List.dropWhile_cons_of_neg (by simpa using hx)
        rw [if_pos (by omega), htake, hdrop]
        rfl

/-- `sortedinsert` inserts a detached node before the first one that is not
less. -/
theorem sortedInsert_linked (h : Linked l head xs) (hnode : Detached l node) (hmem : node ∉ xs)
    (fn : ν → ν → Int) {fuel : Nat} (hfuel : xs.length ≤ fuel) :
    ∃ head' l', l.sortedInsert fuel head node fn = some (head', l') ∧
      Linked l' head' (less fn node xs ++ node :: notLess fn node xs) ∧
      SameOff l l' fun x => x ∈ xs ∨ x = node := by
  have hsplit := less_append_notLess fn node xs
  have hinsert := insertBetween_linked (hsplit.symm ▸ h) hnode.1 (hsplit.symm ▸ hmem)
  rw [hsplit] at hinsert
  exact ⟨_, _, sortedInsert_eq h hnode hmem fn hfuel, hinsert⟩

/-- `queue_poll` takes the first node off, and detaches it. -/
theorem pollHead_linked (h : Linked l head (node :: xs)) :
    Linked (l.pollHead node).2 (l.pollHead node).1 xs ∧ Detached (l.pollHead node).2 node ∧
      SameOff l (l.pollHead node).2 fun x => x ∈ xs ∨ x = node := by
  have hmem : node ∉ xs := (List.nodup_cons.1 h.forward.nodup).1
  obtain ⟨hlinked, hsame⟩ := unlinkHead_linked h
  have hset := (setPrev_sameOff (l.unlinkHead node).2 node none).trans
    (setNext_sameOff ((l.unlinkHead node).2.setPrev node none) node none)
  rw [Links.pollHead]
  refine ⟨hlinked.sameOff hset fun x hx => ?_,
    ⟨Function.update_self _ _ _, Function.update_self _ _ _⟩, (hsame.trans hset).mono (by tauto)⟩
  exact not_or.2 ⟨ne_of_mem_of_not_mem hx hmem, ne_of_mem_of_not_mem hx hmem⟩

/-! ## Order -/

section Order

omit [DecidableEq ν]

/-- By the comparator `y` may come right behind `x`. -/
def InOrder (fn : ν → ν → Int) (x y : ν) : Prop := fn x y < 0 ∨ 0 ≤ fn y x

/-- The sign of the comparator is that of an order. -/
structure Compares (fn : ν → ν → Int) : Prop where
  swap : ∀ x y, fn x y < 0 ↔ 0 < fn y x
  trans : ∀ x y z, fn x y ≤ 0 → fn y z ≤ 0 → fn x z ≤ 0

variable {fn : ν → ν → Int} {x : ν}

theorem lt_of_mem_less (h : x ∈ less fn node xs) : fn x node < 0 := by
  simpa using List.mem_takeWhile_imp h

theorem le_of_head_notLess (h : x ∈ (notLess fn node xs).head?) : 0 ≤ fn x node := by
  have hhead := List.head?_dropWhile_not (fn · node < 0) xs
  rw [← notLess, Option.mem_def.1 h] at hhead
  simpa using hhead

/-- Whatever the comparator does, neighbours that are in order stay so. -/
theorem inOrder_insert (h : xs.IsChain (InOrder fn)) (node : ν) :
    (less fn node xs ++ node :: notLess fn node xs).IsChain (InOrder fn) := by
  rw [← less_append_notLess fn node xs, List.isChain_append] at h
  obtain ⟨hless, hnotLess, -⟩ := h
  refine List.isChain_append.2 ⟨hless, List.isChain_cons.2 ⟨fun y hy => ?_, hnotLess⟩, ?_⟩
  · exact .inr (le_of_head_notLess hy)
  · intro x hx y hy
    obtain rfl : node = y := Option.some.inj hy
    exact .inl (lt_of_mem_less (List.mem_of_getLast? hx))

/-- A list that is sorted stays so. -/
theorem sorted_insert (hfn : Compares fn) (h : xs.Pairwise (fn · · ≤ 0)) (node : ν) :
    (less fn node xs ++ node :: notLess fn node xs).Pairwise (fn · · ≤ 0) := by
  have hsplit := less_append_notLess fn node xs
  rw [← hsplit, List.pairwise_append] at h
  obtain ⟨hless, hnotLess, hacross⟩ := h
  have hnode : ∀ y ∈ notLess fn node xs, fn node y ≤ 0 := by
    intro y hy
    cases hrest : notLess fn node xs with
    | nil => simp [hrest] at hy
    | cons z zs =>
        have hhead : z ∈ (notLess fn node xs).head? := by rw [hrest]; rfl
        have hz : 0 ≤ fn z node := le_of_head_notLess hhead
        have hz' : fn node z ≤ 0 := by
          have := hfn.swap z node
          omega
        rw [hrest] at hy hnotLess
        rcases List.mem_cons.1 hy with rfl | hy
        · exact hz'
        · exact hfn.trans node z y hz' (List.rel_of_pairwise_cons hnotLess hy)
  refine List.pairwise_append.2 ⟨hless, List.pairwise_cons.2 ⟨hnode, hnotLess⟩, fun x hx y hy => ?_⟩
  rcases List.mem_cons.1 hy with rfl | hy
  · exact (lt_of_mem_less hx).le
  · exact hacross x hx y hy

end Order

/-! ## The header -/

/-- What the operations do to a sequence of nodes.  Any fuel that is not less
than its length will do. -/
structure RefinesSequence (l : Links ν) (head : Option ν) (xs : List ν) : Prop where
  append : ∀ node, Detached l node → node ∉ xs → ∀ fuel, xs.length ≤ fuel →
    ∃ head' l', l.append fuel head node = some (head', l') ∧ Linked l' head' (xs ++ [node]) ∧
      SameOff l l' fun x => x ∈ xs ∨ x = node
  remove : ∀ node ∈ xs,
    Linked (l.remove head node).2 (l.remove head node).1 (xs.erase node) ∧
      SameOff l (l.remove head node).2 (· ∈ xs.erase node)
  sortedInsert : ∀ fn node, Detached l node → node ∉ xs → ∀ fuel, xs.length ≤ fuel →
    ∃ head' l', l.sortedInsert fuel head node fn = some (head', l') ∧
      Linked l' head' (less fn node xs ++ node :: notLess fn node xs) ∧
      SameOff l l' fun x => x ∈ xs ∨ x = node
  inOrder : ∀ fn node, xs.IsChain (InOrder fn) →
    (less fn node xs ++ node :: notLess fn node xs).IsChain (InOrder fn)
  sorted : ∀ fn node, Compares fn → xs.Pairwise (fn · · ≤ 0) →
    (less fn node xs ++ node :: notLess fn node xs).Pairwise (fn · · ≤ 0)
  pollHead : ∀ node rest, xs = node :: rest →
    Linked (l.pollHead node).2 (l.pollHead node).1 rest ∧ Detached (l.pollHead node).2 node ∧
      SameOff l (l.pollHead node).2 fun x => x ∈ rest ∨ x = node
  len : ∀ fuel, xs.length ≤ fuel →
    l.lenInt fuel head = if xs.length < 2 ^ 31 then some xs.length else none
  index : ∀ f fuel, xs.length ≤ fuel →
    l.indexInt f fuel head =
      if xs.idxOf f < 2 ^ 31 then some (if f ∈ xs then (xs.idxOf f : Int) else -1) else none
  findBy : ∀ fn fuel, xs.length ≤ fuel →
    l.findByInt fn fuel head = if xs.findIdx fn < 2 ^ 31 then some (xs.find? fn) else none
  nth : ∀ n : Nat, l.nth head n = xs[n]?

/-- **On a list that is linked up the operations of the header are those on the
sequence of its nodes.** -/
theorem refinesSequence (h : Linked l head xs) : RefinesSequence l head xs where
  append node hnode hmem fuel hfuel := by
    obtain ⟨⟨head', l'⟩, hrun⟩ := append_returns h node hfuel
    obtain ⟨hlinked, hsame⟩ := append_linked h hnode.1 hnode.2 hmem hrun
    exact ⟨head', l', hrun, hlinked, hsame⟩
  remove _ hmem := remove_linked h hmem
  sortedInsert fn _ hnode hmem _ hfuel := sortedInsert_linked h hnode hmem fn hfuel
  inOrder _ node hchain := inOrder_insert hchain node
  sorted _ node hfn hsorted := sorted_insert hfn hsorted node
  pollHead node rest hxs := pollHead_linked (hxs ▸ h)
  len _ hfuel := lenInt_eq h.forward hfuel
  index f _ hfuel := indexInt_eq h.forward f hfuel
  findBy fn _ hfuel := findByInt_eq h.forward fn hfuel
  nth n := nth_eq h.forward n

/-- The links of the numbers below `n`, in their order. -/
def numbersBelow (n : Nat) : Links Nat where
  prev i := if i = 0 then none else some (i - 1)
  next i := if i + 1 < n then some (i + 1) else none

theorem refinesSequence_two : RefinesSequence (numbersBelow 2) (some 0) [0, 1] :=
  refinesSequence ⟨rfl, rfl, rfl, rfl, rfl⟩

theorem segment_numbersBelow {n k m : Nat} (h : k + (m + 1) = n) :
    Segment (numbersBelow n) (if k = 0 then none else some (k - 1)) (some k)
      (List.range' k (m + 1)) none := by
  induction m generalizing k with
  | zero =>
      refine ⟨rfl, rfl, ?_⟩
      exact if_neg (by omega)
  | succ m ih =>
      have hnext : (numbersBelow n).next k = some (k + 1) := if_pos (by omega)
      refine ⟨rfl, rfl, ?_⟩
      rw [hnext]
      exact ih (k := k + 1) (by omega)

/-- A list may be too long for its length to be an `int`. -/
theorem lenInt_overflows :
    Linked (numbersBelow (2 ^ 31)) (some 0) (List.range (2 ^ 31)) ∧
      ∀ fuel, (numbersBelow (2 ^ 31)).lenInt fuel (some 0) ≠ some (List.range (2 ^ 31)).length := by
  constructor
  · have hsegment := segment_numbersBelow (n := 2 ^ 31) (k := 0) (m := 2 ^ 31 - 1) (by decide)
    rw [List.range_eq_range']
    exact hsegment
  · intro fuel h
    obtain ⟨r, hwalk, hr⟩ := Option.map_eq_some_iff.1 h
    have hlt := lt_of_walk (by decide) hwalk
    rw [hr, List.length_range] at hlt
    exact Nat.lt_irrefl _ hlt

end CommonsC.LinkedList
