import CommonsC.Base.CString
import CommonsC.Base.Strings
import Mathlib.Data.List.ReduceOption

/-!
# CommonsC.ModulesList.StrList

The array that `str_list_parse` allocates and fills
(`media/ss4s/modules-list/ss4s_modules.c`).

One loop counts the delimiters with `strpbrk`, and the array gets one place
more.  Another loop takes the pieces with `strtok_r`, for which delimiters in a
row are one, and writes them into the array.  Each loop is related to what it
works on by one induction (`countDelims_eq`, `storeItems_eq`); the pieces fit
because there is at most one more of them than delimiters.

The counters are of type `int`: `none` is a counter that overflows, or a write
behind the array.
-/

namespace CommonsC.Modules

open CString Numeral

/-- `str_list_t` without `raw`, the string that the elements point into.  An
element that was not written is `NULL`. -/
structure StrList where
  count : Nat
  elements : List (Option (List UInt8))

namespace StrList

/-- The strings of a list. -/
def strings (list : StrList) : List (List UInt8) := (list.elements.take list.count).reduceOption

/-- The loop that counts the delimiters. -/
def countDelims (delim temp : List UInt8) (n_delim : Nat) : Option Nat :=
  match _ : strpbrk delim temp with
  | none => some n_delim
  | some find => do
      let n_delim ← intSucc n_delim
      countDelims delim find.tail n_delim
termination_by temp.length
decreasing_by exact (countP_of_strpbrk ‹_›).2

/-- `items[n_items] = cur`. -/
def setItem (items : List (Option (List UInt8))) (n_items : Nat) (cur : List UInt8) :
    Option (List (Option (List UInt8))) :=
  if n_items < items.length then some (items.set n_items (some cur)) else none

/-- The loop that fills the array: the array and `n_items`. -/
def storeItems (delim rest : List UInt8) (items : List (Option (List UInt8))) (n_items : Nat) :
    Option (List (Option (List UInt8)) × Nat) :=
  match _ : strtok delim rest with
  | none => some (items, n_items)
  | some (cur, rest) => do
      let items ← setItem items n_items cur
      let n_items ← intSucc n_items
      storeItems delim rest items n_items
termination_by rest.length
decreasing_by exact (pieces_of_strtok ‹_›).2

/-- `str_list_parse`: the result and the list. -/
def strListParse (list : StrList) (value delim : List UInt8) : Option (Nat × StrList) :=
  if value = [] then some (0, list)
  else do
    let n_delim ← countDelims delim value 0
    let allocated ← intSucc n_delim
    let (items, n_items) ← storeItems delim value (List.replicate allocated none) 0
    if n_items = 0 then some (0, list)
    else some (n_items, { count := n_items, elements := items })

variable {delim : List UInt8}

/-- The first loop counts the delimiters, as far as an `int` can count. -/
theorem countDelims_eq (temp : List UInt8) {n_delim : Nat} (h : n_delim < 2 ^ 31) :
    countDelims delim temp n_delim =
      if n_delim + temp.countP (· ∈ delim) < 2 ^ 31 then
        some (n_delim + temp.countP (· ∈ delim))
      else none := by
  fun_induction countDelims delim temp n_delim with
  | case1 temp n_delim hnone =>
      rw [countP_of_strpbrk_none hnone, Nat.add_zero, if_pos h]
  | case2 temp n_delim find hfind ih =>
      rw [(countP_of_strpbrk hfind).1]
      by_cases hlt : n_delim + 1 < 2 ^ 31
      · rw [intSucc_of_lt hlt, Option.bind_eq_bind, Option.bind_some, ih _ hlt, Nat.add_right_comm,
          Nat.add_assoc]
      · rw [intSucc_of_ge (by omega), if_neg (by omega)]
        rfl

/-- An array with `stored` in its first places, and `k` places left. -/
def filled (stored : List (List UInt8)) (k : Nat) : List (Option (List UInt8)) :=
  stored.map some ++ List.replicate k none

theorem take_filled (stored : List (List UInt8)) (k : Nat) :
    (filled stored k).take stored.length = stored.map some :=
  List.take_left' (List.length_map some)

/-- A string is written into the next place. -/
theorem setItem_filled (stored : List (List UInt8)) (k : Nat) (cur : List UInt8) :
    setItem (filled stored (k + 1)) stored.length cur = some (filled (stored ++ [cur]) k) := by
  have hlen : stored.length = (stored.map some).length := by rw [List.length_map]
  have hset :
      (filled stored (k + 1)).set stored.length (some cur) = filled (stored ++ [cur]) k := by
    rw [filled, hlen, List.set_append_right _ _ (Nat.le_refl _), Nat.sub_self,
      List.replicate_succ, List.set_cons_zero, filled, List.map_append, List.append_assoc]
    rfl
  rw [setItem, hset, if_pos]
  simp [filled]

/-- The second loop stores the pieces if there is room for them. -/
theorem storeItems_eq {rest : List UInt8} {stored : List (List UInt8)} {k : Nat}
    (hroom : (pieces delim rest).length ≤ k) (hint : stored.length + k < 2 ^ 31) :
    storeItems delim rest (filled stored k) stored.length =
      some (filled (stored ++ pieces delim rest) (k - (pieces delim rest).length),
        (stored ++ pieces delim rest).length) := by
  generalize hitems : filled stored k = items
  generalize hn : stored.length = n_items
  fun_induction storeItems delim rest items n_items generalizing stored k with
  | case1 rest items n_items hnone =>
      rw [pieces_of_strtok_none hnone, List.append_nil, List.length_nil, Nat.sub_zero, hitems, hn]
  | case2 rest items n_items cur rest' hcur ih =>
      subst hitems hn
      obtain ⟨hpieces, -⟩ := pieces_of_strtok hcur
      rw [hpieces, List.length_cons] at hroom
      obtain ⟨k, rfl⟩ : ∃ m, k = m + 1 := ⟨k - 1, by omega⟩
      rw [setItem_filled, Option.bind_eq_bind, Option.bind_some, intSucc_of_lt (by omega),
        Option.bind_eq_bind, Option.bind_some, hpieces, List.length_cons, Nat.add_sub_add_right,
        ih _ _ (by omega) (by rw [List.length_append, List.length_singleton]; omega) rfl
          (by rw [List.length_append, List.length_singleton]), List.append_assoc]
      rfl

theorem pieces_nil (delim : List UInt8) : pieces delim [] = [] := rfl

/-- What `str_list_parse` returns, as far as the counters are an `int`. -/
theorem strListParse_eq (list : StrList) (value delim : List UInt8) :
    strListParse list value delim =
      if value.countP (· ∈ delim) + 1 < 2 ^ 31 then
        if pieces delim value = [] then some (0, list)
        else
          let items := pieces delim value
          some (items.length,
            { count := items.length
              elements := filled items (value.countP (· ∈ delim) + 1 - items.length) })
      else none := by
  rw [strListParse]
  by_cases hvalue : value = []
  · subst hvalue
    rw [if_pos rfl, pieces_nil, if_pos rfl]
    rfl
  have hroom := length_pieces_le delim value
  rw [if_neg hvalue, countDelims_eq value (by decide), Nat.zero_add]
  split
  · next hcount =>
      rw [Option.bind_eq_bind, Option.bind_some]
      split
      · next hint =>
          have hfill := @storeItems_eq delim value [] _ hroom (by simpa using hint)
          rw [List.nil_append] at hfill
          rw [intSucc_of_lt hint, Option.bind_eq_bind, Option.bind_some]
          refine (congrArg (· >>= _) hfill).trans ?_
          rw [Option.bind_eq_bind, Option.bind_some]
          simp only [List.length_eq_zero_iff]
      · next hover =>
          rw [intSucc_of_ge (by omega)]
          rfl
  · next hover =>
      rw [if_neg (by omega)]
      rfl

/-- The result is the number of pieces.  Where there are any, they are what the
array begins with, and it has a place for each delimiter and one more;
otherwise the list is untouched. -/
def Stores (list : StrList) (value delim : List UInt8) : Prop :=
  ∃ parsed, strListParse list value delim = some ((pieces delim value).length, parsed) ∧
    (pieces delim value = [] → parsed = list) ∧
    (pieces delim value ≠ [] →
      parsed.count = (pieces delim value).length ∧
      parsed.elements.length = value.countP (· ∈ delim) + 1 ∧
      parsed.elements.take parsed.count = (pieces delim value).map some)

/-- **`str_list_parse` stores the pieces within the array that it allocates,
exactly if the size of that array is an `int`.** -/
theorem strListParse_stores (list : StrList) (value delim : List UInt8) :
    list.Stores value delim ↔ value.countP (· ∈ delim) < 2 ^ 31 - 1 := by
  rw [Stores, strListParse_eq]
  by_cases hint : value.countP (· ∈ delim) + 1 < 2 ^ 31
  · rw [if_pos hint]
    refine iff_of_true ?_ (by omega)
    by_cases hnil : pieces delim value = []
    · rw [if_pos hnil]
      exact ⟨list, by rw [hnil]; rfl, fun _ => rfl, fun hne => absurd hnil hne⟩
    · have hroom := length_pieces_le delim value
      rw [if_neg hnil]
      refine ⟨_, rfl, fun h => absurd h hnil, fun _ => ⟨rfl, ?_, ?_⟩⟩
      · rw [filled, List.length_append, List.length_map, List.length_replicate]
        omega
      · exact take_filled _ _
  · rw [if_neg hint]
    refine iff_of_false ?_ (by omega)
    rintro ⟨_, h, -⟩
    cases h

/-- So many commas are too many to be counted, and the one string in front of
them is not stored. -/
theorem strListParse_overflows :
    ¬Stores ⟨0, []⟩ (97 :: List.replicate (2 ^ 31 - 1) 44) (ascii ",") := by
  rintro ⟨_, h, -⟩
  rw [strListParse_eq, List.countP_cons_of_neg (by decide), List.countP_replicate,
    if_neg (by decide)] at h
  cases h

theorem reduceOption_map_some {α : Type*} (xs : List α) : (xs.map some).reduceOption = xs := by
  induction xs with
  | nil => rfl
  | cons x xs ih => rw [List.map_cons, List.reduceOption_cons_of_some, ih]

/-- A list that is stored as an array of its strings. -/
def ofStrings (strings : List (List UInt8)) : StrList := ⟨strings.length, strings.map some⟩

theorem strings_ofStrings (strings : List (List UInt8)) :
    (ofStrings strings).strings = strings := by
  rw [ofStrings, StrList.strings, List.take_of_length_le (Nat.le_of_eq (List.length_map some)),
    reduceOption_map_some]

/-- The strings of the list afterwards. -/
theorem strings_strListParse (list : StrList) (value delim : List UInt8) :
    (strListParse list value delim).map (fun (_, list) => list.strings) =
      if value.countP (· ∈ delim) < 2 ^ 31 - 1 then
        some (if pieces delim value = [] then list.strings else pieces delim value)
      else none := by
  have hplaces : (value.countP (· ∈ delim) < 2 ^ 31 - 1) =
      (value.countP (· ∈ delim) + 1 < 2 ^ 31) := propext (by omega)
  rw [strListParse_eq, if_congr (iff_of_eq hplaces) rfl rfl]
  by_cases hint : value.countP (· ∈ delim) + 1 < 2 ^ 31
  · rw [if_pos hint, if_pos hint]
    by_cases hnil : pieces delim value = []
    · rw [if_pos hnil, if_pos hnil]
      rfl
    · rw [if_neg hnil, if_neg hnil, Option.map_some]
      dsimp only [strings]
      rw [take_filled, reduceOption_map_some]
  · rw [if_neg hint, if_neg hint]
    rfl

end StrList

end CommonsC.Modules
