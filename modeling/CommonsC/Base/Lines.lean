import Mathlib.Data.List.Basic

/-!
# CommonsC.Base.Lines

Streams of terminated lines.

A list is cut at the terminators into its complete lines and a tail that has
no terminator yet.  A reader that gets the stream in chunks handles the
complete lines of what it has and keeps the tail for the next chunk;
`foldl_feed` shows that how the stream was chunked makes no difference.
-/

namespace Lines

variable {α β : Type*} [BEq α] [LawfulBEq α] {nl : α}

/-! ## Complete lines and tail -/

/-- The terminated lines, without their terminators. -/
def complete (nl : α) (l : List α) : List (List α) := (l.splitOn nl).dropLast

/-- What comes after the last terminator. -/
def tail (nl : α) (l : List α) : List α := (l.splitOn nl).getLast (List.splitOn_ne_nil nl l)

theorem complete_of_not_mem {l : List α} (h : nl ∉ l) : complete nl l = [] := by
  rw [complete, List.splitOn_eq_singleton h, List.dropLast_singleton]

theorem tail_of_not_mem {l : List α} (h : nl ∉ l) : tail nl l = l := by
  simp only [tail, List.splitOn_eq_singleton h, List.getLast_singleton]

theorem complete_append_cons {line : List α} (h : nl ∉ line) (rest : List α) :
    complete nl (line ++ nl :: rest) = line :: complete nl rest := by
  rw [complete, List.splitOn_append_cons_self_of_not_mem h,
    List.dropLast_cons_of_ne_nil (List.splitOn_ne_nil nl rest), complete]

theorem tail_append_cons {line : List α} (h : nl ∉ line) (rest : List α) :
    tail nl (line ++ nl :: rest) = tail nl rest := by
  simp only [tail, List.splitOn_append_cons_self_of_not_mem h]
  exact List.getLast_cons (List.splitOn_ne_nil nl rest)

/-- A list has no terminator, or it is a line, the terminator and the rest. -/
theorem cases_line (nl : α) (l : List α) :
    nl ∉ l ∨ ∃ line rest, nl ∉ line ∧ l = line ++ nl :: rest := by
  by_cases h : nl ∈ l
  · obtain ⟨line, rest, rfl, hline⟩ := List.eq_append_cons_of_mem h
    exact .inr ⟨line, rest, hline, rfl⟩
  · exact .inl h

/-- Induction on the lines of a list. -/
@[elab_as_elim]
theorem line_induction (nl : α) {motive : List α → Prop} (tail : ∀ l, nl ∉ l → motive l)
    (line : ∀ line rest, nl ∉ line → motive rest → motive (line ++ nl :: rest)) (l : List α) :
    motive l := by
  induction hn : l.length using Nat.strongRecOn generalizing l with
  | _ n ih =>
      rcases cases_line nl l with h | ⟨first, rest, hfirst, rfl⟩
      · exact tail l h
      · refine line first rest hfirst (ih rest.length ?_ rest rfl)
        rw [← hn, List.length_append, List.length_cons]
        omega

theorem not_mem_tail (nl : α) (l : List α) : nl ∉ tail nl l := by
  induction l using line_induction nl with
  | tail l h => rwa [tail_of_not_mem h]
  | line line rest hline ih => rwa [tail_append_cons hline]

/-- More input turns the tail into further lines and a new tail. -/
theorem complete_append (a b : List α) :
    complete nl (a ++ b) = complete nl a ++ complete nl (tail nl a ++ b) := by
  induction a using line_induction nl with
  | tail a h => rw [complete_of_not_mem h, tail_of_not_mem h, List.nil_append]
  | line line rest hline ih =>
      rw [List.append_assoc, List.cons_append, complete_append_cons hline,
        complete_append_cons hline, tail_append_cons hline, ih, List.cons_append]

theorem tail_append (a b : List α) : tail nl (a ++ b) = tail nl (tail nl a ++ b) := by
  induction a using line_induction nl with
  | tail a h => rw [tail_of_not_mem h]
  | line line rest hline ih =>
      rw [List.append_assoc, List.cons_append, tail_append_cons hline, tail_append_cons hline, ih]

/-- Lines put together are what is cut again. -/
theorem complete_flatMap {lines : List (List α)} (h : ∀ line ∈ lines, nl ∉ line) :
    complete nl (lines.flatMap (· ++ [nl])) = lines := by
  induction lines with
  | nil => exact complete_of_not_mem List.not_mem_nil
  | cons line lines ih =>
      rw [List.flatMap_cons, List.append_assoc, List.singleton_append,
        complete_append_cons (h line List.mem_cons_self),
        ih fun l hl => h l (List.mem_cons_of_mem _ hl)]

theorem tail_flatMap (lines : List (List α)) : tail nl (lines.flatMap (· ++ [nl])) = [] := by
  induction lines with
  | nil => exact tail_of_not_mem List.not_mem_nil
  | cons line lines ih =>
      have hnil : tail nl (line ++ [nl]) = [] := by
        induction line using line_induction nl with
        | tail line h => rw [tail_append_cons h, tail_of_not_mem List.not_mem_nil]
        | line first rest hfirst ih =>
            rw [List.append_assoc, List.cons_append, tail_append_cons hfirst, ih]
      rw [List.flatMap_cons, tail_append, hnil, List.nil_append, ih]

/-- The lines, with the last one also if nothing terminates it. -/
def lines (nl : α) (l : List α) : List (List α) :=
  complete nl l ++ if (tail nl l).isEmpty then [] else [tail nl l]

theorem lines_append (a b : List α) :
    lines nl (a ++ b) = complete nl a ++ lines nl (tail nl a ++ b) := by
  rw [lines, lines, complete_append, ← tail_append, List.append_assoc]

/-! ## Reading in chunks -/

/-- One chunk read: what was written so far and the pending input, from before
the chunk to after it. -/
def feed (nl : α) (f : List α → List β) (st : List β × List α) (chunk : List α) :
    List β × List α :=
  (st.1 ++ (complete nl (st.2 ++ chunk)).flatMap f, tail nl (st.2 ++ chunk))

/-- **Chunking makes no difference**: reading chunk after chunk writes what
reading them at once would write, and leaves the same pending input. -/
theorem foldl_feed (f : List α → List β) (out : List β) {pending : List α} (h : nl ∉ pending)
    (chunks : List (List α)) :
    chunks.foldl (feed nl f) (out, pending) =
      (out ++ (complete nl (pending ++ chunks.flatten)).flatMap f,
        tail nl (pending ++ chunks.flatten)) := by
  induction chunks generalizing out pending with
  | nil =>
      rw [List.foldl_nil, List.flatten_nil, List.append_nil, complete_of_not_mem h,
        tail_of_not_mem h, List.flatMap_nil, List.append_nil]
  | cons chunk chunks ih =>
      rw [List.foldl_cons, feed, ih _ (not_mem_tail nl _), List.flatten_cons, ← List.append_assoc,
        complete_append (pending ++ chunk), tail_append (pending ++ chunk), List.flatMap_append,
        List.append_assoc]

/-! ## Reading a line into a buffer -/

/-- At most `n` bytes, up to the end of the line. -/
def takeLine (nl : α) : (n : Nat) → List α → List α × List α
  | 0, stream => ([], stream)
  | _ + 1, [] => ([], [])
  | n + 1, b :: stream =>
      if b == nl then ([b], stream)
      else ((b :: (takeLine nl n stream).1), (takeLine nl n stream).2)

/-- `fgets` into a buffer of `n` bytes, one of them for the NUL: what is read,
and what is left; `none` is the end of the file. -/
def fgets (nl : α) (n : Nat) (stream : List α) : Option (List α × List α) :=
  if stream.isEmpty then none else some (takeLine nl (n - 1) stream)

theorem takeLine_append_of_not_mem {a : List α} (h : nl ∉ a) (n : Nat) (stream : List α) :
    takeLine nl (a.length + n) (a ++ stream) =
      (a ++ (takeLine nl n stream).1, (takeLine nl n stream).2) := by
  induction a with
  | nil => rw [List.length_nil, Nat.zero_add, List.nil_append, List.nil_append]
  | cons b a ih =>
      rw [List.mem_cons, not_or] at h
      have hne : ¬(b == nl) = true := fun hb => h.1 (eq_of_beq hb).symm
      rw [List.length_cons, Nat.add_right_comm, List.cons_append, takeLine, if_neg hne, ih h.2,
        List.cons_append]

/-- A line that fits is read whole. -/
theorem fgets_append {line : List α} (h : nl ∉ line) {n : Nat} (hlen : line.length + 1 < n)
    (rest : List α) : fgets nl n (line ++ nl :: rest) = some (line ++ [nl], rest) := by
  obtain ⟨k, rfl⟩ : ∃ k, n = line.length + (k + 1) + 1 := ⟨n - line.length - 2, by omega⟩
  rw [fgets, if_neg (by simp), Nat.add_sub_cancel, takeLine_append_of_not_mem h, takeLine,
    if_pos (beq_self_eq_true nl)]

omit [LawfulBEq α] in
theorem takeLine_split (nl : α) (n : Nat) (stream : List α) :
    (takeLine nl n stream).1 ++ (takeLine nl n stream).2 = stream := by
  induction n generalizing stream with
  | zero => rfl
  | succ n ih =>
      cases stream with
      | nil => rfl
      | cons b stream =>
          rw [takeLine]
          split
          · rfl
          · exact congrArg (b :: ·) (ih stream)

omit [LawfulBEq α] in
/-- What is read is not empty. -/
theorem length_lt_of_fgets {n : Nat} (hn : 1 < n) {stream line rest : List α}
    (h : fgets nl n stream = some (line, rest)) : rest.length < stream.length := by
  obtain ⟨n, rfl⟩ : ∃ k, n = k + 2 := ⟨n - 2, by omega⟩
  cases stream with
  | nil => cases h
  | cons b stream =>
      have hsplit := congrArg List.length (takeLine_split nl n stream)
      rw [List.length_append] at hsplit
      rw [fgets, if_neg (by simp), Nat.add_sub_assoc (by decide), takeLine] at h
      split at h <;> cases h <;> rw [List.length_cons] <;> omega

end Lines
