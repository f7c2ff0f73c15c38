import CommonsC.Base.Strings
import Mathlib.Data.List.Infix
import Mathlib.Order.Basic

/-!
# CommonsC.Base.Paths

Canonical absolute paths, as `realpath` returns them: no empty component, and no
slash at the end but for the root.

A path is the list of its components, and the text is what a C program sees.
The order is that of the tree: `P ≤ Q` if `P` is `Q` or one of its ancestors.
Texts agree with it in one direction only (`text_prefix_text`): the text of a path
can begin like that of one it is not below.
-/

/-- A canonical absolute path. -/
structure AbsPath where
  components : List (List UInt8)
  sound : ∀ c ∈ components, c ≠ [] ∧ 47 ∉ c ∧ 0 ∉ c
  deriving DecidableEq

namespace AbsPath

/-- Every component behind its slash. -/
def join (cs : List (List UInt8)) : List UInt8 := cs.flatMap fun c => 47 :: c

/-- The path as it is written. -/
def text (P : AbsPath) : List UInt8 := if P.components = [] then [47] else join P.components

/-- The last component. -/
def name? (P : AbsPath) : Option (List UInt8) := P.components.getLast?

variable {P Q R : AbsPath} {cs ds : List (List UInt8)} {c : List UInt8}

/-! ## The tree -/

instance : PartialOrder AbsPath where
  le P Q := P.components <+: Q.components
  le_refl P := List.prefix_refl P.components
  le_trans _ _ _ := List.IsPrefix.trans
  le_antisymm P Q hPQ hQP := by
    obtain ⟨cs, _⟩ := P
    obtain ⟨ds, _⟩ := Q
    obtain rfl : cs = ds := hPQ.eq_of_length_le hQP.length_le
    rfl

theorem le_def : P ≤ Q ↔ P.components <+: Q.components := Iff.rfl

instance : DecidableLE AbsPath := fun P Q =>
  inferInstanceAs (Decidable (P.components <+: Q.components))

/-- Two ancestors of one path are one above the other. -/
theorem le_total_of_le (hP : P ≤ R) (hQ : Q ≤ R) : P ≤ Q ∨ Q ≤ P :=
  List.prefix_or_prefix_of_prefix hP hQ

/-! ## Texts -/

@[simp] theorem join_nil : join [] = [] := rfl

theorem join_append (cs ds : List (List UInt8)) : join (cs ++ ds) = join cs ++ join ds :=
  List.flatMap_append

theorem join_concat (cs : List (List UInt8)) (c : List UInt8) :
    join (cs ++ [c]) = join cs ++ 47 :: c := by
  rw [join_append]
  exact congrArg (join cs ++ ·) (List.append_nil (47 :: c))

theorem join_prefix_join (h : cs <+: ds) : join cs <+: join ds := by
  obtain ⟨es, rfl⟩ := h
  exact join_append cs es ▸ List.prefix_append _ _

theorem text_of_ne_nil (h : P.components ≠ []) : P.text = join P.components := if_neg h

theorem text_of_nil (h : P.components = []) : P.text = [47] := if_pos h

/-- A text has its slash. -/
theorem length_text_pos (P : AbsPath) : 0 < P.text.length := by
  rw [text]
  split
  · exact Nat.one_pos
  · next h =>
      obtain ⟨c, cs, hcs⟩ := List.exists_cons_of_ne_nil h
      rw [hcs]
      exact Nat.succ_pos _

theorem zero_not_mem_text (P : AbsPath) : 0 ∉ P.text := by
  rw [text]
  split
  · decide
  · intro h
    obtain ⟨c, hc, hmem⟩ := List.mem_flatMap.1 h
    rcases List.mem_cons.1 hmem with heq | hmem
    · cases heq
    · exact (P.sound c hc).2.2 hmem

/-- The text of an ancestor is how the text begins. -/
theorem text_prefix_text (h : P ≤ Q) : P.text <+: Q.text := by
  by_cases hQ : Q.components = []
  · have hP : P.components = [] := List.prefix_nil.1 (hQ ▸ le_def.1 h)
    rw [text_of_nil hP, text_of_nil hQ]
  · rw [text_of_ne_nil hQ]
    by_cases hP : P.components = []
    · obtain ⟨c, cs, hcs⟩ := List.exists_cons_of_ne_nil hQ
      rw [text_of_nil hP, hcs]
      exact ⟨c ++ join cs, rfl⟩
    · rw [text_of_ne_nil hP]
      exact join_prefix_join h

/-- A path below another has a longer text. -/
theorem length_text_lt (h : P < Q) : P.text.length < Q.text.length := by
  obtain ⟨hle, hnot⟩ := h
  obtain ⟨es, hes⟩ := le_def.1 hle
  have hne : es ≠ [] := by
    rintro rfl
    rw [List.append_nil] at hes
    exact hnot (le_def.2 (hes ▸ List.prefix_refl _))
  obtain ⟨e, es, rfl⟩ := List.exists_cons_of_ne_nil hne
  have he : e ≠ [] := (Q.sound e (hes ▸ by simp)).1
  have hQ : Q.components ≠ [] := hes ▸ by simp
  have hpos : 0 < e.length := List.length_pos_of_ne_nil he
  rw [text_of_ne_nil hQ, ← hes, join_append]
  by_cases hP : P.components = []
  · rw [text_of_nil hP]
    simp [join]
    omega
  · rw [text_of_ne_nil hP]
    simp [join]

/-- Among the ancestors of one path the longer text is further down. -/
theorem lt_iff_length_text (hP : P ≤ R) (hQ : Q ≤ R) :
    P < Q ↔ P.text.length < Q.text.length := by
  refine ⟨length_text_lt, fun h => ?_⟩
  rcases le_total_of_le hP hQ with hle | hle
  · refine lt_of_le_not_ge hle fun hge => ?_
    rw [le_antisymm hle hge] at h
    exact lt_irrefl _ h
  · exact absurd (text_prefix_text hle).length_le (Nat.not_le.2 h)

/-! ## The nearest of a kind -/

/-- The path without the components behind the last one that meets `p`: the
nearest of the path and its ancestors whose name does, and the root if none. -/
def nearest (p : List UInt8 → Bool) (P : AbsPath) : AbsPath where
  components := P.components.rdropWhile fun c => !p c
  sound c hc := P.sound c ((List.rdropWhile_prefix _ _).subset hc)

variable {p : List UInt8 → Bool}

theorem nearest_le : nearest p P ≤ P := List.rdropWhile_prefix _ _

theorem name?_nearest (h : (nearest p P).components ≠ []) :
    ∃ name ∈ (nearest p P).name?, p name = true := by
  refine ⟨_, List.getLast_mem_getLast? h, ?_⟩
  have hlast := List.rdropWhile_last_not (fun c => !p c) P.components h
  rwa [Bool.not_eq_true, Bool.not_eq_false'] at hlast

/-- Nothing nearer has such a name. -/
theorem le_nearest (hQ : Q ≤ P) {name : List UInt8} (hname : name ∈ Q.name?)
    (hp : p name = true) : Q ≤ nearest p P := by
  have hkeep : ∀ {cs ds : List (List UInt8)}, ds <+: cs → name ∈ ds.getLast? →
      ds <+: cs.rdropWhile fun c => !p c := by
    intro cs ds hds hlast
    induction cs using List.reverseRecOn with
    | nil => rwa [List.rdropWhile_nil]
    | append_singleton cs c ih =>
        rcases List.prefix_concat_iff.1 hds with rfl | hcs
        · rw [List.getLast?_concat, Option.mem_some_iff] at hlast
          rw [List.rdropWhile_concat_neg _ _ _ (by simp [hlast, hp])]
        · rw [List.rdropWhile_concat]
          split
          · exact ih hcs
          · exact hcs.trans (List.prefix_append cs [c])
  exact hkeep hQ hname

/-- `P` has the longest text of those in `S`. -/
def Longest (S : AbsPath → Prop) (P : AbsPath) : Prop :=
  S P ∧ ∀ Q, S Q → Q.text.length ≤ P.text.length

/-- Of the path and its ancestors, those whose name meets `p`. -/
def Named (p : List UInt8 → Bool) (R P : AbsPath) : Prop := P ≤ R ∧ ∃ name ∈ P.name?, p name = true

/-- Of those whose text is longer than `n`, the nearest is the longest. -/
theorem longest_iff {n : Nat} (hn : 0 < n) :
    Longest (fun P => Named p R P ∧ n < P.text.length) P ↔
      P = nearest p R ∧ n < (nearest p R).text.length := by
  have habove : ∀ {Q}, Named p R Q → Q ≤ nearest p R := fun ⟨hle, _, hname, hp⟩ =>
    le_nearest hle hname hp
  have hmem : n < (nearest p R).text.length → Named p R (nearest p R) := by
    refine fun hlong => ⟨nearest_le, name?_nearest fun hroot => ?_⟩
    rw [text_of_nil hroot, List.length_singleton] at hlong
    omega
  constructor
  · rintro ⟨⟨hnamed, hlong⟩, hlongest⟩
    have hle := habove hnamed
    have hlong' : n < (nearest p R).text.length := hlong.trans_le (text_prefix_text hle).length_le
    refine ⟨?_, hlong'⟩
    by_contra hne
    have hlt := length_text_lt (lt_of_le_of_ne hle hne)
    exact absurd (hlongest _ ⟨hmem hlong', hlong'⟩) (Nat.not_le.2 hlt)
  · rintro ⟨rfl, hlong⟩
    exact ⟨⟨hmem hlong, hlong⟩, fun Q hQ => (text_prefix_text (habove hQ.1)).length_le⟩

end AbsPath
