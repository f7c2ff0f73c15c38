import Mathlib.Data.List.DropRight
import Mathlib.Data.List.TakeWhile

/-!
# CommonsC.Base.Strings

Searching, cutting and comparing C strings.

A string is given by its bytes without the NUL.  A function of `string.h` that
returns a pointer into its argument returns here what stands before and after
that place.
-/

namespace CString

/-! ## Cutting at a byte -/

/-- `strchr`: what is before and after the first `c`. -/
def strchr (c : UInt8) : List UInt8 → Option (List UInt8 × List UInt8)
  | [] => none
  | b :: s => if b = c then some ([], s) else (strchr c s).map fun (a, r) => (b :: a, r)

variable {c : UInt8} {a r s : List UInt8}

theorem strchr_append_of_not_mem (h : c ∉ a) (s : List UInt8) :
    strchr c (a ++ s) = (strchr c s).map fun p => (a ++ p.1, p.2) := by
  induction a with
  | nil => cases hs : strchr c s <;> simp [hs]
  | cons b a ih =>
      have hb : b ≠ c := fun hb => h (hb ▸ List.mem_cons_self)
      rw [List.cons_append, strchr, if_neg hb, ih fun ha => h (List.mem_cons_of_mem _ ha)]
      cases strchr c s <;> rfl

theorem strchr_append (h : c ∉ a) (r : List UInt8) : strchr c (a ++ c :: r) = some (a, r) := by
  rw [strchr_append_of_not_mem h, strchr, if_pos rfl]
  simp

theorem strchr_eq_none : strchr c s = none ↔ c ∉ s := by
  induction s with
  | nil => simp [strchr]
  | cons b s ih =>
      rw [strchr]
      by_cases hb : b = c
      · simp [hb]
      · simp [hb, ih, Ne.symm hb]

theorem eq_of_strchr (h : strchr c s = some (a, r)) : s = a ++ c :: r ∧ c ∉ a := by
  have hmem : c ∈ s := by
    by_contra hnot
    rw [strchr_eq_none.2 hnot] at h
    cases h
  obtain ⟨a', r', rfl, ha'⟩ := List.eq_append_cons_of_mem hmem
  rw [strchr_append ha'] at h
  cases h
  exact ⟨rfl, ha'⟩

/-- `strrchr`: what is before and after the last `c`. -/
def strrchr (c : UInt8) : List UInt8 → Option (List UInt8 × List UInt8)
  | [] => none
  | b :: s =>
      match strrchr c s with
      | some (a, r) => some (b :: a, r)
      | none => if b = c then some ([], s) else none

theorem strrchr_of_not_mem (h : c ∉ s) : strrchr c s = none := by
  induction s with
  | nil => rfl
  | cons b s ih =>
      rw [List.mem_cons, not_or] at h
      rw [strrchr, ih h.2, if_neg (Ne.symm h.1)]

theorem strrchr_append (a : List UInt8) (h : c ∉ r) : strrchr c (a ++ c :: r) = some (a, r) := by
  induction a with
  | nil => rw [List.nil_append, strrchr, strrchr_of_not_mem h, if_pos rfl]
  | cons b a ih => rw [List.cons_append, strrchr, ih]

theorem eq_of_strrchr (h : strrchr c s = some (a, r)) : s = a ++ c :: r := by
  induction s generalizing a with
  | nil => cases h
  | cons b s ih =>
      rw [strrchr] at h
      split at h
      · next hs =>
          cases h
          rw [List.cons_append, ← ih hs]
      · split at h
        · next hb =>
            cases h
            rw [hb, List.nil_append]
        · cases h

/-! ## Pieces -/

/-- `strtok_r`: the next piece, and what the save pointer points to. -/
def strtok (delim s : List UInt8) : Option (List UInt8 × List UInt8) :=
  let s := s.dropWhile (· ∈ delim)
  if s = [] then none else some (s.takeWhile (· ∉ delim), (s.dropWhile (· ∉ delim)).tail)

/-- The pieces that `strtok_r` finds, one after another. -/
def tokens (delim s : List UInt8) : List (List UInt8) := go s.length s
where
  go : Nat → List UInt8 → List (List UInt8)
    | 0, _ => []
    | fuel + 1, s =>
        match strtok delim s with
        | none => []
        | some (cur, rest) => cur :: go fuel rest

/-- The pieces between delimiters, without the empty ones. -/
def pieces (delim s : List UInt8) : List (List UInt8) :=
  (s.splitOnP (· ∈ delim)).filter (· ≠ [])

variable {delim : List UInt8}

theorem pieces_cons (hc : c ∈ delim) (s : List UInt8) : pieces delim (c :: s) = pieces delim s := by
  rw [pieces, ← List.nil_append (c :: s),
    List.splitOnP_append_cons_of_forall_mem (by simp) c (by simpa using hc)]
  rfl

theorem pieces_dropWhile (delim s : List UInt8) :
    pieces delim (s.dropWhile (· ∈ delim)) = pieces delim s := by
  induction s with
  | nil => rfl
  | cons b s ih =>
      rw [List.dropWhile_cons]
      split
      · next hb => rw [ih, pieces_cons (by simpa using hb)]
      · rfl

theorem pieces_append (hne : a ≠ []) (ha : ∀ b ∈ a, b ∉ delim) (hc : c ∈ delim) (r : List UInt8) :
    pieces delim (a ++ c :: r) = a :: pieces delim r := by
  rw [pieces, List.splitOnP_append_cons_of_forall_mem (by simpa using ha) c (by simpa using hc),
    List.filter_cons_of_pos (by simpa)]
  rfl

theorem pieces_of_not_mem (hne : a ≠ []) (ha : ∀ b ∈ a, b ∉ delim) : pieces delim a = [a] := by
  rw [pieces, List.splitOnP_eq_singleton (by simpa using ha), List.filter_cons_of_pos (by simpa)]
  rfl

/-- `strtok_r` finds nothing if there are only delimiters. -/
theorem pieces_of_strtok_none (h : strtok delim s = none) : pieces delim s = [] := by
  rw [← pieces_dropWhile]
  rw [strtok] at h
  split at h
  · next hleft => rw [hleft]; rfl
  · cases h

/-- What `strtok_r` finds is the first piece, and the others are in the rest. -/
theorem pieces_of_strtok {cur rest : List UInt8} (h : strtok delim s = some (cur, rest)) :
    pieces delim s = cur :: pieces delim rest ∧ rest.length < s.length := by
  have hdrop : (s.dropWhile (· ∈ delim)).length ≤ s.length := (List.dropWhile_suffix _).length_le
  rw [strtok] at h
  rw [← pieces_dropWhile]
  cases hleft : s.dropWhile (· ∈ delim) with
  | nil => simp [hleft] at h
  | cons b t =>
      have hb : b ∉ delim := by
        have hhead := List.head?_dropWhile_not (· ∈ delim) s
        rw [hleft] at hhead
        simpa using hhead
      rw [hleft, List.length_cons] at hdrop
      have hcur : ∀ d ∈ (b :: t).takeWhile (· ∉ delim), d ∉ delim := fun d hd => by
        simpa using List.mem_takeWhile_imp hd
      have hne : (b :: t).takeWhile (· ∉ delim) ≠ [] := by
        rw [List.takeWhile_cons_of_pos (by simpa using hb)]
        exact List.cons_ne_nil _ _
      have hsplit : (b :: t).takeWhile (· ∉ delim) ++ (b :: t).dropWhile (· ∉ delim) =
          b :: t := List.takeWhile_append_dropWhile
      simp only [hleft, List.cons_ne_nil, if_false, Option.some.injEq, Prod.mk.injEq] at h
      obtain ⟨rfl, rfl⟩ := h
      cases hrest : (b :: t).dropWhile (· ∉ delim) with
      | nil =>
          rw [hrest, List.append_nil] at hsplit
          rw [hsplit] at hcur ⊢
          refine ⟨pieces_of_not_mem (List.cons_ne_nil b t) hcur, ?_⟩
          rw [List.tail_nil, List.length_nil]
          omega
      | cons d rest =>
          have hd : d ∈ delim := by
            have hhead := List.head?_dropWhile_not (· ∉ delim) (b :: t)
            rw [hrest] at hhead
            simpa using hhead
          have hlen := congrArg List.length hsplit
          rw [hrest, List.length_append, List.length_cons, List.length_cons] at hlen
          refine ⟨?_, by rw [List.tail_cons]; omega⟩
          rw [← hsplit, hrest, pieces_append hne hcur hd, ← hrest, hsplit, hrest, List.tail_cons]

/-- `strtok_r` finds the pieces that are not empty. -/
theorem tokens_eq (delim s : List UInt8) : tokens delim s = pieces delim s := by
  have hgo : ∀ fuel s, s.length ≤ fuel → tokens.go delim fuel s = pieces delim s := by
    intro fuel
    induction fuel with
    | zero =>
        intro s hs
        rw [List.length_eq_zero_iff.1 (Nat.le_zero.1 hs)]
        rfl
    | succ fuel ih =>
        intro s hs
        rw [tokens.go]
        cases hcur : strtok delim s with
        | none => exact (pieces_of_strtok_none hcur).symm
        | some p =>
            obtain ⟨hpieces, hlt⟩ := pieces_of_strtok hcur
            exact (congrArg _ (ih p.2 (by omega))).trans hpieces.symm
  exact hgo s.length s (Nat.le_refl _)

/-- There is at most one piece more than delimiters. -/
theorem length_pieces_le (delim s : List UInt8) :
    (pieces delim s).length ≤ s.countP (· ∈ delim) + 1 := by
  have hsplit : (s.splitOnP (· ∈ delim)).length = s.countP (· ∈ delim) + 1 := by
    induction s with
    | nil => rfl
    | cons b s ih =>
        rw [List.splitOnP_cons_eq_if_modifyHead, List.countP_cons]
        split
        · rw [List.length_cons, ih]
        · rw [List.length_modifyHead, ih, Nat.add_zero]
  rw [← hsplit]
  exact List.length_filter_le _ _

theorem length_pieces_singleton_le (c : UInt8) (s : List UInt8) :
    (pieces [c] s).length ≤ s.count c + 1 := by
  have hcount : s.countP (· ∈ [c]) = s.count c :=
    List.countP_congr fun b _ => by simp
  rw [← hcount]
  exact length_pieces_le [c] s

/-! ## The last of several bytes -/

/-- `strpbrk`: the string from the first byte of `accept` on. -/
def strpbrk (accept s : List UInt8) : Option (List UInt8) :=
  let found := s.dropWhile (· ∉ accept)
  if found = [] then none else some found

variable {accept find : List UInt8}

theorem countP_of_strpbrk_none (h : strpbrk accept s = none) : s.countP (· ∈ accept) = 0 := by
  rw [List.countP_eq_zero]
  rw [strpbrk] at h
  split at h
  · next hfound => simpa using List.dropWhile_eq_nil_iff.1 hfound
  · cases h

/-- `strpbrk` skips what is not to be found, and the loop goes on behind the
byte that it finds. -/
theorem countP_of_strpbrk (h : strpbrk accept s = some find) :
    s.countP (· ∈ accept) = find.tail.countP (· ∈ accept) + 1 ∧ find.tail.length < s.length := by
  have hsplit : s.takeWhile (· ∉ accept) ++ s.dropWhile (· ∉ accept) = s :=
    List.takeWhile_append_dropWhile
  have hfree : (s.takeWhile (· ∉ accept)).countP (· ∈ accept) = 0 :=
    List.countP_eq_zero.2 fun b hb => by simpa using List.mem_takeWhile_imp hb
  rw [strpbrk] at h
  cases hfound : s.dropWhile (· ∉ accept) with
  | nil =>
      rw [if_pos hfound] at h
      cases h
  | cons c rest =>
      have hc : c ∈ accept := by
        have hhead := List.head?_dropWhile_not (· ∉ accept) s
        rw [hfound] at hhead
        simpa using hhead
      rw [hfound, if_neg (List.cons_ne_nil c rest), Option.some.injEq] at h
      subst h
      rw [← hsplit, hfound, List.countP_append, hfree, List.countP_cons_of_pos (by simpa using hc),
        List.length_append, List.length_cons, List.tail_cons]
      omega

/-- `cur` after a loop that moves it behind what `strpbrk` finds, until there
is nothing to find. -/
def afterLast (accept s : List UInt8) : List UInt8 := go s.length s
where
  go : Nat → List UInt8 → List UInt8
    | 0, cur => cur
    | fuel + 1, cur =>
        match strpbrk accept cur with
        | none => cur
        | some find => go fuel find.tail

/-- What is found by the loop: nothing of `accept` is behind `cur`, and
something of it is just before, unless `cur` has not moved. -/
theorem afterLast_spec (accept s : List UInt8) :
    ∃ before, s = before ++ afterLast accept s ∧ (∀ b ∈ afterLast accept s, b ∉ accept) ∧
      ∀ b ∈ before.getLast?, b ∈ accept := by
  have hgo : ∀ fuel s, s.length ≤ fuel → ∃ before, s = before ++ afterLast.go accept fuel s ∧
      (∀ b ∈ afterLast.go accept fuel s, b ∉ accept) ∧ ∀ b ∈ before.getLast?, b ∈ accept := by
    intro fuel
    induction fuel with
    | zero =>
        intro s hs
        obtain rfl := List.length_eq_zero_iff.1 (Nat.le_zero.1 hs)
        exact ⟨[], rfl, by simp [afterLast.go], by simp⟩
    | succ fuel ih =>
        intro s hs
        have hsplit : s = s.takeWhile (· ∉ accept) ++ s.dropWhile (· ∉ accept) :=
          List.takeWhile_append_dropWhile.symm
        have hfree : ∀ b ∈ s.takeWhile (· ∉ accept), b ∉ accept := fun b hb => by
          simpa using List.mem_takeWhile_imp hb
        rw [afterLast.go, strpbrk]
        cases hfound : s.dropWhile (· ∉ accept) with
        | nil =>
            rw [hfound, List.append_nil] at hsplit
            rw [if_pos rfl]
            exact ⟨[], rfl, hsplit ▸ hfree, by simp⟩
        | cons c find =>
            have hc : c ∈ accept := by
              have hhead := List.head?_dropWhile_not (· ∉ accept) s
              rw [hfound] at hhead
              simpa using hhead
            rw [hfound] at hsplit
            have hlen := congrArg List.length hsplit
            rw [List.length_append, List.length_cons] at hlen
            obtain ⟨before, heq, hafter, hlast⟩ := ih find (by omega)
            rw [if_neg (List.cons_ne_nil c find)]
            refine ⟨s.takeWhile (· ∉ accept) ++ c :: before, ?_, hafter, ?_⟩
            · simp only [List.append_assoc, List.cons_append, List.tail_cons]
              rw [← heq, ← hsplit]
            · intro b hb
              cases before with
              | nil =>
                  rw [List.getLast?_concat, Option.mem_some_iff] at hb
                  exact hb ▸ hc
              | cons d before =>
                  rw [List.getLast?_append, List.getLast?_cons_cons] at hb
                  refine hlast b ?_
                  rwa [Option.or_of_isSome (by simp)] at hb
  exact hgo s.length s (Nat.le_refl _)

/-- There is only one such place. -/
theorem afterLast_append {accept before after : List UInt8} (hafter : ∀ b ∈ after, b ∉ accept)
    (hbefore : ∀ b ∈ before.getLast?, b ∈ accept) : afterLast accept (before ++ after) = after := by
  have hunique : ∀ {before after : List UInt8}, (∀ b ∈ after, b ∉ accept) →
      (∀ b ∈ before.getLast?, b ∈ accept) →
      (before ++ after).rtakeWhile (· ∉ accept) = after := by
    intro before after hafter hbefore
    have hnil : before.reverse.takeWhile (· ∉ accept) = [] := by
      rw [← List.head?_reverse] at hbefore
      cases hrev : before.reverse with
      | nil => rfl
      | cons b rest =>
          have hb : b ∈ accept := hbefore b (by rw [hrev]; rfl)
          rw [List.takeWhile_cons_of_neg (by simpa)]
    rw [List.rtakeWhile, List.reverse_append, List.takeWhile_append_of_pos (by simpa), hnil,
      List.append_nil, List.reverse_reverse]
  obtain ⟨before', heq, hafter', hbefore'⟩ := afterLast_spec accept (before ++ after)
  have h := hunique hafter' hbefore'
  rw [← heq, hunique hafter hbefore] at h
  exact h.symm

/-! ## Comparing -/

/-- `strcmp`. -/
def strcmp : List UInt8 → List UInt8 → Int
  | [], [] => 0
  | [], b :: _ => -b.toNat
  | a :: _, [] => a.toNat
  | a :: s, b :: t => if a = b then strcmp s t else a.toNat - b.toNat

theorem strcmp_self (s : List UInt8) : strcmp s s = 0 := by
  induction s with
  | nil => rfl
  | cons b s ih => rw [strcmp, if_pos rfl, ih]

theorem strcmp_swap (s t : List UInt8) : strcmp t s = -strcmp s t := by
  induction s generalizing t with
  | nil => cases t <;> simp [strcmp]
  | cons a s ih =>
      cases t with
      | nil => rfl
      | cons b t =>
          rw [strcmp, strcmp]
          by_cases hab : a = b
          · rw [if_pos hab, if_pos hab.symm, ih]
          · rw [if_neg hab, if_neg (Ne.symm hab)]
            omega

theorem toNat_pos_of_not_mem {b : UInt8} {s : List UInt8} (h : 0 ∉ b :: s) : 0 < b.toNat := by
  rw [Nat.pos_iff_ne_zero]
  intro hb
  have hzero : b = 0 := by
    rw [← UInt8.toNat_inj, hb]
    rfl
  exact h (hzero ▸ List.mem_cons_self)

/-- Strings are equal if `strcmp` finds no difference. -/
theorem eq_of_strcmp {s t : List UInt8} (hs : 0 ∉ s) (ht : 0 ∉ t) (h : strcmp s t = 0) :
    s = t := by
  induction s generalizing t with
  | nil =>
      cases t with
      | nil => rfl
      | cons b t =>
          have hb := toNat_pos_of_not_mem ht
          rw [strcmp] at h
          omega
  | cons a s ih =>
      cases t with
      | nil =>
          have ha := toNat_pos_of_not_mem hs
          rw [strcmp] at h
          omega
      | cons b t =>
          rw [strcmp] at h
          split at h
          · next hab =>
              rw [hab, ih (fun hmem => hs (List.mem_cons_of_mem _ hmem))
                (fun hmem => ht (List.mem_cons_of_mem _ hmem)) h]
          · next hab => exact absurd (UInt8.toNat_inj.1 (by omega)) hab

/-- `strcmp` orders strings. -/
theorem strcmp_trans {s t u : List UInt8} (hs : 0 ∉ s) (ht : 0 ∉ t) (hst : strcmp s t ≤ 0)
    (htu : strcmp t u ≤ 0) : strcmp s u ≤ 0 := by
  induction s generalizing t u with
  | nil => cases u <;> simp [strcmp]
  | cons a s ih =>
      have ha := toNat_pos_of_not_mem hs
      cases t with
      | nil =>
          rw [strcmp] at hst
          omega
      | cons b t =>
          have hb := toNat_pos_of_not_mem ht
          cases u with
          | nil =>
              rw [strcmp] at htu
              omega
          | cons c u =>
              rw [strcmp] at hst htu ⊢
              by_cases hab : a = b
              · rw [if_pos hab] at hst
                subst hab
                by_cases hac : a = c
                · rw [if_pos hac] at htu ⊢
                  exact ih (fun hmem => hs (List.mem_cons_of_mem _ hmem))
                    (fun hmem => ht (List.mem_cons_of_mem _ hmem)) hst htu
                · rwa [if_neg hac] at htu ⊢
              · -- The first difference is here, or where `t` and `u` differ.
                rw [if_neg hab] at hst
                rw [← UInt8.toNat_inj] at hab
                have hbc : b.toNat ≤ c.toNat := by
                  split at htu
                  · next hbc => rw [hbc]
                  · omega
                rw [if_neg (by rw [← UInt8.toNat_inj]; omega)]
                omega

/-- `tolower` in the C locale. -/
def tolower (b : UInt8) : UInt8 := if 65 ≤ b ∧ b ≤ 90 then b + 32 else b

theorem tolower_ne_zero {b : UInt8} (h : b ≠ 0) : tolower b ≠ 0 := by
  rw [tolower]
  split
  · next hupper =>
      rw [UInt8.le_iff_toNat_le, UInt8.le_iff_toNat_le] at hupper
      rw [ne_eq, ← UInt8.toNat_inj, UInt8.toNat_add]
      have h65 : (65 : UInt8).toNat = 65 := rfl
      have h90 : (90 : UInt8).toNat = 90 := rfl
      have h32 : (32 : UInt8).toNat = 32 := rfl
      have hzero : (0 : UInt8).toNat = 0 := rfl
      omega
  · exact h

/-- `strncmp`. -/
def strncmp (s t : List UInt8) (n : Nat) : Int := strcmp (s.take n) (t.take n)

/-- Comparing as many bytes as one of two strings has asks for a prefix. -/
theorem strncmp_eq_zero {s t : List UInt8} (hs : 0 ∉ s) (ht : 0 ∉ t) :
    strncmp s t t.length = 0 ↔ t <+: s := by
  rw [strncmp, List.take_length, List.prefix_iff_eq_take]
  constructor
  · exact fun h => (eq_of_strcmp (fun hmem => hs (List.mem_of_mem_take hmem)) ht h).symm
  · intro h
    rw [← h, strcmp_self]

/-- `memcmp` of blocks of one length. -/
def memcmp : List UInt8 → List UInt8 → Int
  | a :: s, b :: t => if a = b then memcmp s t else a.toNat - b.toNat
  | _, _ => 0

/-- Bytes are compared, not strings: a zero byte ends nothing. -/
theorem memcmp_eq_zero {s t : List UInt8} (h : s.length = t.length) : memcmp s t = 0 ↔ s = t := by
  induction s generalizing t with
  | nil => simp [memcmp, List.length_eq_zero_iff.1 h.symm]
  | cons a s ih =>
      match t, h with
      | b :: t, h =>
          have hlen : s.length = t.length := Nat.succ.inj h
          rw [memcmp, List.cons.injEq]
          split
          · next hab => rw [ih hlen, and_iff_right hab]
          · next hab =>
              have hne : a.toNat ≠ b.toNat := fun heq => hab (UInt8.toNat_inj.1 heq)
              exact iff_of_false (by omega) fun heq => hab heq.1

/-- `strncasecmp`. -/
def strncasecmp (s t : List UInt8) (n : Nat) : Int :=
  strcmp ((s.take n).map tolower) ((t.take n).map tolower)

theorem strncasecmp_eq_zero {s t : List UInt8} (hs : 0 ∉ s) (ht : 0 ∉ t) (n : Nat) :
    strncasecmp s t n = 0 ↔ (s.take n).map tolower = (t.take n).map tolower := by
  have hlower : ∀ {l : List UInt8}, 0 ∉ l → 0 ∉ (l.take n).map tolower := by
    intro l hl hmem
    obtain ⟨b, hb, hzero⟩ := List.mem_map.1 hmem
    exact tolower_ne_zero (fun h => hl (h ▸ List.mem_of_mem_take hb)) hzero
  constructor
  · exact eq_of_strcmp (hlower hs) (hlower ht)
  · intro h
    rw [strncasecmp, h, strcmp_self]

end CString
