import CommonsC.Base.Numeral
import Mathlib.Data.List.Infix
import Mathlib.Data.List.TakeWhile
import Mathlib.Data.Nat.Find

/-!
# CommonsC.Base.CString

Bytes in memory and C strings.

A block is the content of one allocated object; pointers into it are offsets.
The functions of `string.h` are partial: `none` is an access outside the block.
Each comes with a lemma that tells its result on a block that is written as an
append, with the pointer at a seam.
-/

/-! ## Strings -/

/-- A C string: the bytes before its NUL. -/
structure CString where
  bytes : List UInt8
  noNul : 0 ∉ bytes

/-- The bytes of a string literal. -/
def ascii (s : String) : List UInt8 := s.toList.map fun c => c.toNat.toUInt8

namespace CString

/-- `strlen`. -/
def strlen (s : CString) : Nat := s.bytes.length

/-- A string literal. -/
def lit (s : String) (h : 0 ∉ ascii s := by decide) : CString := ⟨ascii s, h⟩

/-- What `%s` after `%s` prints. -/
def append (s t : CString) : CString :=
  ⟨s.bytes ++ t.bytes, by simp [s.noNul, t.noNul]⟩

/-- `%d` of a number that is not negative. -/
def decimal (n : Nat) : CString :=
  ⟨Numeral.decimal n, fun h => by cases Numeral.isDigit_of_mem_decimal h⟩

/-- `snprintf` into `n` bytes, one of them for the NUL. -/
def snprintf (n : Nat) (s : CString) : CString :=
  ⟨s.bytes.take (n - 1), fun h => s.noNul (List.mem_of_mem_take h)⟩

/-- A string that fits is printed in full. -/
theorem snprintf_of_lt {n : Nat} {s : CString} (h : s.strlen < n) : snprintf n s = s := by
  obtain ⟨bytes, noNul⟩ := s
  have hfit : bytes.length ≤ n - 1 := Nat.le_sub_one_of_lt h
  simp only [snprintf, List.take_of_length_le hfit]

/-- The bytes before the first NUL. -/
def upToNul (l : List UInt8) : List UInt8 := l.takeWhile (· != 0)

theorem not_mem_upToNul (l : List UInt8) : 0 ∉ upToNul l := fun h => by
  simpa using List.mem_takeWhile_imp h

theorem upToNul_append {a : List UInt8} (h : 0 ∉ a) (b : List UInt8) :
    upToNul (a ++ b) = a ++ upToNul b := by
  refine List.takeWhile_append_of_pos fun x hx => ?_
  rw [bne_iff_ne]
  rintro rfl
  exact h hx

theorem upToNul_of_not_mem {a : List UInt8} (h : 0 ∉ a) : upToNul a = a := by
  have hwhole := upToNul_append h []
  rwa [List.append_nil, show upToNul [] = [] from rfl, List.append_nil] at hwhole

/-- What follows a NUL does not matter. -/
theorem upToNul_append_zero (a b : List UInt8) : upToNul (a ++ 0 :: b) = upToNul a := by
  induction a with
  | nil => rfl
  | cons c a ih =>
      rw [List.cons_append, upToNul, upToNul, List.takeWhile_cons, List.takeWhile_cons]
      split
      · exact congrArg (c :: ·) ih
      · rfl

/-- Bytes are those before the first NUL and then nothing, or a NUL and more. -/
theorem upToNul_split (l : List UInt8) :
    ∃ more, l = upToNul l ++ more ∧ upToNul more = [] := by
  refine ⟨l.dropWhile (· != 0), List.takeWhile_append_dropWhile.symm, ?_⟩
  have hcut := upToNul_append (not_mem_upToNul l) (l.dropWhile (· != 0))
  rw [upToNul, upToNul, List.takeWhile_append_dropWhile] at hcut
  exact List.self_eq_append_right.1 hcut

/-! ## First occurrences -/

/-- What comes before and after the first occurrence, and the whole. -/
theorem eq_of_dropInfix {l i before after : List UInt8}
    (h : l.dropInfix? i = some (before, after)) : l = before ++ i ++ after := by
  obtain ⟨⟨i', hl, hi⟩, -⟩ := List.dropInfix?_eq_some_iff.1 h
  rwa [eq_of_beq hi] at hl

/-- Nothing is dropped exactly if there is no occurrence. -/
theorem dropInfix_eq_none {l i : List UInt8} : l.dropInfix? i = none ↔ ¬i <:+: l := by
  constructor
  · intro h hi
    have hex : ∃ n, ∃ before after, before.length = n ∧ l = before ++ i ++ after := by
      obtain ⟨before, after, rfl⟩ := hi
      exact ⟨_, before, after, rfl, rfl⟩
    classical
    obtain ⟨before, after, hlen, hl⟩ := Nat.find_spec hex
    have hsome := List.dropInfix?_eq_some_iff.2
      ⟨⟨i, hl, beq_self_eq_true i⟩, fun before' i' after' hl' hi' => ?_⟩
    · rw [h] at hsome
      cases hsome
    · rw [eq_of_beq hi'] at hl'
      rw [hlen]
      exact Nat.find_min' hex ⟨before', after', rfl, hl'⟩
  · intro hi
    cases h : l.dropInfix? i with
    | none => rfl
    | some p => exact absurd ⟨p.1, p.2, (eq_of_dropInfix h).symm⟩ hi

end CString

/-! ## Blocks -/

/-- The bytes of an allocated object. -/
abbrev Block := List UInt8

namespace Block

open CString

/-- `realloc`: the bytes that stay, and unspecified ones if the block grows. -/
def realloc (fresh : Nat → UInt8) (mem : Block) (n : Nat) : Block :=
  mem.take n ++ (List.range' mem.length (n - mem.length)).map fresh

/-- `mem[p] = b`. -/
def store (mem : Block) (p : Nat) (b : UInt8) : Option Block :=
  if p < mem.length then some (mem.set p b) else none

/-- `memcpy` of the bytes of another object to `dst`. -/
def memcpy (mem : Block) (dst : Nat) (bytes : List UInt8) : Option Block :=
  if dst + bytes.length ≤ mem.length then
    some (mem.take dst ++ bytes ++ mem.drop (dst + bytes.length))
  else none

/-- `memmove` inside the block. -/
def memmove (mem : Block) (dst src n : Nat) : Option Block :=
  if src + n ≤ mem.length then mem.memcpy dst ((mem.drop src).take n) else none

/-- `memchr`: the offset of the first `c` among the `n` bytes at `p`. -/
def memchr (mem : Block) (p : Nat) (c : UInt8) (n : Nat) : Option (Option Nat) :=
  if p + n ≤ mem.length then
    some ((((mem.drop p).take n).findIdx? (· == c)).map (p + ·))
  else none

/-- The string at `p`. -/
def string (mem : Block) (p : Nat) : Option (List UInt8) :=
  if 0 ∈ mem.drop p then some (upToNul (mem.drop p)) else none

/-- `strstr`: the offset of the first `needle` in the string at `p`. -/
def strstr (mem : Block) (p : Nat) (needle : CString) : Option (Option Nat) :=
  (mem.string p).map fun s => (s.dropInfix? needle.bytes).map fun (before, _) => p + before.length

variable {mem pre : Block} {p : Nat}

theorem store_append (h : pre.length = p) (b c : UInt8) (rest : Block) :
    store (pre ++ b :: rest) p c = some (pre ++ c :: rest) := by
  subst h
  rw [store, if_pos (by simp), List.set_append_right _ _ (Nat.le_refl _), Nat.sub_self,
    List.set_cons_zero]

theorem memcpy_append (h : pre.length = p) {old bytes : Block} (hlen : old.length = bytes.length)
    (rest : Block) : memcpy (pre ++ (old ++ rest)) p bytes = some (pre ++ (bytes ++ rest)) := by
  subst h
  have hroom : pre.length + bytes.length ≤ (pre ++ (old ++ rest)).length := by
    rw [List.length_append, List.length_append, hlen]
    omega
  rw [memcpy, if_pos hroom, List.take_left, ← List.drop_drop, List.drop_left, ← hlen,
    List.drop_left, List.append_assoc]

/-- Moving bytes down, over the `gap` before them. -/
theorem memmove_down (h : pre.length = p) (gap bytes rest : Block) {q n : Nat}
    (hq : q = p + gap.length) (hn : n = bytes.length) :
    ∃ junk : Block, junk.length = gap.length ∧
      memmove (pre ++ (gap ++ (bytes ++ rest))) p q n =
        some (pre ++ (bytes ++ (junk ++ rest))) := by
  subst h hq hn
  obtain ⟨old, junk, hold, hjunk, hjoin⟩ : ∃ old junk : Block,
      old.length = bytes.length ∧ junk.length = gap.length ∧ gap ++ bytes = old ++ junk :=
    ⟨(gap ++ bytes).take bytes.length, (gap ++ bytes).drop bytes.length, by simp, by simp,
      (List.take_append_drop _ _).symm⟩
  refine ⟨junk, hjunk, ?_⟩
  rw [memmove, if_pos (by simp only [List.length_append]; omega), ← List.drop_drop, List.drop_left,
    List.drop_left, List.take_left, ← List.append_assoc gap, hjoin, List.append_assoc]
  exact memcpy_append rfl hold _

/-- Moving bytes up, over the `gap` behind them. -/
theorem memmove_up (h : pre.length = p) {gap bytes : Block} {q n : Nat}
    (hq : q = p + gap.length) (hn : n = bytes.length) (rest : Block) :
    ∃ junk : Block, junk.length = gap.length ∧
      memmove (pre ++ (bytes ++ (gap ++ rest))) q p n =
        some (pre ++ (junk ++ (bytes ++ rest))) := by
  subst h hq hn
  obtain ⟨junk, old, hjunk, hold, hjoin⟩ : ∃ junk old : Block,
      junk.length = gap.length ∧ old.length = bytes.length ∧ bytes ++ gap = junk ++ old :=
    ⟨(bytes ++ gap).take gap.length, (bytes ++ gap).drop gap.length, by simp, by simp,
      (List.take_append_drop _ _).symm⟩
  refine ⟨junk, hjunk, ?_⟩
  rw [memmove, if_pos (by simp only [List.length_append]; omega), List.drop_left,
    List.take_left, ← List.append_assoc bytes, hjoin, List.append_assoc, ← List.append_assoc pre,
    memcpy_append (by rw [List.length_append, hjunk]) hold, List.append_assoc]

theorem memchr_append (h : pre.length = p) {line : Block} {c : UInt8} (hline : c ∉ line)
    (rest more : Block) {n : Nat} (hn : n = (line ++ c :: rest).length) :
    memchr (pre ++ (line ++ c :: (rest ++ more))) p c n = some (some (p + line.length)) := by
  subst h hn
  have hbytes : line ++ c :: (rest ++ more) = (line ++ c :: rest) ++ more := by simp
  have hfind : (line ++ c :: rest).findIdx? (· == c) = some line.length := by
    rw [List.findIdx?_append, List.findIdx?_eq_none_iff.2, List.findIdx?_cons]
    · simp
    · intro x hx
      rw [beq_eq_false_iff_ne]
      rintro rfl
      exact hline hx
  rw [memchr, if_pos (by simp only [List.length_append, List.length_cons]; omega), List.drop_left,
    hbytes, List.take_left, hfind]
  rfl

theorem memchr_append_none (h : pre.length = p) {bytes : Block} {c : UInt8} (hc : c ∉ bytes)
    (more : Block) {n : Nat} (hn : n = bytes.length) :
    memchr (pre ++ (bytes ++ more)) p c n = some none := by
  subst h hn
  have hfind : bytes.findIdx? (· == c) = none := by
    rw [List.findIdx?_eq_none_iff]
    intro x hx
    rw [beq_eq_false_iff_ne]
    rintro rfl
    exact hc hx
  rw [memchr, if_pos (by simp only [List.length_append]; omega), List.drop_left, List.take_left,
    hfind]
  rfl

theorem string_append (h : pre.length = p) (bytes rest : Block) :
    string (pre ++ (bytes ++ 0 :: rest)) p = some (upToNul bytes) := by
  subst h
  rw [string, List.drop_left, if_pos (by simp), upToNul_append_zero]

theorem strstr_append (h : pre.length = p) (bytes rest : Block) (needle : CString) :
    strstr (pre ++ (bytes ++ 0 :: rest)) p needle =
      some (((upToNul bytes).dropInfix? needle.bytes).map
        fun (before, _) => p + before.length) := by
  rw [strstr, string_append h]
  rfl

end Block
