import Mathlib.Logic.Function.Basic

/-!
# CommonsC.Base.Files

Files as sequences of bytes, and handles that read and write them at a
position.

A write overwrites what is there and makes the file longer where it has to; it
never makes it shorter.  So bytes that are moved from the beginning of one file
to the beginning of another leave the rest of the other as it was: `Copied`
says how far a copy has got, and `Copied.move` is one transfer of any number of
bytes.
-/

namespace Files

open Function (update)

/-- The name of a file. -/
abbrev Path := String

/-- The regular files: the content of each, `none` where there is none.  All
names of one file are one path. -/
abbrev Store (π : Type*) := π → Option (List UInt8)

variable {π : Type*}

/-- `content` after `bytes` were written at `pos`; a gap is filled with zeros. -/
def writeAt (content : List UInt8) (pos : Nat) (bytes : List UInt8) : List UInt8 :=
  content.take pos ++ List.replicate (pos - content.length) 0 ++ bytes ++
    content.drop (pos + bytes.length)

/-- Writing where the first part of the content ends. -/
theorem writeAt_append (a b bytes : List UInt8) :
    writeAt (a ++ b) a.length bytes = a ++ bytes ++ b.drop bytes.length := by
  have hgap : a.length - (a ++ b).length = 0 := by simp
  rw [writeAt, hgap, List.take_left' rfl, List.drop_append, List.drop_eq_nil_of_le (by omega)]
  simp

/-- An open file, and where it is read or written next. -/
structure Handle (π : Type*) where
  path : π
  pos : Nat

/-- What is left to read. -/
def Handle.rest (h : Handle π) (files : Store π) : List UInt8 :=
  ((files h.path).getD []).drop h.pos

/-- The next `n` bytes, or as many as there are. -/
def Handle.read (h : Handle π) (files : Store π) (n : Nat) : List UInt8 × Handle π :=
  ((h.rest files).take n, { h with pos := h.pos + min n (h.rest files).length })

/-- Write at the position. -/
def Handle.write [DecidableEq π] (h : Handle π) (files : Store π) (bytes : List UInt8) :
    Store π × Handle π :=
  (update files h.path (some (writeAt ((files h.path).getD []) h.pos bytes)),
    { h with pos := h.pos + bytes.length })

/-- Asking for more than there is gives what there is. -/
theorem Handle.read_min (h : Handle π) (files : Store π) (n : Nat) :
    h.read files (min n (h.rest files).length) = h.read files n := by
  rw [read, read, ← List.take_eq_take_min, Nat.min_assoc, Nat.min_self]

/-! ## Copying -/

/-- The content `old` with its first `k` bytes replaced by those of `src`. -/
def copyOver (src old : List UInt8) (k : Nat) : List UInt8 := src.take k ++ old.drop k

/-- A copy is complete when the rest was the same already. -/
theorem copyOver_eq_iff {src old : List UInt8} {k : Nat} :
    copyOver src old k = src ↔ old.drop k = src.drop k := by
  constructor
  · intro h
    have hsplit : src.take k ++ old.drop k = src.take k ++ src.drop k := by
      rw [List.take_append_drop]; exact h
    exact List.append_cancel_left hsplit
  · intro h
    rw [copyOver, h, List.take_append_drop]

/-- The next `n` bytes are written over. -/
theorem writeAt_copyOver {src : List UInt8} (old : List UInt8) {k n : Nat}
    (hk : k + n ≤ src.length) :
    writeAt (copyOver src old k) k ((src.drop k).take n) = copyOver src old (k + n) := by
  have htake : (src.take k).length = k := List.length_take_of_le (by omega)
  have hlen : ((src.drop k).take n).length = n := by
    rw [List.length_take_of_le (by rw [List.length_drop]; omega)]
  have := writeAt_append (src.take k) (old.drop k) ((src.drop k).take n)
  rw [htake, hlen, List.drop_drop] at this
  rw [copyOver, this, ← List.take_add, copyOver]

/-- `k` bytes were copied from the file of `i` to that of `o`. -/
structure Copied (src old : List UInt8) (files : Store π) (i o : Handle π) (k : Nat) : Prop where
  source : files i.path = some src
  dest : files o.path = some (copyOver src old k)
  iPos : i.pos = k
  oPos : o.pos = k
  le : k ≤ src.length

/-- What is left to copy. -/
theorem Copied.rest {src old : List UInt8} {files : Store π} {i o : Handle π} {k : Nat}
    (h : Copied src old files i o k) : i.rest files = src.drop k := by
  rw [Handle.rest, h.source, h.iPos]
  rfl

/-- The next `n` bytes are moved. -/
theorem Copied.move [DecidableEq π] {src old : List UInt8} {files : Store π} {i o : Handle π}
    {k : Nat} (h : Copied src old files i o k) {n : Nat} (hn : k + n ≤ src.length) :
    Copied src old (o.write files (i.read files n).1).1 (i.read files n).2
      (o.write files (i.read files n).1).2 (k + n) := by
  have hread : (i.read files n).1 = (src.drop k).take n := by rw [Handle.read, h.rest]
  have hlen : ((src.drop k).take n).length = n := by
    rw [List.length_take_of_le (by rw [List.length_drop]; omega)]
  have hwrite : (o.write files (i.read files n).1).1 =
      update files o.path (some (copyOver src old (k + n))) := by
    rw [hread, Handle.write, h.dest, h.oPos, Option.getD_some, writeAt_copyOver old hn]
  refine ⟨?_, ?_, ?_, ?_, hn⟩
  · rw [hwrite]
    change update files o.path (some (copyOver src old (k + n))) i.path = some src
    by_cases hp : i.path = o.path
    · -- A file that is copied onto itself stays as it is.
      have hself : copyOver src old k = src := by
        have hdest := h.dest
        rw [← hp, h.source] at hdest
        exact (Option.some.inj hdest).symm
      have hrest : old.drop (k + n) = src.drop (k + n) := by
        rw [← List.drop_drop, copyOver_eq_iff.1 hself, List.drop_drop]
      rw [hp, Function.update_self, copyOver_eq_iff.2 hrest]
    · rw [Function.update_of_ne hp, h.source]
  · rw [hwrite]
    exact Function.update_self o.path _ files
  · change i.pos + min n (i.rest files).length = k + n
    rw [h.rest, h.iPos, List.length_drop, Nat.min_eq_left (by omega)]
  · change o.pos + (i.read files n).1.length = k + n
    rw [hread, hlen, h.oPos]

end Files
