import CommonsC.Base.Files

/-!
# CommonsC.CopyFile.Std

`copyfile` with stdio (`io/copyfile/copyfile_std.c`).

The loop reads from the stream it writes to.  That stream is open for writing
only, so the first `fread` yields nothing, the loop ends, and 0 is returned
with the destination truncated.  `stdio_faithful_iff` says when that makes
no difference.

A stream is a handle with the mode it was opened in.  What is outside of the
program is a parameter (`Stdio`): whether an `fopen` is let through, and how
many elements each `fread` and `fwrite` transfers at most.  A short count
stands for an error as well as for a short transfer.  What `fwrite` accepted is
in the file at once, as it is after an `fclose` that succeeds.
-/

namespace CommonsC.CopyFile.Std

open Files (Path Store Handle)
open Function (update)

/-- The modes of `fopen` that are used. -/
inductive Mode
  | rb | wb
  deriving DecidableEq

/-- A stream. -/
structure FILE where
  mode : Mode
  handle : Handle Path

/-- What is outside of the program. -/
structure Stdio where
  /-- The file is there to be opened, and opening it is permitted. -/
  opens : Path → Mode → Bool
  /-- The most elements the call of `fread` or `fwrite` with this number transfers. -/
  transfers : Nat → Nat

/-- The files, and how many calls of `fread` and `fwrite` were made. -/
structure World where
  files : Store Path
  calls : Nat

/-- `fopen(path, mode)`: `rb` needs the file, `wb` makes it empty. -/
def fopen (io : Stdio) (w : World) (path : Path) (mode : Mode) : Option (FILE × World) :=
  if io.opens path mode then
    match mode with
    | .rb => (w.files path).map fun _ => (⟨.rb, path, 0⟩, w)
    | .wb => some (⟨.wb, path, 0⟩, { w with files := update w.files path (some []) })
  else none

/-- `fread(buf, 1, size, stream)`: the elements that were read. -/
def fread (io : Stdio) (w : World) (size : Nat) (stream : FILE) :
    List UInt8 × FILE × World :=
  match stream.mode with
  | .rb =>
      let (buf, handle) := stream.handle.read w.files (min size (io.transfers w.calls))
      (buf, { stream with handle }, { w with calls := w.calls + 1 })
  | .wb => ([], stream, { w with calls := w.calls + 1 })

/-- `fwrite(buf, 1, n, stream)`, with the `n` elements of `buf`: how many of
them were written. -/
def fwrite (io : Stdio) (w : World) (buf : List UInt8) (stream : FILE) : Nat × FILE × World :=
  match stream.mode with
  | .rb => (0, stream, { w with calls := w.calls + 1 })
  | .wb =>
      let n := min buf.length (io.transfers w.calls)
      let (files, handle) := stream.handle.write w.files (buf.take n)
      (n, { stream with handle }, { files, calls := w.calls + 1 })

/-- `BUFFER_SIZE`. -/
def BUFFER_SIZE : Nat := 8192

/-- The loop of `copyfile`, for at most `fuel` rounds, and `ret` after it. -/
def copyLoop (io : Stdio) : Nat → World → FILE → Option (Int × World)
  | 0, _, _ => none
  | fuel + 1, w, dest_f =>
      let (buf, dest_f, w) := fread io w BUFFER_SIZE dest_f
      if buf.length > 0 then
        let (n, dest_f, w) := fwrite io w buf dest_f
        if n < buf.length then some (-1, w) else copyLoop io fuel w dest_f
      else some (0, w)

/-- `copyfile(source, dest)`: what is returned, and the files afterwards. -/
def copyfile (io : Stdio) (fuel : Nat) (files : Store Path) (source dest : Path) :
    Option (Int × Store Path) :=
  match fopen io ⟨files, 0⟩ source .rb with
  | none => some (-1, files)
  | some (_src_f, w) =>
      match fopen io w dest .wb with
      | none => some (-1, w.files)
      | some (dest_f, w) => (copyLoop io fuel w dest_f).map fun (ret, w) => (ret, w.files)

/-! ## What the loop does -/

/-- A stream that is open for writing only gives the loop nothing to copy. -/
theorem copyLoop_of_wb (io : Stdio) (fuel : Nat) (w : World) {dest_f : FILE}
    (h : dest_f.mode = .wb) :
    copyLoop io (fuel + 1) w dest_f = some (0, { w with calls := w.calls + 1 }) := by
  rw [copyLoop, fread, h]
  rfl

/-- The two `fopen` calls succeed. -/
def Opens (io : Stdio) (files : Store Path) (source dest : Path) : Prop :=
  files source ≠ none ∧ io.opens source .rb = true ∧ io.opens dest .wb = true

/-- Once both files are open, `copyfile` empties the destination and returns 0. -/
theorem copyfile_of_opens {io : Stdio} {files : Store Path} {source dest : Path}
    (h : Opens io files source dest) (fuel : Nat) :
    copyfile io (fuel + 1) files source dest = some (0, update files dest (some [])) := by
  obtain ⟨hsource, hrb, hwb⟩ := h
  obtain ⟨src, hsrc⟩ := Option.ne_none_iff_exists'.1 hsource
  simp only [copyfile, fopen, hrb, hwb, hsrc, if_true, Option.map_some]
  rw [copyLoop_of_wb io fuel _ rfl]
  rfl

/-- That is all it can do. -/
theorem eq_of_copyfile {io : Stdio} {files files' : Store Path} {source dest : Path}
    (h : Opens io files source dest) {fuel : Nat} {r : Int}
    (hrun : copyfile io fuel files source dest = some (r, files')) :
    files' = update files dest (some []) := by
  cases fuel with
  | zero =>
      obtain ⟨hsource, hrb, hwb⟩ := h
      obtain ⟨src, hsrc⟩ := Option.ne_none_iff_exists'.1 hsource
      simp [copyfile, fopen, hrb, hwb, hsrc, copyLoop] at hrun
  | succ fuel =>
      rw [copyfile_of_opens h] at hrun
      cases hrun
      rfl

/-- If a file cannot be opened, `copyfile` returns -1. -/
theorem copyfile_of_not_opens {io : Stdio} {files : Store Path} {source dest : Path}
    (h : ¬Opens io files source dest) (fuel : Nat) :
    copyfile io fuel files source dest = some (-1, files) := by
  cases hrb : io.opens source .rb with
  | false => simp [copyfile, fopen, hrb]
  | true =>
      cases hsrc : files source with
      | none => simp [copyfile, fopen, hrb, hsrc]
      | some src =>
          have hwb : io.opens dest .wb = false := by
            by_contra hwb
            exact h ⟨by simp [hsrc], hrb, by simpa using hwb⟩
          simp [copyfile, fopen, hrb, hsrc, hwb]

/-- `copyfile` returns. -/
theorem copyfile_returns (io : Stdio) (files : Store Path) (source dest : Path) :
    ∃ r, ∀ fuel, copyfile io (fuel + 1) files source dest = some r := by
  by_cases h : Opens io files source dest
  · exact ⟨_, copyfile_of_opens h⟩
  · exact ⟨_, fun fuel => copyfile_of_not_opens h (fuel + 1)⟩

/-- **Faithful copies**: `copyfile` returns 0 only with the source's content in
the destination, exactly if one of the files cannot be opened or the source is
empty. -/
theorem stdio_faithful_iff (io : Stdio) (files : Store Path) (source dest : Path) :
    (∀ fuel files', copyfile io fuel files source dest = some (0, files') →
        files' dest = files source) ↔
      files source = none ∨ io.opens source .rb = false ∨ io.opens dest .wb = false ∨
        files source = some [] := by
  have hcond : (files source = none ∨ io.opens source .rb = false ∨ io.opens dest .wb = false ∨
      files source = some []) ↔ ¬Opens io files source dest ∨ files source = some [] := by
    simp only [Opens, ne_eq, not_and_or, not_not, Bool.not_eq_true, or_assoc]
  rw [hcond]
  by_cases h : Opens io files source dest
  · constructor
    · intro hall
      have hdest := hall 1 _ (copyfile_of_opens h 0)
      rw [Function.update_self] at hdest
      exact .inr hdest.symm
    · intro hempty fuel files' hrun
      have hsrc := hempty.resolve_left (not_not.2 h)
      rw [eq_of_copyfile h hrun, Function.update_self, hsrc]
  · refine ⟨fun _ => .inl h, fun _ fuel files' hrun => ?_⟩
    rw [copyfile_of_not_opens h] at hrun
    cases hrun

/-- A source of one byte is not copied, and 0 is returned. -/
theorem copyfile_loses_content : ¬∀ (io : Stdio) (files : Store Path) (source dest : Path)
    (fuel : Nat) (files' : Store Path), copyfile io fuel files source dest = some (0, files') →
      files' dest = files source := by
  intro hall
  have := hall ⟨fun _ _ => true, fun _ => BUFFER_SIZE⟩
    (update (fun _ => none) "a" (some [1])) "a" "b" 1 _ rfl
  simp at this

end CommonsC.CopyFile.Std
