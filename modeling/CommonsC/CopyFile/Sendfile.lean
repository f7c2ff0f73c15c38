import CommonsC.Base.Files

/-!
# CommonsC.CopyFile.Sendfile

`copyfile` with `sendfile` (`io/copyfile/copyfile_sendfile.c`).

The loop ends when `sendfile` returns 0 or -1, and 0 is returned in both cases.
The destination is opened without `O_TRUNC`, so what it held behind the bytes
that were moved stays.  `sendfile_faithful_iff` says when the destination
nevertheless has the source's content in the end.

What is outside of the program is a parameter (`Syscalls`): which calls are let
through, and what each `sendfile` does.  The descriptors are not closed again,
which the files do not show; neither do they show the mode that a new file gets.
-/

namespace CommonsC.CopyFile.Sendfile

open Files (Path Store Handle Copied copyOver)
open Function (update)

/-- What a call of `sendfile` does. -/
inductive Transfer
  /-- It returns -1. -/
  | fails
  /-- It moves so many bytes, at least one and as far as there are, or returns 0
  at the end of the file. -/
  | moves (n : Nat)

/-- What is outside of the program. -/
structure Syscalls where
  /-- Opening the file for reading is permitted. -/
  opensRead : Path → Bool
  fstat : Path → Bool
  /-- Opening or creating the file for writing is permitted. -/
  opensWrite : Path → Bool
  /-- What the call with this number does. -/
  sendfile : Nat → Transfer

/-- The flags of `open` that matter for the content. -/
structure OpenFlags where
  creat : Bool
  trunc : Bool

/-- `open(path, flags)`. -/
def openFile (permitted : Bool) (files : Store Path) (path : Path) (flags : OpenFlags) :
    Option (Handle Path × Store Path) :=
  if permitted then
    match files path with
    | none => if flags.creat then some (⟨path, 0⟩, update files path (some [])) else none
    | some _ =>
        some (⟨path, 0⟩, if flags.trunc then update files path (some []) else files)
  else none

/-- `sendfile(out_fd, in_fd, NULL, count)`. -/
def sendfile (t : Transfer) (files : Store Path) (out_fd in_fd : Handle Path) (count : Nat) :
    Int × Store Path × Handle Path × Handle Path :=
  match t with
  | .fails => (-1, files, out_fd, in_fd)
  | .moves n =>
      if in_fd.rest files = [] then (0, files, out_fd, in_fd)
      else
        let (buf, in_fd) := in_fd.read files (min count (max 1 n))
        let (files, out_fd) := out_fd.write files buf
        (buf.length, files, out_fd, in_fd)

/-- The loop of `copyfile` from the `i`-th call on, for at most `fuel` calls:
the files after it. -/
def sendLoop (sys : Syscalls) : Nat → Nat → Store Path → Handle Path → Handle Path →
    Option (Store Path)
  | 0, _, _, _, _ => none
  | fuel + 1, i, files, dest_fd, src_fd =>
      let (n, files, dest_fd, src_fd) := sendfile (sys.sendfile i) files dest_fd src_fd 8192
      if n > 0 then sendLoop sys fuel (i + 1) files dest_fd src_fd else some files

/-- `copyfile(source, dest)`: what is returned, and the files afterwards. -/
def copyfile (sys : Syscalls) (fuel : Nat) (files : Store Path) (source dest : Path) :
    Option (Int × Store Path) :=
  -- `O_RDONLY`
  match openFile (sys.opensRead source) files source ⟨false, false⟩ with
  | none => some (-1, files)
  | some (src_fd, files) =>
      if sys.fstat source then
        -- `O_WRONLY | O_CREAT`
        match openFile (sys.opensWrite dest) files dest ⟨true, false⟩ with
        | none => some (-1, files)
        | some (dest_fd, files) => (sendLoop sys fuel 0 files dest_fd src_fd).map (0, ·)
      else some (-1, files)

/-! ## What the calls move -/

/-- How many bytes of `left` the calls from the `i`-th on move before one of
them reports the end of the file or fails. -/
def moved (sys : Syscalls) (i left : Nat) : Nat :=
  match sys.sendfile i with
  | .fails => 0
  | .moves n =>
      if left = 0 then 0
      else
        let k := min (min 8192 (max 1 n)) left
        k + moved sys (i + 1) (left - k)
termination_by left
decreasing_by omega

theorem moved_le (sys : Syscalls) (i left : Nat) : moved sys i left ≤ left := by
  fun_induction moved sys i left with
  | case1 => exact Nat.zero_le _
  | case2 => exact Nat.zero_le _
  | case3 i left n _ hleft k ih => omega

theorem moved_of_fails {sys : Syscalls} {i : Nat} (h : sys.sendfile i = .fails) (left : Nat) :
    moved sys i left = 0 := by
  rw [moved, h]

theorem moved_of_moves {sys : Syscalls} {i n : Nat} (h : sys.sendfile i = .moves n)
    (left : Nat) :
    moved sys i left = min (min 8192 (max 1 n)) left +
      moved sys (i + 1) (left - min (min 8192 (max 1 n)) left) := by
  rw [moved, h]
  dsimp only
  split
  · next hleft =>
      have := moved_le sys (i + 1) 0
      subst hleft
      rw [Nat.min_zero, Nat.sub_zero, Nat.le_zero.1 this]
  · rfl

/-- If no call fails, everything is moved. -/
theorem moved_eq {sys : Syscalls} (h : ∀ i, sys.sendfile i ≠ .fails) (i left : Nat) :
    moved sys i left = left := by
  fun_induction moved sys i left with
  | case1 i _ hfails => exact absurd hfails (h i)
  | case2 => rfl
  | case3 i left n _ hleft k ih => omega

/-- A call that does not fail moves some bytes on, or is at the end of the file. -/
theorem sendfile_moves {src old : List UInt8} {files : Store Path} {dest_fd src_fd : Handle Path}
    {k : Nat} (h : Copied src old files src_fd dest_fd k) (n count : Nat) :
    ∃ m files' dest_fd' src_fd', m = min (min count (max 1 n)) (src.length - k) ∧
      sendfile (.moves n) files dest_fd src_fd count = ((m : Int), files', dest_fd', src_fd') ∧
        Copied src old files' src_fd' dest_fd' (k + m) ∧ dest_fd'.path = dest_fd.path := by
  have hle := h.le
  have hlen : (src_fd.rest files).length = src.length - k := by rw [h.rest, List.length_drop]
  by_cases hrest : src_fd.rest files = []
  · have hend : src.length - k = 0 := by rw [← hlen, hrest, List.length_nil]
    refine ⟨0, files, dest_fd, src_fd, by rw [hend, Nat.min_zero], ?_, h, rfl⟩
    rw [sendfile, if_pos hrest]
    rfl
  · have hmove := h.move (n := min (min count (max 1 n)) (src.length - k)) (by omega)
    have hbuf : (src_fd.read files (min count (max 1 n))).1.length =
        min (min count (max 1 n)) (src.length - k) := by
      rw [Handle.read, List.length_take, hlen]
    rw [← hlen, Handle.read_min, hlen] at hmove
    refine ⟨_, _, _, _, rfl, ?_, hmove, rfl⟩
    rw [sendfile, if_neg hrest]
    simp only [hbuf]

/-- The loop copies what the calls move. -/
theorem sendLoop_eq (sys : Syscalls) {src old : List UInt8} {files : Store Path}
    {dest_fd src_fd : Handle Path} {k i fuel : Nat} (h : Copied src old files src_fd dest_fd k)
    (hfuel : src.length - k < fuel) :
    ∃ files', sendLoop sys fuel i files dest_fd src_fd = some files' ∧
      files' dest_fd.path = some (copyOver src old (k + moved sys i (src.length - k))) := by
  induction fuel generalizing files dest_fd src_fd k i with
  | zero => exact absurd hfuel (Nat.not_lt_zero _)
  | succ fuel ih =>
      rw [sendLoop]
      cases ht : sys.sendfile i with
      | fails =>
          refine ⟨files, rfl, ?_⟩
          rw [moved_of_fails ht, Nat.add_zero, h.dest]
      | moves n =>
          obtain ⟨m, files', dest_fd', src_fd', hm, hcall, hcopied, hpath⟩ :=
            sendfile_moves h n 8192
          rw [hcall, moved_of_moves ht, ← hm]
          dsimp only
          split
          · next hpos =>
              have hleft : src.length - (k + m) = src.length - k - m := by omega
              obtain ⟨files'', hloop, hdest⟩ := ih (i := i + 1) hcopied (by omega)
              refine ⟨files'', hloop, ?_⟩
              rw [← hpath, hdest, hleft, Nat.add_assoc]
          · next hend =>
              -- The call returned 0: nothing was left.
              have hleft : src.length - k = 0 := by omega
              have hrest := moved_le sys (i + 1) (src.length - k - m)
              refine ⟨files', rfl, ?_⟩
              have hzero : m = 0 ∧ moved sys (i + 1) (src.length - k - m) = 0 := by omega
              rw [← hpath, hcopied.dest, hzero.2, Nat.add_zero]

/-- More fuel does not change what the loop does. -/
theorem sendLoop_mono {sys : Syscalls} {fuel fuel' i : Nat} {files files' : Store Path}
    {dest_fd src_fd : Handle Path} (hle : fuel ≤ fuel')
    (h : sendLoop sys fuel i files dest_fd src_fd = some files') :
    sendLoop sys fuel' i files dest_fd src_fd = some files' := by
  induction fuel generalizing fuel' i files dest_fd src_fd with
  | zero => cases h
  | succ fuel ih =>
      obtain ⟨fuel', rfl⟩ : ∃ k, fuel' = k + 1 := ⟨fuel' - 1, by omega⟩
      rw [sendLoop] at h ⊢
      dsimp only at h ⊢
      split
      · next hpos =>
          rw [if_pos hpos] at h
          exact ih (by omega) h
      · next hend => rwa [if_neg hend] at h

/-! ## What is returned -/

/-- The calls before the loop succeed. -/
def Opens (sys : Syscalls) (files : Store Path) (source dest : Path) : Prop :=
  files source ≠ none ∧ sys.opensRead source = true ∧ sys.fstat source = true ∧
    sys.opensWrite dest = true

/-- If one of the calls before the loop fails, `copyfile` returns -1. -/
theorem copyfile_of_not_opens {sys : Syscalls} {files : Store Path} {source dest : Path}
    (h : ¬Opens sys files source dest) (fuel : Nat) :
    copyfile sys fuel files source dest = some (-1, files) := by
  unfold Opens at h
  unfold copyfile openFile
  cases hsrc : files source with
  | none => simp
  | some src =>
    cases hr : sys.opensRead source <;> cases hs : sys.fstat source <;>
      cases hw : sys.opensWrite dest <;> simp_all

/-- What the destination held; nothing if it is new. -/
def oldContent (files : Store Path) (dest : Path) : List UInt8 := (files dest).getD []

/-- Otherwise it opens both files, and nothing is copied yet. -/
theorem copyfile_of_opens {sys : Syscalls} {files : Store Path} {source dest : Path}
    (h : Opens sys files source dest) {src : List UInt8} (hsrc : files source = some src) :
    ∃ files₁ : Store Path,
      Copied src (oldContent files dest) files₁ ⟨source, 0⟩ ⟨dest, 0⟩ 0 ∧
        ∀ fuel, copyfile sys fuel files source dest =
          (sendLoop sys fuel 0 files₁ ⟨dest, 0⟩ ⟨source, 0⟩).map (0, ·) := by
  obtain ⟨-, hr, hs, hw⟩ := h
  have hread : openFile (sys.opensRead source) files source ⟨false, false⟩ =
      some (⟨source, 0⟩, files) := by
    simp [openFile, hr, hsrc]
  have hopen : ∃ files₁ : Store Path,
      openFile (sys.opensWrite dest) files dest ⟨true, false⟩ = some (⟨dest, 0⟩, files₁) ∧
        Copied src (oldContent files dest) files₁ ⟨source, 0⟩ ⟨dest, 0⟩ 0 := by
    rw [openFile, hw, if_pos rfl, oldContent]
    cases hdest : files dest with
    | none =>
        have hne : source ≠ dest := fun h => by rw [h, hdest] at hsrc; cases hsrc
        exact ⟨_, rfl, (Function.update_of_ne hne _ _).trans hsrc, Function.update_self _ _ _,
          rfl, rfl, Nat.zero_le _⟩
    | some old => exact ⟨files, rfl, hsrc, hdest, rfl, rfl, Nat.zero_le _⟩
  obtain ⟨files₁, hopen, hcopied⟩ := hopen
  exact ⟨files₁, hcopied, fun fuel => by simp only [copyfile, hread, hs, if_true, hopen]⟩

/-- It returns 0, with what the calls moved written over the old content. -/
theorem copyfile_returns {sys : Syscalls} {files : Store Path} {source dest : Path}
    (h : Opens sys files source dest) {src : List UInt8} (hsrc : files source = some src) :
    ∃ files', (∀ fuel > src.length, copyfile sys fuel files source dest = some (0, files')) ∧
      (∀ fuel r, copyfile sys fuel files source dest = some r → r = (0, files')) ∧
      files' dest = some (copyOver src (oldContent files dest) (moved sys 0 src.length)) := by
  obtain ⟨files₁, hcopied, hrun⟩ := copyfile_of_opens h hsrc
  have hfuel : src.length - 0 < src.length + 1 := by omega
  obtain ⟨files', hloop, hdest⟩ := sendLoop_eq sys (i := 0) hcopied hfuel
  refine ⟨files', fun fuel hlt => ?_, fun fuel r hr => ?_, by simpa using hdest⟩
  · rw [hrun, sendLoop_mono hlt hloop]
    rfl
  · rw [hrun] at hr
    obtain ⟨files'', hloop', rfl⟩ := Option.map_eq_some_iff.1 hr
    -- Both runs agree with one that has the fuel of both.
    have hmax := sendLoop_mono (Nat.le_max_left fuel (src.length + 1)) hloop'
    rw [sendLoop_mono (Nat.le_max_right fuel (src.length + 1)) hloop] at hmax
    rw [Option.some.inj hmax]

/-- Once both files are open, the copy is faithful exactly if the destination
held what the calls do not move. -/
theorem faithful_iff_of_opens {sys : Syscalls} {files : Store Path} {source dest : Path}
    (h : Opens sys files source dest) {src : List UInt8} (hsrc : files source = some src) :
    (∀ fuel files', copyfile sys fuel files source dest = some (0, files') →
        files' dest = files source) ↔
      (oldContent files dest).drop (moved sys 0 src.length) =
        src.drop (moved sys 0 src.length) := by
  obtain ⟨files', hrun, honly, hdest⟩ := copyfile_returns h hsrc
  constructor
  · intro hall
    have hcopy := hall _ _ (hrun _ (Nat.lt_succ_self _))
    rw [hdest, hsrc] at hcopy
    exact Files.copyOver_eq_iff.1 (Option.some.inj hcopy)
  · intro hdrop fuel files'' hr
    cases honly fuel _ hr
    rw [hdest, hsrc, Files.copyOver_eq_iff.2 hdrop]

/-- If no call fails, a destination that was not longer than the source is all
it takes. -/
theorem faithful_iff_of_moves {sys : Syscalls} {files : Store Path} {source dest : Path}
    (hopens : Opens sys files source dest) {src : List UInt8} (hsrc : files source = some src)
    (h : ∀ i, sys.sendfile i ≠ .fails) :
    (∀ fuel files', copyfile sys fuel files source dest = some (0, files') →
        files' dest = files source) ↔ (oldContent files dest).length ≤ src.length := by
  rw [faithful_iff_of_opens hopens hsrc, moved_eq h, List.drop_length, List.drop_eq_nil_iff]

/-- **Faithful copies**: `copyfile` returns 0 only with the source's content in
the destination, exactly if one of the calls before the loop fails, or what the
destination held agrees with the source behind the bytes that the calls of
`sendfile` move. -/
theorem sendfile_faithful_iff (sys : Syscalls) (files : Store Path) (source dest : Path) :
    (∀ fuel files', copyfile sys fuel files source dest = some (0, files') →
        files' dest = files source) ↔
      ¬Opens sys files source dest ∨
        ∃ src, files source = some src ∧
          (oldContent files dest).drop (moved sys 0 src.length) =
            src.drop (moved sys 0 src.length) := by
  by_cases h : Opens sys files source dest
  · obtain ⟨src, hsrc⟩ := Option.ne_none_iff_exists'.1 h.1
    rw [faithful_iff_of_opens h hsrc]
    constructor
    · intro hdrop
      exact .inr ⟨src, hsrc, hdrop⟩
    · intro hcond
      obtain ⟨src', hsrc', hdrop⟩ := hcond.resolve_left (not_not.2 h)
      obtain rfl : src = src' := Option.some.inj (hsrc.symm.trans hsrc')
      exact hdrop
  · refine ⟨fun _ => .inl h, fun _ fuel files' hr => ?_⟩
    rw [copyfile_of_not_opens h] at hr
    cases hr

/-- A destination that was longer keeps its last byte, and a `sendfile` that
fails at once leaves a new destination empty; 0 is returned both times. -/
theorem copyfile_unfaithful :
    (∃ (sys : Syscalls) (files files' : Store Path), (∀ i, sys.sendfile i ≠ .fails) ∧
      files "a" = some [1, 2] ∧ files "b" = some [7, 8, 9] ∧
      copyfile sys 3 files "a" "b" = some (0, files') ∧
      files' "b" = some [1, 2, 9] ∧ files' "b" ≠ files "a") ∧
    ∃ (sys : Syscalls) (files files' : Store Path),
      files "a" = some [1, 2] ∧ files "b" = none ∧
      copyfile sys 3 files "a" "b" = some (0, files') ∧
      files' "b" = some [] ∧ files' "b" ≠ files "a" := by
  refine ⟨⟨⟨fun _ => true, fun _ => true, fun _ => true, fun _ => .moves 8192⟩,
    update (update (fun _ => none) "a" (some [1, 2])) "b" (some [7, 8, 9]), _, nofun, rfl, rfl,
    rfl, ?_⟩, ⟨fun _ => true, fun _ => true, fun _ => true, fun _ => .fails⟩,
    update (fun _ => none) "a" (some [1, 2]), _, rfl, rfl, rfl, ?_⟩
  · decide
  · decide

end CommonsC.CopyFile.Sendfile
