import FacialLandmark.Image.Pixel
import Mathlib.Data.List.Induction

/-!
# `copyFileFromAsset`

The copy reads the asset in chunks into one buffer, writes each chunk to the output and swallows every
exception. It is modelled as a machine that makes one call of the stream or of the file system at a
time. What a call does is taken from a schedule: how many bytes a `read` delivers, whether a call
throws, and, where a `write` throws, how much of the chunk has got into the file. A process that is
killed is one whose schedule has run out.

The loop head is a state of its own. There the bytes in the output, followed by the part of the buffer
that has not been written, are a prefix of the asset (`CopyInv`), whatever is left in the buffer from
longer reads.
-/

namespace FacialLandmark

/-- What a call does. A `read` delivers `count` bytes, at least one and as many as there are and have
room; a `write` that throws has written `count`. Other calls have no use for the number. -/
inductive Io where
  | returns (count : ℕ)
  | throws (count : ℕ)
  deriving DecidableEq

/-- The call that comes next. At `loopHead` that is the `write`, unless the loop is over; at `caught`
an exception has been swallowed. -/
inductive Pc where
  | openAsset
  | openOutput
  | read
  | loopHead
  | caught
  deriving DecidableEq

/-- The variables of the copy, and the file at `outputPath`. -/
structure Copy where
  pc : Pc
  position : ℕ
  buffer : List JByte
  read : ℤ
  file : Option (List JByte)

def Copy.start : Copy where
  pc := .openAsset
  position := 0
  buffer := []
  read := 0
  file := none

/-- The bytes a `read` delivers, where the asset has as many left. -/
def chunkSize (count : ℕ) : ℕ := max 1 (min count 1024)

/-- ``read = `in`.read(buffer)``, which leaves the rest of the buffer alone. -/
def readInto (asset : List JByte) (s : Copy) (count : ℕ) : Copy :=
  let unread := asset.drop s.position
  if unread = [] then { s with pc := .loopHead, read := -1 }
  else
    let chunk := unread.take (chunkSize count)
    { s with
      pc := .loopHead
      position := s.position + chunk.length
      buffer := chunk ++ s.buffer.drop chunk.length
      read := chunk.length }

/-- `out.write(buffer, 0, read)`, of which `count` bytes get into the file. -/
def writeOut (s : Copy) (count : ℕ) : Option (List JByte) :=
  s.file.map (· ++ (s.buffer.take s.read.toNat).take count)

theorem writeOut_read (s : Copy) :
    writeOut s s.read.toNat = s.file.map (· ++ s.buffer.take s.read.toNat) := by
  rw [writeOut, List.take_take, Nat.min_self]

def copyStep (asset : List JByte) (s : Copy) (io : Io) : Copy :=
  match s.pc, io with
  | .openAsset, .returns _ => { s with pc := .openOutput }
  | .openAsset, .throws _ => { s with pc := .caught }
  | .openOutput, .returns _ =>
    { s with pc := .read, buffer := List.replicate 1024 0#8, file := some [] }
  | .openOutput, .throws _ => { s with pc := .caught }
  | .read, .returns count => readInto asset s count
  | .read, .throws _ => { s with pc := .caught }
  | .loopHead, .returns _ =>
    if s.read = -1 then s else { s with pc := .read, file := writeOut s s.read.toNat }
  | .loopHead, .throws count =>
    if s.read = -1 then s else { s with pc := .caught, file := writeOut s count }
  | .caught, _ => s

/-- `copyFileFromAsset`, as far as the schedule goes. -/
def copyRun (asset : List JByte) (ios : List Io) : Copy := ios.foldl (copyStep asset) .start

theorem copyRun_concat (asset : List JByte) (ios : List Io) (io : Io) :
    copyRun asset (ios ++ [io]) = copyStep asset (copyRun asset ios) io := by
  rw [copyRun, copyRun, List.foldl_append, List.foldl_cons, List.foldl_nil]

def Copy.Ended (s : Copy) : Prop := s.pc = .caught ∨ (s.pc = .loopHead ∧ s.read = -1)

instance (s : Copy) : Decidable s.Ended := inferInstanceAs (Decidable (_ ∨ _))

/-! ## The loop invariant -/

/-- At the read, the output is the asset up to the position of the stream; at the loop head, the bytes
of the buffer that `read` counts are still missing. After an exception it is some prefix. -/
def CopyInv (asset : List JByte) (s : Copy) : Prop :=
  match s.pc with
  | .openAsset | .openOutput => s.file = none ∧ s.position = 0
  | .read => s.file = some (asset.take s.position)
  | .loopHead => (s.read = -1 → asset.length ≤ s.position) ∧
    ∃ out, s.file = some out ∧ out ++ s.buffer.take s.read.toNat = asset.take s.position
  | .caught => ∀ out, s.file = some out → out <+: asset

theorem readInto_of_le {asset : List JByte} {s : Copy} (count : ℕ)
    (h : asset.length ≤ s.position) :
    readInto asset s count = { s with pc := .loopHead, read := -1 } :=
  if_pos (List.drop_eq_nil_iff.mpr h)

/-- Before the end, a `read` puts the next chunk at the start of the buffer, and counts it. -/
structure ReadsChunk (asset : List JByte) (s t : Copy) (size : ℕ) : Prop where
  pc_eq : t.pc = .loopHead
  file_eq : t.file = s.file
  position_eq : t.position = s.position + ((asset.drop s.position).take size).length
  read_ne : t.read ≠ -1
  buffer_take : t.buffer.take t.read.toNat = (asset.drop s.position).take size

theorem readsChunk_readInto {asset : List JByte} {s : Copy} (count : ℕ)
    (h : s.position < asset.length) :
    ReadsChunk asset s (readInto asset s count) (chunkSize count) := by
  have hunread : asset.drop s.position ≠ [] := fun hnil ↦ by
    have hle := List.drop_eq_nil_iff.mp hnil
    omega
  rw [readInto, if_neg hunread]
  refine ⟨rfl, rfl, rfl, ?_, ?_⟩
  · simp only
    omega
  · -- what is behind the chunk is left over from earlier reads, and not counted
    simp only [Int.toNat_natCast]
    exact List.take_left

private theorem take_append_chunk (asset : List JByte) (position size : ℕ) :
    asset.take position ++ (asset.drop position).take size
      = asset.take (position + ((asset.drop position).take size).length) := by
  rw [List.take_add, List.length_take, ← List.take_eq_take_min]

theorem copyInv_readInto {asset : List JByte} {s : Copy} (count : ℕ)
    (h : s.file = some (asset.take s.position)) : CopyInv asset (readInto asset s count) := by
  rcases le_or_gt asset.length s.position with hend | hmore
  · rw [readInto_of_le count hend]
    exact ⟨fun _ ↦ hend, asset.take s.position, h, by simp⟩
  · have hchunk := readsChunk_readInto count hmore
    simp only [CopyInv, hchunk.pc_eq]
    refine ⟨fun hread ↦ absurd hread hchunk.read_ne, asset.take s.position, ?_, ?_⟩
    · rw [hchunk.file_eq, h]
    · rw [hchunk.buffer_take, hchunk.position_eq, take_append_chunk]

/-- **One call** keeps the invariant. -/
theorem copyInv_copyStep {asset : List JByte} {s : Copy} (io : Io) (h : CopyInv asset s) :
    CopyInv asset (copyStep asset s io) := by
  obtain ⟨pc, position, buffer, read, file⟩ := s
  cases pc with
  | openAsset =>
    cases io with
    | returns count => exact h
    | throws count =>
      intro out hout
      exact absurd (h.1.symm.trans hout) (by simp)
  | openOutput =>
    cases io with
    | returns count =>
      obtain ⟨-, hposition⟩ := h
      simp only at hposition
      simp only [CopyInv, copyStep, hposition, List.take_zero]
    | throws count =>
      intro out hout
      exact absurd (h.1.symm.trans hout) (by simp)
  | read =>
    cases io with
    | returns count => exact copyInv_readInto count h
    | throws count =>
      intro out hout
      obtain rfl := Option.some_inj.mp (Eq.trans (Eq.symm h) hout)
      exact List.take_prefix position asset
  | loopHead =>
    obtain ⟨hend, out, hfile, hout⟩ := h
    simp only at hend hfile hout
    subst hfile
    by_cases hread : read = -1
    · cases io <;> simp only [copyStep, if_pos hread] <;> exact ⟨hend, out, rfl, hout⟩
    · cases io with
      | returns count =>
        simp only [copyStep, if_neg hread, CopyInv]
        rw [writeOut_read, Option.map_some, hout]
      | throws count =>
        simp only [copyStep, if_neg hread, CopyInv, writeOut, Option.map_some, Option.some_inj]
        rintro _ rfl
        refine List.IsPrefix.trans ?_ (List.take_prefix position asset)
        rw [← hout, List.prefix_append_right_inj]
        exact List.take_prefix count _
  | caught => exact h

/-- **A whole run** keeps the invariant. -/
theorem copyInv_copyRun (asset : List JByte) (ios : List Io) : CopyInv asset (copyRun asset ios) := by
  induction ios using List.reverseRecOn with
  | nil => exact ⟨rfl, rfl⟩
  | append_singleton ios io ih =>
    rw [copyRun_concat]
    exact copyInv_copyStep io ih

/-! ## How much of the asset is copied -/

/-- The bytes of `n` unread ones that do not get into the output, for the calls from the first `read`
on. -/
def unwritten : ℕ → List Io → ℕ
  | n, [] => n
  | n, .throws _ :: _ => n
  | n, [.returns _] => n
  | n, .returns count :: .throws written :: _ => n - min written (chunkSize count)
  | n, .returns count :: .returns _ :: ios => unwritten (n - chunkSize count) ios

theorem unwritten_le (n : ℕ) (ios : List Io) : unwritten n ios ≤ n := by
  fun_induction unwritten n ios <;> omega

theorem foldl_copyStep_of_ended {asset : List JByte} {s : Copy} (h : s.Ended) (ios : List Io) :
    ios.foldl (copyStep asset) s = s := by
  induction ios with
  | nil => rfl
  | cons io ios ih =>
    have hstep : copyStep asset s io = s := by
      rcases h with hcaught | ⟨hhead, hread⟩
      · simp only [copyStep, hcaught]
      · cases io <;> simp only [copyStep, hhead, if_pos hread]
    rw [List.foldl_cons, hstep, ih]

structure AtRead (asset : List JByte) (s : Copy) : Prop where
  pc_eq : s.pc = .read
  file_eq : s.file = some (asset.take s.position)

theorem foldl_copyStep_throws {asset : List JByte} {s : Copy} (h : s.pc = .read) (count : ℕ)
    (ios : List Io) :
    (Io.throws count :: ios).foldl (copyStep asset) s = { s with pc := .caught } := by
  have hstep : copyStep asset s (.throws count) = { s with pc := .caught } := by
    simp only [copyStep, h]
  rw [List.foldl_cons, hstep]
  exact foldl_copyStep_of_ended (Or.inl rfl) ios

theorem file_foldl_of_le {asset : List JByte} {s : Copy} (h : AtRead asset s)
    (hend : asset.length ≤ s.position) (ios : List Io) :
    (ios.foldl (copyStep asset) s).file = s.file := by
  cases ios with
  | nil => rfl
  | cons io ios =>
    cases io with
    | returns count =>
      have hstep : copyStep asset s (.returns count) = { s with pc := .loopHead, read := -1 } := by
        simp only [copyStep, h.pc_eq, readInto_of_le count hend]
      rw [List.foldl_cons, hstep, foldl_copyStep_of_ended (Or.inr ⟨rfl, rfl⟩)]
    | throws count => rw [foldl_copyStep_throws h.pc_eq]

theorem copyStep_chunk {asset : List JByte} {s t : Copy} {size : ℕ} (h : AtRead asset s)
    (hchunk : ReadsChunk asset s t size) (count : ℕ) :
    AtRead asset (copyStep asset t (.returns count)) ∧
      asset.length - (copyStep asset t (.returns count)).position
        = asset.length - s.position - size := by
  simp only [copyStep, hchunk.pc_eq, if_neg hchunk.read_ne]
  refine ⟨⟨rfl, ?_⟩, ?_⟩
  · rw [writeOut_read, hchunk.file_eq, h.file_eq, Option.map_some, hchunk.buffer_take,
      take_append_chunk, ← hchunk.position_eq]
  · simp only [hchunk.position_eq, List.length_take, List.length_drop]
    omega

private theorem take_sub_sub (asset : List JByte) (position size : ℕ) :
    asset.take (asset.length - (asset.length - position - size)) = asset.take (position + size) := by
  rw [Nat.sub_sub]
  rcases le_total (position + size) asset.length with hle | hle
  · rw [Nat.sub_sub_self hle]
  · rw [Nat.sub_eq_zero_of_le hle, Nat.sub_zero, List.take_length, List.take_of_length_le hle]

private theorem take_sub_self {asset : List JByte} {position : ℕ} (h : position < asset.length) :
    asset.take (asset.length - (asset.length - position)) = asset.take position := by
  rw [Nat.sub_sub_self h.le]

theorem copyStep_throws {asset : List JByte} {s t : Copy} {size : ℕ}
    (hchunk : ReadsChunk asset s t size) (written : ℕ) :
    copyStep asset t (.throws written) = { t with
      pc := .caught
      file := s.file.map (· ++ (asset.drop s.position).take (min written size)) } := by
  simp only [copyStep, hchunk.pc_eq, if_neg hchunk.read_ne, writeOut, hchunk.buffer_take,
    hchunk.file_eq, List.take_take]

/-- How a copy stands when its calls are used up, with `left` bytes of the asset not in the output: if
there are such bytes, it has come to its end exactly when a call has thrown. -/
structure CopiedBut (asset : List JByte) (left : ℕ) (ios : List Io) (t : Copy) : Prop where
  file_eq : t.file = some (asset.take (asset.length - left))
  ended_iff : left ≠ 0 → (t.Ended ↔ ∃ count, .throws count ∈ ios)

/-- **The copy from a `read` on**, over whole schedules: one chunk after the other, until a call
throws, the calls are used up or the asset is. -/
theorem copiedBut_foldl_copyStep {asset : List JByte} (ios : List Io) {s : Copy}
    (h : AtRead asset s) :
    CopiedBut asset (unwritten (asset.length - s.position) ios) ios
      (ios.foldl (copyStep asset) s) := by
  by_cases hmore : s.position < asset.length
  · match ios with
    | [] =>
      refine ⟨?_, fun _ ↦ by simp [Copy.Ended, h.pc_eq]⟩
      rw [List.foldl_nil, unwritten, take_sub_self hmore, h.file_eq]
    | .throws count :: ios =>
      rw [foldl_copyStep_throws h.pc_eq]
      refine ⟨?_, fun _ ↦ iff_of_true (Or.inl rfl) ⟨count, List.mem_cons_self⟩⟩
      rw [unwritten, take_sub_self hmore, h.file_eq]
    | .returns count :: ios =>
      have hchunk := readsChunk_readInto count hmore
      have hread : copyStep asset s (.returns count) = readInto asset s count := by
        simp only [copyStep, h.pc_eq]
      rw [List.foldl_cons, hread]
      match ios with
      | [] =>
        -- killed with a chunk in the buffer
        refine ⟨?_, fun _ ↦ by simp [Copy.Ended, hchunk.pc_eq, hchunk.read_ne]⟩
        rw [List.foldl_nil, unwritten, take_sub_self hmore, hchunk.file_eq, h.file_eq]
      | .throws written :: ios =>
        rw [List.foldl_cons, copyStep_throws hchunk, foldl_copyStep_of_ended (Or.inl rfl)]
        refine ⟨?_, fun _ ↦ iff_of_true (Or.inl rfl) ⟨written, by simp⟩⟩
        rw [h.file_eq, Option.map_some, ← List.take_add, unwritten, take_sub_sub]
      | .returns count' :: ios =>
        obtain ⟨hat, hposition⟩ := copyStep_chunk h hchunk count'
        have hrest := copiedBut_foldl_copyStep ios hat
        rw [hposition] at hrest
        rw [List.foldl_cons, unwritten]
        exact ⟨hrest.file_eq, fun hleft ↦ (hrest.ended_iff hleft).trans (by simp)⟩
  · -- nothing left to read
    have hend : asset.length ≤ s.position := not_lt.mp hmore
    have hzero : unwritten (asset.length - s.position) ios = 0 := by
      have hle := unwritten_le (asset.length - s.position) ios
      omega
    rw [hzero]
    refine ⟨?_, fun hne ↦ absurd rfl hne⟩
    rw [file_foldl_of_le h hend, h.file_eq, Nat.sub_zero, List.take_length,
      List.take_of_length_le hend]

end FacialLandmark
