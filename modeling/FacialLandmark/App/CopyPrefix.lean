import FacialLandmark.App.AssetCopy

/-!
# What the copy writes is a prefix of the asset

`CopyInv` relates the output and the buffer to the position of the stream. It leaves open how large
`read` may be, and with it whether a `write` could take bytes that lie behind the last chunk, left over
from a longer read. `BufferInv` settles that: the buffer keeps its 1024 bytes, and `read` counts bytes
that are in it. Both together say which bytes a `write` adds to the file, wherever the stream splits the
asset and wherever a call throws.
-/

namespace FacialLandmark

/-! ## The buffer and its count -/

/-- The buffer at the calls that use it. -/
structure BufferInv (asset : List JByte) (s : Copy) : Prop where
  position_le : s.position ≤ asset.length
  length_buffer : s.pc = .read ∨ s.pc = .loopHead → s.buffer.length = 1024
  read_range : s.pc = .loopHead → s.read ≠ -1 → 1 ≤ s.read ∧ s.read ≤ 1024

theorem bufferInv_of_pc {asset : List JByte} {s : Copy} (pc : Pc) (hpc : s.pc = pc)
    (hunused : pc ≠ .read ∧ pc ≠ .loopHead) (hposition : s.position ≤ asset.length) :
    BufferInv asset s := by
  subst hpc
  refine ⟨hposition, ?_, fun hhead ↦ absurd hhead hunused.2⟩
  rintro (hread | hhead)
  · exact absurd hread hunused.1
  · exact absurd hhead hunused.2

theorem bufferInv_readInto {asset : List JByte} {s : Copy} (count : ℕ)
    (hposition : s.position ≤ asset.length) (hbuffer : s.buffer.length = 1024) :
    BufferInv asset (readInto asset s count) := by
  rcases hposition.eq_or_lt with hend | hmore
  · rw [readInto_of_le count hend.ge]
    exact ⟨hposition, fun _ ↦ hbuffer, fun _ hread ↦ absurd rfl hread⟩
  · have hunread : asset.drop s.position ≠ [] := fun hnil ↦ by
      have hle := List.drop_eq_nil_iff.mp hnil
      omega
    have hchunk : ((asset.drop s.position).take (chunkSize count)).length
        = min (max 1 (min count 1024)) (asset.length - s.position) := by
      rw [List.length_take, List.length_drop, chunkSize]
    rw [readInto, if_neg hunread]
    refine ⟨?_, fun _ ↦ ?_, fun _ _ ↦ ?_⟩
    · simp only [hchunk]
      omega
    · simp only [List.length_append, List.length_drop, hbuffer, hchunk]
      omega
    · simp only [hchunk]
      omega

theorem bufferInv_copyStep {asset : List JByte} {s : Copy} (io : Io) (h : BufferInv asset s) :
    BufferInv asset (copyStep asset s io) := by
  obtain ⟨pc, position, buffer, read, file⟩ := s
  obtain ⟨hposition, hbuffer, hread⟩ := h
  cases pc with
  | openAsset =>
    cases io with
    | returns count => exact bufferInv_of_pc .openOutput rfl (by decide) hposition
    | throws count => exact bufferInv_of_pc .caught rfl (by decide) hposition
  | openOutput =>
    cases io with
    | returns count =>
      refine ⟨hposition, fun _ ↦ List.length_replicate, fun hhead ↦ ?_⟩
      cases hhead
    | throws count => exact bufferInv_of_pc .caught rfl (by decide) hposition
  | read =>
    cases io with
    | returns count => exact bufferInv_readInto count hposition (hbuffer (Or.inl rfl))
    | throws count => exact bufferInv_of_pc .caught rfl (by decide) hposition
  | loopHead =>
    by_cases hover : read = -1
    · cases io <;> simp only [copyStep, if_pos hover] <;> exact ⟨hposition, hbuffer, hread⟩
    · cases io with
      | returns count =>
        simp only [copyStep, if_neg hover]
        refine ⟨hposition, fun _ ↦ hbuffer (Or.inr rfl), fun hhead ↦ ?_⟩
        cases hhead
      | throws count =>
        simp only [copyStep, if_neg hover]
        exact bufferInv_of_pc .caught rfl (by decide) hposition
  | caught => exact ⟨hposition, hbuffer, hread⟩

theorem bufferInv_copyRun (asset : List JByte) (ios : List Io) :
    BufferInv asset (copyRun asset ios) := by
  induction ios using List.reverseRecOn with
  | nil => exact bufferInv_of_pc .openAsset rfl (by decide) (Nat.zero_le _)
  | append_singleton ios io ih =>
    rw [copyRun_concat]
    exact bufferInv_copyStep io ih

/-! ## The output -/

theorem isPrefix_of_copyInv {asset out : List JByte} {s : Copy} (h : CopyInv asset s)
    (hout : s.file = some out) : out <+: asset := by
  obtain ⟨pc, position, buffer, read, file⟩ := s
  simp only at hout
  subst hout
  cases pc with
  | openAsset => exact absurd h.1 (by simp)
  | openOutput => exact absurd h.1 (by simp)
  | read =>
    have hread : out = asset.take position := Option.some_inj.mp h
    rw [hread]
    exact List.take_prefix position asset
  | loopHead =>
    obtain ⟨-, out', hout', happend⟩ := h
    obtain rfl := Option.some_inj.mp hout'
    refine (List.prefix_append out (buffer.take read.toNat)).trans ?_
    rw [happend]
    exact List.take_prefix position asset
  | caught => exact h out rfl

private theorem eq_take_drop_of_append_prefix {α : Type*} {out chunk asset : List α}
    (h : out ++ chunk <+: asset) : chunk = (asset.drop out.length).take chunk.length := by
  obtain ⟨rest, rfl⟩ := h
  rw [List.append_assoc, List.drop_left, List.take_left]

/-- At a loop head that is not the last, the bytes of the buffer that `read` counts are those of the
asset behind the output. -/
theorem buffer_take_of_loopHead {asset out : List JByte} {s : Copy} (hinv : CopyInv asset s)
    (hbuffer : BufferInv asset s) (hhead : s.pc = .loopHead) (hread : s.read ≠ -1)
    (hout : s.file = some out) :
    s.buffer.take s.read.toNat = (asset.drop out.length).take s.read.toNat := by
  have hlength : (s.buffer.take s.read.toNat).length = s.read.toNat := by
    have hrange := hbuffer.read_range hhead hread
    rw [List.length_take, hbuffer.length_buffer (Or.inr hhead)]
    omega
  simp only [CopyInv, hhead] at hinv
  obtain ⟨-, out', hout', happend⟩ := hinv
  obtain rfl := Option.some_inj.mp (hout.symm.trans hout')
  have hprefix : out ++ s.buffer.take s.read.toNat <+: asset := by
    rw [happend]
    exact List.take_prefix s.position asset
  have hchunk := eq_take_drop_of_append_prefix hprefix
  rwa [hlength] at hchunk

/-- What the copy guarantees in each state of a run. -/
structure KeepsPrefix (asset : List JByte) (s : Copy) : Prop where
  /-- At a loop head the bytes written so far, followed by the `read` first bytes of the buffer, are
  a prefix of the asset. -/
  loopHead : s.pc = .loopHead → ∃ out, s.file = some out ∧
    out ++ s.buffer.take s.read.toNat <+: asset
  /-- At a loop head that is not the last, `read` counts bytes that are in the buffer. -/
  read_range : s.pc = .loopHead → s.read ≠ -1 → 1 ≤ s.read ∧ s.read ≤ 1024 ∧
    (s.buffer.take s.read.toNat).length = s.read
  /-- When the loop is over, the output is the whole asset. -/
  whole : s.pc = .loopHead → s.read = -1 → s.file = some asset
  /-- Whatever the `write` at a loop head does, it adds to the file only bytes that the last `read`
  has delivered: of the asset behind the file, and no more than `read` of them. -/
  fresh : s.pc = .loopHead → s.read ≠ -1 → ∀ out, s.file = some out → ∀ io, ∃ chunk,
    (copyStep asset s io).file = some (out ++ chunk) ∧
      chunk <+: (asset.drop out.length).take s.read.toNat
  /-- In every other state too the file holds a prefix of the asset. -/
  isPrefix : ∀ out, s.file = some out → out <+: asset

/-- **The copy keeps its output a prefix of the asset**, however the asset is split into reads and
wherever a call throws. -/
theorem keepsPrefix_copyRun (asset : List JByte) (ios : List Io) :
    KeepsPrefix asset (copyRun asset ios) := by
  have hinv := copyInv_copyRun asset ios
  have hbuffer := bufferInv_copyRun asset ios
  generalize copyRun asset ios = s at *
  refine ⟨fun hhead ↦ ?_, fun hhead hread ↦ ?_, fun hhead hread ↦ ?_,
    fun hhead hread out hout io ↦ ?_, fun out hout ↦ isPrefix_of_copyInv hinv hout⟩
  · simp only [CopyInv, hhead] at hinv
    obtain ⟨-, out, hout, happend⟩ := hinv
    refine ⟨out, hout, ?_⟩
    rw [happend]
    exact List.take_prefix s.position asset
  · obtain ⟨hlow, hhigh⟩ := hbuffer.read_range hhead hread
    refine ⟨hlow, hhigh, ?_⟩
    rw [List.length_take, hbuffer.length_buffer (Or.inr hhead)]
    omega
  · simp only [CopyInv, hhead] at hinv
    obtain ⟨hend, out, hout, happend⟩ := hinv
    -- nothing of the buffer is missing any more, and the stream is at the end of the asset
    rw [hread, List.take_of_length_le (hend hread)] at happend
    rw [hout, ← happend]
    simp
  · have hchunk := buffer_take_of_loopHead hinv hbuffer hhead hread hout
    cases io with
    | returns count =>
      refine ⟨(asset.drop out.length).take s.read.toNat, ?_, List.prefix_rfl⟩
      simp only [copyStep, hhead, if_neg hread]
      rw [writeOut_read, hout, Option.map_some, hchunk]
    | throws count =>
      refine ⟨((asset.drop out.length).take s.read.toNat).take count, ?_, List.take_prefix _ _⟩
      simp only [copyStep, hhead, if_neg hread]
      rw [writeOut, hout, Option.map_some, hchunk]

/-! ## A copy without failures -/

/-- From each `read` there are calls that take the copy to its end: byte after byte, and a last `read`
that finds nothing. -/
theorem exists_complete_of_atRead {asset : List JByte} {s : Copy} (h : AtRead asset s) :
    ∃ ios : List Io, (ios.foldl (copyStep asset) s).Ended ∧
      (ios.foldl (copyStep asset) s).file = some asset := by
  induction hleft : asset.length - s.position using Nat.strong_induction_on generalizing s with
  | _ left ih =>
    have hread : copyStep asset s (.returns 1) = readInto asset s 1 := by
      simp only [copyStep, h.pc_eq]
    rcases lt_or_ge s.position asset.length with hmore | hend
    · obtain ⟨hat, hposition⟩ := copyStep_chunk h (readsChunk_readInto 1 hmore) 0
      have hsize : chunkSize 1 = 1 := rfl
      obtain ⟨ios, hended, hfile⟩ := ih _ (by omega) hat rfl
      refine ⟨.returns 1 :: .returns 0 :: ios, ?_⟩
      rw [List.foldl_cons, List.foldl_cons, hread]
      exact ⟨hended, hfile⟩
    · refine ⟨[.returns 1], ?_⟩
      rw [List.foldl_cons, List.foldl_nil, hread, readInto_of_le 1 hend]
      refine ⟨Or.inr ⟨rfl, rfl⟩, ?_⟩
      rw [h.file_eq, List.take_of_length_le hend]

theorem exists_complete_copyRun (asset : List JByte) :
    ∃ ios, (copyRun asset ios).Ended ∧ (copyRun asset ios).file = some asset := by
  have hat : AtRead asset (copyRun asset [.returns 0, .returns 0]) := ⟨rfl, rfl⟩
  obtain ⟨ios, hended, hfile⟩ := exists_complete_of_atRead hat
  rw [copyRun, ← List.foldl_append, ← copyRun] at hended hfile
  exact ⟨_, hended, hfile⟩

end FacialLandmark
