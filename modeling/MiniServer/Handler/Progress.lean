import Mathlib.Algebra.GroupWithZero.Nat
import MiniServer.Connection.Sending
import MiniServer.Handler.Code

/-!
# How far a response is written

A response is a header and perhaps a mapped file, each with an offset of its own.  `At` says that
the two offsets are one cursor over the header and the file together; it holds when a response is
set (`At.start`) and is kept by `consumeWriteData` for every count, also where a count straddles the
border or is larger than what is left (`At.consume`).

`write_progress` is what follows for the array that `handleWrite` gives to `writev`.
-/

namespace MiniServer

namespace Connection

/-- The response is `header` and `file`, and the cursor has been moved by `n`. -/
structure At (header : Bytes) (file : Option Bytes) (n : ℕ) (c : Connection) : Prop where
  writeBuf_eq : c.writeBuf = header
  mappedFile_eq : c.mappedFile = file
  writeOffset_eq : c.writeOffset = min n header.length
  fileOffset_eq : c.fileOffset = min (n - header.length) (file.getD []).length

/-- A response is set: with `appendWriteData`, or with `setMappedWriteData` if there is a file; a
null pointer for the file leaves the same as `appendWriteData`. -/
def setResponse (c : Connection) (header : Bytes) : Option Bytes → Connection
  | none => c.appendWriteData header
  | some file => c.setMappedWriteData header file

namespace At

variable {header : Bytes} {file : Option Bytes} {n : ℕ} {c : Connection}

theorem start (c : Connection) (header : Bytes) (file : Option Bytes) :
    At header file 0 (c.setResponse header file) := by
  cases file <;> exact ⟨rfl, rfl, (Nat.zero_min _).symm, by rw [Nat.zero_sub, Nat.zero_min]; rfl⟩

theorem fileSize_eq (h : At header file n c) : c.fileSize = (file.getD []).length := by
  rw [fileSize, h.mappedFile_eq]

theorem inBounds (h : At header file n c) : c.InBounds := by
  constructor
  · rw [h.writeOffset_eq, h.writeBuf_eq]
    exact Nat.min_le_right _ _
  · rw [h.fileOffset_eq, h.fileSize_eq]
    exact Nat.min_le_right _ _

/-- Every count moves the cursor, as far as there is something to move over. -/
theorem consume (h : At header file n c) (bytes : ℕ) :
    At header file (n + bytes) (c.consumeWriteData bytes) := by
  have hheader : c.writeBuf.length = header.length := by rw [h.writeBuf_eq]
  have hfile := h.fileSize_eq
  have hwrite := h.writeOffset_eq
  have hmapped := h.fileOffset_eq
  unfold consumeWriteData
  dsimp only
  rw [subSize_of_le h.inBounds.write, subSize_of_le h.inBounds.file]
  split_ifs with hmore
  · -- the count reaches into the file
    refine ⟨h.writeBuf_eq, h.mappedFile_eq, ?_, ?_⟩
    · show c.writeOffset + _ = _
      omega
    · show c.fileOffset + _ = _
      omega
  · refine ⟨h.writeBuf_eq, h.mappedFile_eq, ?_, ?_⟩
    · show c.writeOffset + _ = _
      omega
    · show c.fileOffset = _
      cases file with
      | none =>
        rw [hmapped, Option.getD_none, List.length_nil, Nat.min_zero, Nat.min_zero]
      | some file =>
        have hnone : ¬ 0 < bytes - min bytes (c.writeBuf.length - c.writeOffset) :=
          fun hpos => hmore ⟨hpos, by rw [h.mappedFile_eq]; rfl⟩
        omega

theorem consumeAll (h : At header file n c) (counts : List ℕ) :
    At header file (n + counts.sum) (counts.foldl consumeWriteData c) := by
  induction counts generalizing n c with
  | nil => exact h
  | cons bytes counts ih =>
    rw [List.sum_cons, ← Nat.add_assoc]
    exact ih (h.consume bytes)

theorem offset_add (h : At header file n c) :
    c.writeOffset + c.fileOffset = min n (header ++ file.getD []).length := by
  rw [h.writeOffset_eq, h.fileOffset_eq, List.length_append]
  omega

theorem unsent_eq (h : At header file n c) : c.unsent = (header ++ file.getD []).drop n := by
  rw [h.inBounds.unsent_eq, h.writeBuf_eq, h.mappedFile_eq, h.writeOffset_eq, h.fileOffset_eq,
    ← List.drop_eq_drop_min, ← List.drop_eq_drop_min, List.drop_append]

theorem hasWriteData_eq_false (h : At header file n c) :
    c.hasWriteData = false ↔ (header ++ file.getD []).length ≤ n := by
  rw [h.inBounds.hasWriteData_eq_false, h.unsent_eq, List.drop_eq_nil_iff]

end At

/-- A part of the response that is not sent has its place in the array. -/
theorem iovecs_ne_nil {c : Connection} (h : c.hasWriteData = true) : c.iovecs ≠ [] := by
  unfold iovecs
  rcases Bool.or_eq_true_iff.1 h with hheader | hfile
  · rw [if_pos (of_decide_eq_true hheader)]
    exact List.append_ne_nil_of_left_ne_nil (List.cons_ne_nil _ _) _
  · obtain ⟨hsome, hlt⟩ := Bool.and_eq_true_iff.1 hfile
    have hleft : c.mappedFile.isSome ∧ c.fileOffset < c.fileSize :=
      ⟨hsome, of_decide_eq_true hlt⟩
    rw [if_pos hleft]
    exact List.append_ne_nil_of_right_ne_nil _ (List.cons_ne_nil _ _)

end Connection

/-- `handleWrite` calls `writev` only where something is left, with all that is left. -/
theorem Pc.iov_of_gatherBody {C : Type} {c : C} {conn : Connection} {iov : List Bytes}
    (h : (gatherBody c conn).next = some (.writev c iov)) : iov = conn.iovecs ∧ iov ≠ [] := by
  unfold gatherBody at h
  split_ifs at h with hstop
  · cases h
  · rw [Bool.or_eq_true_iff, not_or, Bool.not_eq_true', Bool.not_eq_false] at hstop
    cases h
    exact ⟨rfl, Connection.iovecs_ne_nil hstop.2⟩

/-- **The two offsets are one cursor over the response.**  After any counts they are inside the
header and the file, so that no difference wraps; their sum is the sum of the counts as far as the
response goes; `writev` is given what is behind the cursor, and nothing is given when the cursor is
at the end. -/
theorem Connection.write_progress {C : Type} (conn : C) (c : Connection) (header : Bytes)
    (file : Option Bytes) (counts : List ℕ) :
    let response := header ++ file.getD []
    let c' := counts.foldl consumeWriteData (c.setResponse header file)
    let progress := min counts.sum response.length
    (c'.writeOffset ≤ c'.writeBuf.length ∧ c'.fileOffset ≤ c'.fileSize) ∧
      (subSize c'.writeBuf.length c'.writeOffset = c'.writeBuf.length - c'.writeOffset ∧
        subSize c'.fileSize c'.fileOffset = c'.fileSize - c'.fileOffset) ∧
      c'.writeOffset + c'.fileOffset = progress ∧
      c'.iovecs.flatten = response.drop progress ∧
      (c'.hasWriteData = false ↔ c'.writeOffset + c'.fileOffset = response.length) ∧
      ∀ iov, (Pc.gatherBody conn c').next = some (.writev conn iov) →
        iov ≠ [] ∧ iov.flatten = response.drop progress := by
  intro response c' progress
  have hat : At header file counts.sum c' := by
    have h := (At.start c header file).consumeAll counts
    rwa [Nat.zero_add] at h
  have hsum : c'.writeOffset + c'.fileOffset = progress := hat.offset_add
  have hunsent : c'.iovecs.flatten = response.drop progress := by
    rw [← List.drop_eq_drop_min]
    exact hat.unsent_eq
  refine ⟨⟨hat.inBounds.write, hat.inBounds.file⟩,
    ⟨subSize_of_le hat.inBounds.write, subSize_of_le hat.inBounds.file⟩, hsum, hunsent, ?_, ?_⟩
  · have hend : c'.hasWriteData = false ↔ response.length ≤ counts.sum :=
      hat.hasWriteData_eq_false
    rw [hend, hsum]
    show _ ↔ min counts.sum response.length = response.length
    omega
  · intro iov hnext
    obtain ⟨rfl, hne⟩ := Pc.iov_of_gatherBody hnext
    exact ⟨hne, hunsent⟩

end MiniServer
