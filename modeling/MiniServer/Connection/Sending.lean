import MiniServer.Connection.Basic

/-!
# The bytes of a response that are not written yet

`handleWrite` passes `iovecs` to `writev` and tells the connection afterwards how many bytes were
taken. `unsent` is what is left of the response; `consumeWriteData` takes its bytes off the front
(`unsent_consumeWriteData`), across the border between the header and the mapped file.
-/

namespace MiniServer

namespace Connection

/-- The rest of the response that is being written. -/
def unsent (c : Connection) : Bytes := c.iovecs.flatten

/-- The offsets lie inside the response. -/
structure InBounds (c : Connection) : Prop where
  write : c.writeOffset ≤ c.writeBuf.length
  file : c.fileOffset ≤ c.fileSize

theorem take_drop_subSize {s : Bytes} {n : ℕ} (h : n ≤ s.length) :
    (s.drop n).take (subSize s.length n) = s.drop n := by
  rw [subSize_of_le h]
  exact List.take_of_length_le (List.length_drop ▸ le_refl _)

theorem InBounds.unsent_eq {c : Connection} (h : c.InBounds) :
    c.unsent = c.writeBuf.drop c.writeOffset ++ (c.mappedFile.getD []).drop c.fileOffset := by
  have hheader : (if c.writeOffset < c.writeBuf.length then
      [(c.writeBuf.drop c.writeOffset).take (subSize c.writeBuf.length c.writeOffset)]
      else []).flatten = c.writeBuf.drop c.writeOffset := by
    split_ifs with hlt
    · rw [take_drop_subSize h.write, List.flatten_singleton]
    · rw [List.drop_eq_nil_of_le (not_lt.1 hlt), List.flatten_nil]
  have hfile : (if c.mappedFile.isSome ∧ c.fileOffset < c.fileSize then
      [((c.mappedFile.getD []).drop c.fileOffset).take (subSize c.fileSize c.fileOffset)]
      else []).flatten = (c.mappedFile.getD []).drop c.fileOffset := by
    split_ifs with hlt
    · rw [fileSize, take_drop_subSize h.file, List.flatten_singleton]
    · cases hfile : c.mappedFile with
      | none => simp
      | some file =>
        rw [fileSize, hfile] at hlt
        rw [Option.getD_some, List.drop_eq_nil_of_le (by simpa using hlt), List.flatten_nil]
  rw [unsent, iovecs, List.flatten_append, hheader, hfile]

theorem InBounds.hasWriteData_eq_false {c : Connection} (h : c.InBounds) :
    c.hasWriteData = false ↔ c.unsent = [] := by
  rw [h.unsent_eq, List.append_eq_nil_iff, List.drop_eq_nil_iff, List.drop_eq_nil_iff,
    hasWriteData, fileSize]
  cases c.mappedFile <;> simp

/-- **Bytes that the socket has taken leave the front of the response.** -/
theorem InBounds.unsent_consumeWriteData {c : Connection} (h : c.InBounds) {n : ℕ}
    (hn : n ≤ c.unsent.length) :
    (c.consumeWriteData n).InBounds ∧ (c.consumeWriteData n).unsent = c.unsent.drop n := by
  have hwrite := h.write
  have hfile := h.file
  have hlen : c.unsent.length =
      (c.writeBuf.length - c.writeOffset) + (c.fileSize - c.fileOffset) := by
    rw [h.unsent_eq, List.length_append, List.length_drop, List.length_drop]
    rfl
  unfold consumeWriteData
  dsimp only
  rw [subSize_of_le hwrite, subSize_of_le hfile]
  split_ifs with hmore
  · -- the header is sent, and the rest of the bytes are from the file
    have hbounds : InBounds { c with
        writeOffset := c.writeOffset + min n (c.writeBuf.length - c.writeOffset)
        fileOffset := c.fileOffset + min (n - min n (c.writeBuf.length - c.writeOffset))
          (c.fileSize - c.fileOffset) } := by
      constructor
      · show c.writeOffset + _ ≤ c.writeBuf.length
        omega
      · show c.fileOffset + _ ≤ c.fileSize
        omega
    refine ⟨hbounds, ?_⟩
    rw [hbounds.unsent_eq, h.unsent_eq, List.drop_append, List.drop_drop, List.drop_drop,
      List.length_drop]
    congr 1
    · show c.writeBuf.drop (c.writeOffset + _) = c.writeBuf.drop _
      rw [List.drop_eq_nil_of_le (by omega), List.drop_eq_nil_of_le (by omega)]
    · congr 1
      show c.fileOffset + _ = _
      omega
  · -- all of the bytes are from the header
    have hbounds : InBounds { c with
        writeOffset := c.writeOffset + min n (c.writeBuf.length - c.writeOffset) } := by
      refine ⟨?_, hfile⟩
      show c.writeOffset + _ ≤ c.writeBuf.length
      omega
    have hle : n ≤ c.writeBuf.length - c.writeOffset := by
      by_contra hgt
      refine hmore ⟨by omega, ?_⟩
      cases hmapped : c.mappedFile with
      | none =>
        have hzero : c.fileSize = 0 := by rw [fileSize, hmapped]; rfl
        omega
      | some file => rfl
    refine ⟨hbounds, ?_⟩
    rw [hbounds.unsent_eq, h.unsent_eq, List.drop_append, List.drop_drop, List.length_drop,
      Nat.sub_eq_zero_of_le hle, List.drop_zero]
    congr 2
    show c.writeOffset + _ = _
    omega

end Connection

end MiniServer
