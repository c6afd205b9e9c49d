/-
# A response after a part of a frame

A writer that is stopped inside a frame and then sends a response leaves a part of
one frame before another. What the reader takes for the first frame has the kind
of the frame that was begun, if it is read at all (`Cut.kind`), and takes the head
of the response with it (`Cut.rest`); no frame starts in what is left then, which
holds no `R` (`unframed_of_notMem`).
-/
import Rsdb.Proto.Frame
import Mathlib.Tactic.IntervalCases

namespace Rsdb

/-- What a read that succeeds has read. -/
structure FrameRead (input : Bytes) (header : FrameHeader) (rest payload : Bytes) : Prop where
  magic : slice input 0 4 = magic
  kind : FrameKind.fromU16 (UInt16.ofNat (leNat (slice input 6 8))) = .ok header.kind
  payloadLen : header.payloadLen = UInt32.ofNat (leNat (slice input 16 20))
  fits : headerLen + header.payloadLen.toNat ≤ input.length
  payload : payload = (input.drop headerLen).take header.payloadLen.toNat
  rest : rest = input.drop (headerLen + header.payloadLen.toNat)

theorem slice_take (input : Bytes) {lo hi n : ℕ} (h : hi ≤ n) : slice (input.take n) lo hi = slice input lo hi := by
  unfold slice
  rw [List.drop_take, List.take_take, Nat.min_eq_left (by omega)]

theorem decode_eq_ok {bytes : Bytes} {hlen : bytes.length = headerLen} {header : FrameHeader}
    (h : FrameHeader.decode ⟨bytes, hlen⟩ = .ok header) :
    slice bytes 0 4 = magic ∧ FrameKind.fromU16 (UInt16.ofNat (leNat (slice bytes 6 8))) = .ok header.kind ∧
      header.payloadLen = UInt32.ofNat (leNat (slice bytes 16 20)) := by
  unfold FrameHeader.decode at h
  split at h
  · cases h
  · rename_i hmagic
    split at h
    · cases h
    · rename_i kind hkind
      simp only at h
      split at h
      · cases h
      · split at h
        · cases h
        · obtain rfl := Except.ok.inj h
          exact ⟨not_not.mp hmagic, hkind, rfl⟩

theorem frameRead_of_readFrameInto {input buf : Bytes} {header : FrameHeader} {rest payload : Bytes}
    (h : readFrameInto input buf = (.ok header, rest, payload)) : FrameRead input header rest payload := by
  unfold readFrameInto at h
  by_cases hhead : (readExact input (List.replicate headerLen 0)).1 = true
  · have hlen : headerLen ≤ input.length := by simpa using readExact_fst.mp hhead
    have hread : readExact input (List.replicate headerLen 0) = (true, input.drop headerLen, input.take headerLen) := by
      unfold readExact
      rw [List.length_replicate, if_pos hlen]
    simp only [hread, ↓reduceIte] at h
    cases hdec : FrameHeader.decode ⟨input.take headerLen, by rw [List.length_take]; omega⟩ with
    | error err => simp [hdec] at h
    | ok hd =>
      simp only [hdec] at h
      by_cases hbody : (readExact (input.drop headerLen) (resize buf hd.payloadLen.toNat)).1 = true
      · have hfits := readExact_fst.mp hbody
        rw [resize_length, List.length_drop] at hfits
        have hreadbody : readExact (input.drop headerLen) (resize buf hd.payloadLen.toNat) =
            (true, (input.drop headerLen).drop hd.payloadLen.toNat, (input.drop headerLen).take hd.payloadLen.toNat) := by
          unfold readExact
          rw [resize_length, if_pos (by rw [List.length_drop]; exact hfits)]
        simp only [hreadbody, ↓reduceIte] at h
        obtain ⟨hheader, hleft⟩ := Prod.mk.inj h
        obtain ⟨hrest, hpayload⟩ := Prod.mk.inj hleft
        obtain rfl := Except.ok.inj hheader
        obtain ⟨hmagic, hkind, hpayloadLen⟩ := decode_eq_ok hdec
        rw [slice_take input (by decide)] at hmagic hkind hpayloadLen
        exact ⟨hmagic, hkind, hpayloadLen, by omega, hpayload.symm, by rw [← hrest, List.drop_drop]⟩
      · simp [hbody] at h
  · simp [hhead] at h

/-! ### Bytes in which no frame starts -/

/-- Nothing that starts like this is read as a frame. -/
def Unframed (input : Bytes) : Prop :=
  ∀ buf header rest payload, readFrameInto input buf ≠ (.ok header, rest, payload)

theorem unframed_of_notMem {input : Bytes} (h : 82 ∉ input) : Unframed input := by
  intro buf header rest payload hread
  have hmagic := (frameRead_of_readFrameInto hread).magic
  have hmem : (82 : UInt8) ∈ slice input 0 4 := by rw [hmagic]; decide
  exact h (List.mem_of_mem_drop (List.mem_of_mem_take hmem))

/-- The two bytes of a frame kind. -/
theorem kind_bytes {a b : UInt8} {kind : FrameKind}
    (h : FrameKind.fromU16 (UInt16.ofNat (leNat [a, b])) = .ok kind) : a.toNat = kind.toU16.toNat ∧ b = 0 := by
  have hvalue : UInt16.ofNat (leNat [a, b]) = kind.toU16 := by
    unfold FrameKind.fromU16 at h
    split at h
    · rename_i hv
      obtain rfl := Except.ok.inj h
      exact hv
    · split at h
      · rename_i hv
        obtain rfl := Except.ok.inj h
        exact hv
      · split at h
        · rename_i hv
          obtain rfl := Except.ok.inj h
          exact hv
        · split at h
          · rename_i hv
            obtain rfl := Except.ok.inj h
            exact hv
          · cases h
  have hnat := congrArg UInt16.toNat hvalue
  have hle : kind.toU16.toNat ≤ 4 := by cases kind <;> decide
  have ha := a.toNat_lt
  have hb := b.toNat_lt
  rw [leNat_cons, leNat_cons, leNat_nil, UInt16.toNat_ofNat_of_lt' (by unfold UInt16.size; omega)] at hnat
  have hzero : b.toNat = 0 := by omega
  exact ⟨by omega, UInt8.toNat_inj.mp hzero⟩

/-! ### A response behind a part of a frame -/

/-- The bytes of a short response to the client's request: the header, with the
length in one byte, and the text. -/
def responseBytes (length : UInt8) (text : Bytes) : Bytes :=
  [82, 83, 68, 66, 2, 0, 2, 0, 0, 0, 0, 0, 1, 0, 0, 0, length, 0, 0, 0, 0, 0, 0, 0] ++ text

section

variable {kind length : UInt8} {more text : Bytes} {k : ℕ}

/-- The part ends before the kind is complete. -/
theorem unframed_cut_short (hpos : 0 < k) (hk : k < 8) :
    Unframed (([82, 83, 68, 66, 2, 0, kind, 0] ++ more).take k ++ responseBytes length text) := by
  intro buf header rest payload hread
  have hread := frameRead_of_readFrameInto hread
  have hmagic := hread.magic
  have hkind := hread.kind
  clear hread
  have hshort : ∀ a b : UInt8, slice (([82, 83, 68, 66, 2, 0, kind, 0] ++ more).take k ++ responseBytes length text) 6 8 =
      [a, b] → b = 0 ∧ a.toNat ≤ 4 := by
    intro a b hslice
    rw [hslice] at hkind
    obtain ⟨ha, hb⟩ := kind_bytes hkind
    refine ⟨hb, ha ▸ ?_⟩
    cases header.kind <;> decide
  interval_cases k
  · exact absurd hmagic (by simp [responseBytes, slice, magic])
  · exact absurd hmagic (by simp [responseBytes, slice, magic])
  · exact absurd hmagic (by simp [responseBytes, slice, magic])
  · exact absurd (hshort 68 66 rfl).1 (by decide)
  · exact absurd (hshort 83 68 rfl).1 (by decide)
  · exact absurd (hshort 82 83 rfl).1 (by decide)
  · exact absurd (hshort kind 82 rfl).1 (by decide)

end

section

variable {f : Frame} {tail buf rest payload : Bytes} {header : FrameHeader} {k : ℕ}

theorem slice_of_take {bytes : Bytes} {lo hi : ℕ} (hhi : hi ≤ k) (hk : k ≤ bytes.length) :
    slice (bytes.take k ++ tail) lo hi = slice bytes lo hi := by
  unfold slice
  by_cases hlo : lo ≤ hi
  · rw [List.drop_append_of_le_length (by rw [List.length_take]; omega), List.drop_take,
      List.take_append_of_le_length (by rw [List.length_take, List.length_drop]; omega), List.take_take,
      Nat.min_eq_left (by omega)]
  · rw [Nat.sub_eq_zero_of_le (by omega), List.take_zero, List.take_zero]

theorem slice_frame_kind (f : Frame) : slice f.bytes 6 8 = leBytes 2 f.header.kind.toU16.toNat := rfl

theorem slice_frame_payloadLen (f : Frame) : slice f.bytes 16 20 = leBytes 4 f.header.payloadLen.toNat := rfl

/-- The part holds the kind: what is read has that kind. -/
theorem cut_kind (hk : 8 ≤ k) (hlen : k ≤ f.bytes.length)
    (h : readFrameInto (f.bytes.take k ++ tail) buf = (.ok header, rest, payload)) : header.kind = f.header.kind := by
  have hkind := (frameRead_of_readFrameInto h).kind
  rw [slice_of_take hk hlen, slice_frame_kind, FrameHeader.u16_round_trip, FrameKind.fromU16_toU16] at hkind
  exact (Except.ok.inj hkind).symm

/-- The part holds the length: the frame that is read is as long as the one begun. -/
theorem cut_payloadLen (hk : 20 ≤ k) (hlen : k ≤ f.bytes.length)
    (h : readFrameInto (f.bytes.take k ++ tail) buf = (.ok header, rest, payload)) :
    header.payloadLen = f.header.payloadLen := by
  have hpayloadLen := (frameRead_of_readFrameInto h).payloadLen
  rwa [slice_of_take hk hlen, slice_frame_payloadLen, FrameHeader.u32_round_trip] at hpayloadLen

/-- More than the part is read. -/
theorem cut_rest (hvalid : f.Valid) (hlen : k < f.bytes.length)
    (h : readFrameInto (f.bytes.take k ++ tail) buf = (.ok header, rest, payload)) : ∃ m, rest = tail.drop (m + 1) := by
  have hread := frameRead_of_readFrameInto h
  have hlong : k < headerLen + header.payloadLen.toNat := by
    by_cases hk : 20 ≤ k
    · rw [cut_payloadLen hk hlen.le h, hvalid.payloadLen, ← f.bytes_length]
      exact hlen
    · unfold headerLen
      omega
  refine ⟨headerLen + header.payloadLen.toNat - k - 1, ?_⟩
  have htake : (f.bytes.take k).length = k := by rw [List.length_take]; omega
  rw [hread.rest, List.drop_append, htake, List.drop_eq_nil_of_le (by rw [htake]; omega), List.nil_append]
  congr 1
  omega

/-- The part holds the header: the payload is what was begun and the head of the tail. -/
theorem cut_payload (hvalid : f.Valid) (hk : headerLen ≤ k) (hlen : k < f.bytes.length)
    (h : readFrameInto (f.bytes.take k ++ tail) buf = (.ok header, rest, payload)) :
    ∃ n, payload = f.payload.take (k - headerLen) ++ tail.take (n + 1) ∧ n + 1 ≤ tail.length := by
  have hread := frameRead_of_readFrameInto h
  have hheader : headerLen = 24 := rfl
  have hbytes := f.bytes_length
  have hpayloadLen : header.payloadLen.toNat = f.payload.length := by
    rw [cut_payloadLen (by omega) hlen.le h, hvalid.payloadLen]
  have hdrop : (f.bytes.take k ++ tail).drop headerLen = f.payload.take (k - headerLen) ++ tail := by
    rw [List.drop_append_of_le_length (by rw [List.length_take]; omega), List.drop_take, Frame.bytes,
      List.drop_left' f.header.encode_length]
  have htake : (f.payload.take (k - headerLen)).length = k - headerLen := by rw [List.length_take]; omega
  have hfits := hread.fits
  rw [List.length_append, List.length_take, hpayloadLen] at hfits
  refine ⟨f.payload.length - (k - headerLen) - 1, ?_, by omega⟩
  rw [hread.payload, hdrop, hpayloadLen, List.take_append, List.take_of_length_le (by rw [htake]; omega), htake]
  congr 2
  omega

/-- The part of a response ends inside its header: the payload that is read is
empty, or it begins with a byte of the header of the next one. -/
theorem cut_response_payload {length length' : UInt8} {text text' : Bytes} (hk : 8 ≤ k) (hheader : k < headerLen)
    (h : readFrameInto ((responseBytes length text).take k ++ responseBytes length' text') buf =
      (.ok header, rest, payload)) : payload = [] ∨ ∃ b ∈ [83, 68, 66, 2, 0, 1], payload.head? = some b := by
  have hread := frameRead_of_readFrameInto h
  have hpayload := hread.payload
  have hpayloadLen := hread.payloadLen
  unfold headerLen at hheader hpayload
  have hhead : payload = [] ∨ payload.head? =
      (((responseBytes length text).take k ++ responseBytes length' text').drop 24).head? := by
    by_cases hzero : header.payloadLen.toNat = 0
    · exact Or.inl (by rw [hpayload, hzero, List.take_zero])
    · exact Or.inr (by rw [hpayload, List.head?_take, if_neg hzero])
  interval_cases k
  · left
    have hnone : header.payloadLen = 0 := hpayloadLen
    rw [hpayload, hnone]
    rfl
  all_goals exact hhead.imp_right fun hhead => ⟨_, by decide, hhead⟩

end

end Rsdb
