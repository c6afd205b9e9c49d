/-
# I/O errors, byte sinks, a buffered writer, and exact reads

A sink takes whole writes (`AsyncWrite`); the plainest one is the list of bytes
it has taken. `BufWriter` puts a buffer before a sink: a write is held back
until the buffer would exceed its capacity or is flushed, a write as large as
the capacity goes straight through, and what is held back when the writer is
dropped is lost. Over a byte list, what reached the sink followed by what is
held back is always everything that was written (`written_writeAll`,
`written_flush`), so a flush before the drop loses nothing (`flush_inner`).

`readExact` fills a buffer from the bytes that are left of a stream that then
ends.
-/
import Mathlib.Data.List.Basic

namespace Rsdb

/-- Bytes in the order they come. -/
abbrev Bytes := List UInt8

/-- The kinds of I/O error, as `std::io::ErrorKind` names them. -/
inductive IoErrorKind where
  | notFound | permissionDenied | alreadyExists | notADirectory | isADirectory | directoryNotEmpty
  | filesystemLoop | resourceBusy | invalidInput | storageFull | unexpectedEof | connectionReset | brokenPipe | other
  deriving DecidableEq

/-- A sink whose writes succeed. -/
class AsyncWrite (W : Type) where
  /-- One `write_all`. -/
  writeAll : W → Bytes → W

export AsyncWrite (writeAll)

instance : AsyncWrite Bytes := ⟨fun sent data => sent ++ data⟩

@[simp] theorem writeAll_bytes (sent data : Bytes) : writeAll sent data = sent ++ data := rfl

/-! ### The buffered writer -/

/-- A writer that holds back up to `capacity` bytes before its sink. -/
structure BufWriter (W : Type) where
  inner : W
  buf : Bytes
  capacity : ℕ

namespace BufWriter

variable {W : Type} [AsyncWrite W]

/-- A writer with nothing in its buffer. -/
def withCapacity (capacity : ℕ) (inner : W) : BufWriter W := ⟨inner, [], capacity⟩

/-- The buffered bytes go to the sink. -/
def flush (w : BufWriter W) : BufWriter W :=
  { w with inner := writeAll w.inner w.buf, buf := [] }

/-- The writer before a write of `n` bytes: flushed if they would not fit. -/
def makeRoom (w : BufWriter W) (n : ℕ) : BufWriter W :=
  if w.buf.length + n > w.capacity then w.flush else w

instance : AsyncWrite (BufWriter W) where
  writeAll w data :=
    let w := w.makeRoom data.length
    if data.length ≥ w.capacity then { w with inner := writeAll w.inner data }
    else { w with buf := w.buf ++ data }

@[simp] theorem makeRoom_capacity (w : BufWriter W) (n : ℕ) : (w.makeRoom n).capacity = w.capacity := by
  unfold makeRoom
  split <;> rfl

theorem writeAll_of_lt {w : BufWriter W} {data : Bytes} (h : data.length < w.capacity) :
    writeAll w data =
      { w.makeRoom data.length with buf := (w.makeRoom data.length).buf ++ data } := by
  have hc : ¬ data.length ≥ (w.makeRoom data.length).capacity := by
    rw [makeRoom_capacity]
    omega
  exact if_neg hc

@[simp] theorem writeAll_capacity (w : BufWriter W) (data : Bytes) :
    (writeAll w data).capacity = w.capacity := by
  change (if data.length ≥ (w.makeRoom data.length).capacity then _ else _ : BufWriter W).capacity = _
  split <;> simp

/-- Everything written so far: what has left, then what is held back. -/
def written (w : BufWriter Bytes) : Bytes := w.inner ++ w.buf

@[simp] theorem written_withCapacity (capacity : ℕ) (inner : Bytes) :
    (withCapacity capacity inner).written = inner := by simp [written, withCapacity]

@[simp] theorem written_flush (w : BufWriter Bytes) : w.flush.written = w.written := by
  simp [written, flush]

@[simp] theorem flush_inner (w : BufWriter Bytes) : w.flush.inner = w.written := rfl

@[simp] theorem written_makeRoom (w : BufWriter Bytes) (n : ℕ) : (w.makeRoom n).written = w.written := by
  unfold makeRoom
  split <;> simp

theorem makeRoom_fits (w : BufWriter Bytes) (n : ℕ) :
    (w.makeRoom n).buf = [] ∨ (w.makeRoom n).buf.length + n ≤ w.capacity := by
  unfold makeRoom
  split
  · exact Or.inl rfl
  · right; omega

theorem written_writeAll (w : BufWriter Bytes) (data : Bytes) :
    (writeAll w data).written = w.written ++ data := by
  have hm := written_makeRoom w data.length
  change (if data.length ≥ (w.makeRoom data.length).capacity then _ else _ : BufWriter Bytes).written = _
  split
  · rename_i hbig
    rw [makeRoom_capacity] at hbig
    have hbuf : (w.makeRoom data.length).buf = [] ∨ data = [] := by
      rcases makeRoom_fits w data.length with h | h
      · exact Or.inl h
      · rcases List.eq_nil_or_concat (w.makeRoom data.length).buf with h0 | ⟨l, b, hl⟩
        · exact Or.inl h0
        · rw [hl] at h
          simp only [List.length_concat] at h
          omega
    rcases hbuf with hb | rfl
    · simp only [written, hb, List.append_nil, writeAll_bytes] at hm ⊢
      rw [hm]
    · simpa [written] using hm
  · rw [written, ← List.append_assoc, ← hm]
    rfl

/-- A small write either fits, or takes the place of what was held back. -/
theorem writeAll_small (w : BufWriter Bytes) {data : Bytes} (h : data.length < w.capacity) :
    writeAll w data =
      if w.buf.length + data.length > w.capacity then { w with inner := w.written, buf := data }
      else { w with buf := w.buf ++ data } := by
  rw [writeAll_of_lt h, makeRoom]
  split <;> rfl

end BufWriter

/-! ### Exact reads -/

/-- `read_exact` into `buf` from the bytes left of a stream: whether `buf` was
filled, what is left, and `buf` after it. At the end of the stream the bytes
there were are in the buffer all the same. -/
def readExact (input buf : Bytes) : Bool × Bytes × Bytes :=
  if buf.length ≤ input.length then (true, input.drop buf.length, input.take buf.length)
  else (false, [], input ++ buf.drop input.length)

/-- `Vec::resize` with zero bytes. -/
def resize (buf : Bytes) (n : ℕ) : Bytes := buf.take n ++ List.replicate (n - buf.length) 0

@[simp] theorem resize_length (buf : Bytes) (n : ℕ) : (resize buf n).length = n := by
  simp [resize]
  omega

@[simp] theorem readExact_length (input buf : Bytes) : (readExact input buf).2.2.length = buf.length := by
  unfold readExact
  split
  · simp [*]
  · simp
    omega

theorem readExact_append {data buf : Bytes} (rest : Bytes) (h : buf.length = data.length) :
    readExact (data ++ rest) buf = (true, rest, data) := by
  simp [readExact, h]

theorem readExact_short {input buf : Bytes} (h : input.length < buf.length) :
    readExact input buf = (false, [], input ++ buf.drop input.length) := by
  simp [readExact, h]

theorem readExact_fst {input buf : Bytes} : (readExact input buf).1 = true ↔ buf.length ≤ input.length := by
  unfold readExact
  split <;> simp [*]

/-- A buffer that is filled shows nothing of what it held. -/
theorem readExact_of_length {input buf buf' : Bytes} (hlen : buf'.length = buf.length)
    (h : (readExact input buf).1 = true) : readExact input buf' = readExact input buf := by
  rw [readExact_fst] at h
  simp [readExact, hlen, h]

/-- A list is cut in one way only at the last `x`. -/
theorem append_cons_inj_of_last {α : Type} {x : α} {a b p q : List α} (hp : x ∉ p) (hq : x ∉ q)
    (h : a ++ x :: p = b ++ x :: q) : a = b ∧ p = q := by
  rcases List.append_eq_append_iff.mp h with ⟨c, rfl, hc⟩ | ⟨c, rfl, hc⟩
  · cases c with
    | nil => exact ⟨by rw [List.append_nil], by simpa using hc⟩
    | cons y c =>
      rw [List.cons_append, List.cons.injEq] at hc
      exact absurd (hc.2 ▸ List.mem_append_right c List.mem_cons_self) hp
  · cases c with
    | nil => exact ⟨by rw [List.append_nil], by simpa using hc.symm⟩
    | cons y c =>
      rw [List.cons_append, List.cons.injEq] at hc
      exact absurd (hc.2 ▸ List.mem_append_right c List.mem_cons_self) hq

end Rsdb
