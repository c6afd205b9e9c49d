/-
# Readers that are polled

What a reader gives is a list of polls: some bytes, none of them at an end, or an
error; after the last poll it is at its end. A poll gives no more than it is asked
for, so the bytes of a piece that go beyond the request come with the next one.

`readExactFrom` fills a buffer poll by poll. What it took and what is still to
come are the bytes there were (`readExactFrom_bytes`), and it takes as many as the
buffer holds exactly when it does not fail (`readExactFrom_length`). How the bytes
are cut into pieces makes no difference: a reader of pieces only is read as the
list of its bytes is (`readExactFrom_eq_readExact`), and what is polled after the
pieces that fill a buffer is not looked at (`readExactFrom_append`).
-/
import Rsdb.Lib.ByteStream

namespace Rsdb

/-- What a reader gives, poll by poll. -/
abbrev Polls := List (Except IoErrorKind Bytes)

namespace Polls

/-- All bytes that come. -/
def bytes : Polls → Bytes
  | [] => []
  | .ok piece :: polls => piece ++ bytes polls
  | .error _ :: polls => bytes polls

/-- Pieces only: no error, and no end before the last piece. -/
def Pieces (polls : Polls) : Prop := ∀ poll ∈ polls, ∃ piece, poll = .ok piece ∧ piece ≠ []

/-- Up to `n` bytes, poll by poll: what was got, whether it is all, and what is
to come after it. -/
def take : Polls → ℕ → Bytes × Except IoErrorKind Unit × Polls
  | polls, 0 => ([], .ok (), polls)
  | [], _ + 1 => ([], .error .unexpectedEof, [])
  | .error err :: polls, _ + 1 => ([], .error err, polls)
  | .ok piece :: polls, n + 1 =>
    if piece = [] then ([], .error .unexpectedEof, polls)
    else if n + 1 < piece.length then (piece.take (n + 1), .ok (), .ok (piece.drop (n + 1)) :: polls)
    else
      let more := take polls (n + 1 - piece.length)
      (piece ++ more.1, more.2)

@[simp] theorem take_zero (polls : Polls) : polls.take 0 = ([], .ok (), polls) := by
  cases polls with
  | nil => rfl
  | cons poll polls => cases poll <;> rfl

/-- No byte is lost and none is made up. -/
theorem take_bytes : ∀ (polls : Polls) (n : ℕ), (polls.take n).1 ++ (polls.take n).2.2.bytes = polls.bytes
  | polls, 0 => by rw [take_zero, List.nil_append]
  | [], n + 1 => rfl
  | .error err :: polls, n + 1 => rfl
  | .ok piece :: polls, n + 1 => by
    unfold take
    by_cases hnil : piece = []
    · rw [if_pos hnil, bytes, hnil]
    · rw [if_neg hnil, bytes]
      by_cases hlong : n + 1 < piece.length
      · rw [if_pos hlong, bytes, ← List.append_assoc, List.take_append_drop]
      · rw [if_neg hlong]
        show piece ++ (take polls (n + 1 - piece.length)).1 ++ _ = _
        rw [List.append_assoc, take_bytes polls]

/-- All that was asked for, or less and an error. -/
theorem take_length : ∀ (polls : Polls) (n : ℕ), (polls.take n).1.length ≤ n ∧
    ((polls.take n).2.1 = .ok () ↔ (polls.take n).1.length = n)
  | polls, 0 => by simp
  | [], n + 1 => by simp [take]
  | .error err :: polls, n + 1 => by simp [take]
  | .ok piece :: polls, n + 1 => by
    unfold take
    by_cases hnil : piece = []
    · simp [hnil]
    · rw [if_neg hnil]
      by_cases hlong : n + 1 < piece.length
      · rw [if_pos hlong]
        simp only [List.length_take, true_iff]
        omega
      · obtain ⟨hle, hall⟩ := take_length polls (n + 1 - piece.length)
        rw [if_neg hlong]
        simp only [List.length_append, hall]
        omega

/-- Pieces are taken as the list of their bytes is. -/
theorem take_of_pieces : ∀ {polls : Polls} (n : ℕ), polls.Pieces →
    (polls.take n).1 = polls.bytes.take n ∧ (polls.take n).2.2.Pieces ∧
      (polls.bytes.length < n → (polls.take n).2.1 = .error .unexpectedEof)
  | polls, 0, h => by simpa using h
  | [], n + 1, h => ⟨rfl, h, fun _ => rfl⟩
  | .error err :: polls, n + 1, h => by
    obtain ⟨piece, herr, -⟩ := h _ List.mem_cons_self
    cases herr
  | .ok piece :: polls, n + 1, h => by
    obtain ⟨hpiece, hrest⟩ := List.forall_mem_cons.mp h
    obtain ⟨_, hok, hne⟩ := hpiece
    obtain rfl := Except.ok.inj hok
    unfold take
    rw [if_neg hne, bytes]
    by_cases hlong : n + 1 < piece.length
    · rw [if_pos hlong]
      refine ⟨(List.take_append_of_le_length (by omega)).symm, List.forall_mem_cons.mpr ⟨⟨_, rfl, ?_⟩, hrest⟩, ?_⟩
      · rw [ne_eq, List.drop_eq_nil_iff]
        omega
      · intro hshort
        rw [List.length_append] at hshort
        omega
    · obtain ⟨hgot, hpieces, hend⟩ := take_of_pieces (n + 1 - piece.length) hrest
      rw [if_neg hlong]
      refine ⟨?_, hpieces, fun hshort => hend ?_⟩
      · have hwhole : piece.take (n + 1) = piece := List.take_of_length_le (by omega)
        show piece ++ (take polls (n + 1 - piece.length)).1 = _
        rw [hgot, List.take_append, hwhole]
      · rw [List.length_append] at hshort
        omega

/-- What is taken of the pieces before a tail leaves the tail. -/
theorem take_append (tail : Polls) : ∀ {front : Polls} (n : ℕ), front.Pieces → n ≤ front.bytes.length →
    (front ++ tail).take n = ((front.take n).1, (front.take n).2.1, (front.take n).2.2 ++ tail)
  | front, 0, _, _ => by rw [take_zero, take_zero]
  | [], n + 1, _, hlen => by simp [bytes] at hlen
  | .error err :: front, n + 1, h, _ => by
    obtain ⟨piece, herr, -⟩ := h _ List.mem_cons_self
    cases herr
  | .ok piece :: front, n + 1, h, hlen => by
    obtain ⟨hpiece, hrest⟩ := List.forall_mem_cons.mp h
    obtain ⟨_, hok, hne⟩ := hpiece
    obtain rfl := Except.ok.inj hok
    rw [bytes, List.length_append] at hlen
    rw [List.cons_append, take, take, if_neg hne, if_neg hne]
    by_cases hlong : n + 1 < piece.length
    · rw [if_pos hlong, if_pos hlong, List.cons_append]
    · rw [if_neg hlong, if_neg hlong, take_append tail (n + 1 - piece.length) hrest (by omega)]

end Polls

/-- `read_exact` into `buf`: whether it was filled, what is to come, and `buf`
after it. The bytes that came before an error are in it all the same. -/
def readExactFrom (reader : Polls) (buf : Bytes) : Except IoErrorKind Unit × Polls × Bytes :=
  let got := reader.take buf.length
  (got.2.1, got.2.2, got.1 ++ buf.drop got.1.length)

@[simp] theorem readExactFrom_length (reader : Polls) (buf : Bytes) : (readExactFrom reader buf).2.2.length = buf.length := by
  have hle := (reader.take_length buf.length).1
  simp only [readExactFrom, List.length_append, List.length_drop]
  omega

/-- A buffer that is filled holds the next bytes of the reader. -/
theorem readExactFrom_of_ok {reader : Polls} {buf : Bytes} (h : (readExactFrom reader buf).1 = .ok ()) :
    reader.bytes = (readExactFrom reader buf).2.2 ++ (readExactFrom reader buf).2.1.bytes := by
  have hall : (reader.take buf.length).1.length = buf.length := (reader.take_length buf.length).2.mp h
  simp only [readExactFrom]
  rw [hall, List.drop_length, List.append_nil, reader.take_bytes]

/-- How the bytes are cut into pieces makes no difference. -/
theorem readExactFrom_eq_readExact {reader : Polls} (h : reader.Pieces) (buf : Bytes) :
    (readExactFrom reader buf).1 = (if (readExact reader.bytes buf).1 then .ok () else .error .unexpectedEof) ∧
      (readExactFrom reader buf).2.1.Pieces ∧
      (readExactFrom reader buf).2.1.bytes = (readExact reader.bytes buf).2.1 ∧
      (readExactFrom reader buf).2.2 = (readExact reader.bytes buf).2.2 := by
  obtain ⟨hgot, hpieces, hend⟩ := Polls.take_of_pieces buf.length h
  have hbytes := reader.take_bytes buf.length
  have hall := (reader.take_length buf.length).2
  rw [hgot] at hbytes hall
  unfold readExactFrom readExact
  by_cases hfull : buf.length ≤ reader.bytes.length
  · have hrest : (reader.take buf.length).2.2.bytes = reader.bytes.drop buf.length :=
      List.append_cancel_left (hbytes.trans (List.take_append_drop buf.length reader.bytes).symm)
    have hlen : (reader.bytes.take buf.length).length = buf.length := by
      rw [List.length_take]
      omega
    simp only [hfull, ↓reduceIte, hall.mpr hlen, hpieces, hrest, hgot, hlen, List.drop_length, List.append_nil, and_self]
  · have hshort : reader.bytes.take buf.length = reader.bytes := List.take_of_length_le (by omega)
    have hrest : (reader.take buf.length).2.2.bytes = [] := by
      rw [hshort] at hbytes
      simpa using hbytes
    simp only [hfull, ↓reduceIte, hend (by omega), hpieces, hrest, hgot, hshort, and_self, Bool.false_eq_true]

/-- A buffer is filled from the pieces that have enough for it, whatever is polled after
them. -/
theorem readExactFrom_append {front : Polls} (h : front.Pieces) (tail : Polls) {data rest buf : Bytes}
    (hlen : buf.length = data.length) (hbytes : front.bytes = data ++ rest) :
    ∃ front' : Polls, front'.Pieces ∧ front'.bytes = rest ∧
      readExactFrom (front ++ tail) buf = (.ok (), front' ++ tail, data) := by
  obtain ⟨hok, hpieces, hrest, hbuf⟩ := readExactFrom_eq_readExact h buf
  rw [hbytes, readExact_append rest hlen] at hok hrest hbuf
  have henough : buf.length ≤ front.bytes.length := by
    rw [hbytes, List.length_append, hlen]
    omega
  refine ⟨(readExactFrom front buf).2.1, hpieces, hrest, ?_⟩
  have hdata : (readExactFrom front buf).2.2 = data := hbuf
  have hall : (readExactFrom front buf).1 = .ok () := hok
  rw [← hdata, ← hall, readExactFrom, Polls.take_append tail buf.length h henough]
  rfl

end Rsdb
