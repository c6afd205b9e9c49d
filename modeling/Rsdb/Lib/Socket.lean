/-
# Writing to a socket that takes what it likes

A session is a program whose calls are writes to a socket, which takes at least
one byte of each and maybe not all, and other calls. `sendAll` repeats a write
until all is taken; `bufWrite`, `bufWriteAll` and `bufFlush` go through a buffer
that is flushed when it would overflow and passed by for what is as large as it.

Whatever the socket takes and wherever the session stops, what it has taken is a
prefix of what was to be sent (`Emits`), and when it returns, what it has taken
and what the buffer still holds are all of it.
-/
import Rsdb.Lib.ByteStream
import Rsdb.Lib.Execution

namespace Rsdb

/-- A write to the connection, or another call. -/
inductive SocketCall (E : Type) where
  | write (data : Bytes)
  | other (e : E)

variable {E : Type} {B : E → Type} {ε α β : Type}

/-- The answer to a write is the number of bytes taken. -/
abbrev SocketCall.Answer (B : E → Type) : SocketCall E → Type
  | write data => { n : ℕ // 0 < n ∧ n ≤ data.length }
  | other e => B e

/-- A program that writes to a connection. -/
abbrev Session (B : E → Type) (ε α : Type) := Prog (SocketCall E) (SocketCall.Answer B) ε α

namespace Session

open Prog

/-- Its calls with their answers. -/
abbrev Trace (B : E → Type) := Prog.Trace (SocketCall.Answer B)

/-- The bytes the socket has taken. -/
def taken : Trace B → Bytes
  | [] => []
  | ⟨.write data, n⟩ :: trace => data.take n.1 ++ taken trace
  | ⟨.other _, _⟩ :: trace => taken trace

/-- The other calls, with their answers. -/
def asked : Trace B → List ((e : E) × B e)
  | [] => []
  | ⟨.write _, _⟩ :: trace => asked trace
  | ⟨.other e, r⟩ :: trace => ⟨e, r⟩ :: asked trace

theorem taken_append : ∀ a b : Trace B, taken (a ++ b) = taken a ++ taken b
  | [], _ => rfl
  | ⟨.write _, _⟩ :: a, b => by rw [List.cons_append, taken, taken, taken_append a, List.append_assoc]
  | ⟨.other _, _⟩ :: a, b => taken_append a b

theorem asked_append : ∀ a b : Trace B, asked (a ++ b) = asked a ++ asked b
  | [], _ => rfl
  | ⟨.write _, _⟩ :: a, b => asked_append a b
  | ⟨.other _, _⟩ :: a, b => congrArg (_ :: ·) (asked_append a b)

/-! ### The writers -/

/-- Writes until all of `data` is taken; `fuel` counts bytes. -/
def sendUpTo : ℕ → Bytes → Session B ε Unit
  | 0, _ => .pure ()
  | fuel + 1, data =>
    if data = [] then .pure () else .call (.write data) fun n => sendUpTo fuel (data.drop n.1)

/-- `write_all` on the socket. -/
def sendAll (data : Bytes) : Session B ε Unit := sendUpTo data.length data

/-- `flush` of a buffered writer that holds back `buf`. -/
def bufFlush (buf : Bytes) : Session B ε Bytes := sendAll buf >>= fun _ => .pure []

/-- Before a write of `n` bytes the buffer is flushed if they would not fit. -/
def bufMakeRoom (capacity : ℕ) (buf : Bytes) (n : ℕ) : Session B ε Bytes :=
  if buf.length + n > capacity then bufFlush buf else .pure buf

/-- One write to a buffered writer: the buffer after it, and how much it took. -/
def bufWrite (capacity : ℕ) (buf data : Bytes) : Session B ε (Bytes × ℕ) :=
  bufMakeRoom capacity buf data.length >>= fun buf =>
    if data.length ≥ capacity then .call (.write data) fun n => .pure (buf, n.1)
    else .pure (buf ++ data, data.length)

/-- `write_all` on a buffered writer; `fuel` counts bytes. -/
def bufWriteUpTo (capacity : ℕ) : ℕ → Bytes → Bytes → Session B ε Bytes
  | 0, buf, _ => .pure buf
  | fuel + 1, buf, data =>
    if data = [] then .pure buf
    else bufWrite capacity buf data >>= fun r => bufWriteUpTo capacity fuel r.1 (data.drop r.2)

/-- All of it goes to the buffer, which is written out when it is full. -/
def bufWriteAll (capacity : ℕ) (buf data : Bytes) : Session B ε Bytes :=
  bufWriteUpTo capacity data.length buf data

/-! ### What they send -/

/-- All of `data` is to be taken, and no other call is made. -/
def Sends (data : Bytes) (trace : Trace B) : Stop ε Unit → Prop
  | .waiting => asked trace = [] ∧ taken trace <+: data
  | .returned () => asked trace = [] ∧ taken trace = data
  | .failed _ => False

theorem sendUpTo_sends : ∀ {fuel : ℕ} {data : Bytes}, data.length ≤ fuel →
    Always (Sends data) (sendUpTo fuel data : Session B ε Unit)
  | 0, data, h => by
    obtain rfl : data = [] := List.eq_nil_of_length_eq_zero (by omega)
    exact always_pure ⟨rfl, rfl⟩
  | fuel + 1, data, h => by
    rw [sendUpTo]
    split
    · rename_i hnil
      exact always_pure ⟨rfl, hnil.symm⟩
    · refine always_call ⟨rfl, List.nil_prefix⟩ fun n => ?_
      have hshort : (data.drop n.1).length ≤ fuel := by
        have hpos := n.2.1
        rw [List.length_drop]
        omega
      have hsplit : data = data.take n.1 ++ data.drop n.1 := (List.take_append_drop n.1 data).symm
      refine (sendUpTo_sends hshort).mono fun trace stop hsends => ?_
      match stop, hsends with
      | .waiting, ⟨hasked, htaken⟩ =>
        refine ⟨hasked, ?_⟩
        have hbegins : data.take n.1 ++ taken trace <+: data.take n.1 ++ data.drop n.1 :=
          (List.prefix_append_right_inj _).mpr htaken
        rwa [← hsplit] at hbegins
      | .returned (), ⟨hasked, htaken⟩ =>
        refine ⟨hasked, ?_⟩
        rw [taken, htaken]
        exact hsplit.symm

theorem sendAll_sends (data : Bytes) : Always (Sends data) (sendAll data : Session B ε Unit) :=
  sendUpTo_sends (Nat.le_refl _)

/-- All of `total` is to be taken or held back in the buffer that is returned,
and no other call is made. -/
def Emits (total : Bytes) (trace : Trace B) : Stop ε Bytes → Prop
  | .waiting => asked trace = [] ∧ taken trace <+: total
  | .returned buf => asked trace = [] ∧ taken trace ++ buf = total
  | .failed _ => False

theorem emits_pure (buf : Bytes) : Always (Emits buf) (.pure buf : Session B ε Bytes) := always_pure ⟨rfl, rfl⟩

/-- What is sent after `first`. -/
theorem Emits.after {total rest : Bytes} {first trace : Trace B} {stop : Stop ε Bytes} (h : Emits rest trace stop)
    (hasked : asked first = []) (htotal : total = taken first ++ rest) : Emits total (first ++ trace) stop := by
  match stop, h with
  | .waiting, ⟨hasked', htaken⟩ =>
    refine ⟨by rw [asked_append, hasked, hasked']; rfl, ?_⟩
    rw [taken_append, htotal]
    exact (List.prefix_append_right_inj _).mpr htaken
  | .returned buf, ⟨hasked', htaken⟩ =>
    refine ⟨by rw [asked_append, hasked, hasked']; rfl, ?_⟩
    rw [taken_append, List.append_assoc, htaken, htotal]

/-- One sender after the other. -/
theorem Emits.bind {total more : Bytes} {x : Session B ε Bytes} {f : Bytes → Session B ε Bytes}
    (hx : Always (Emits total) x) (hf : ∀ buf, Always (Emits (buf ++ more)) (f buf)) :
    Always (Emits (total ++ more)) (x >>= f) := by
  refine always_bind hx (fun trace h => ⟨h.1, h.2.trans (List.prefix_append _ _)⟩) (fun _ _ h => h.elim) ?_
  intro first buf hfirst
  obtain ⟨hasked, htaken⟩ := hfirst
  have htotal : total ++ more = taken first ++ (buf ++ more) := by rw [← htaken, List.append_assoc]
  exact (hf buf).mono fun rest stop h => h.after hasked htotal

/-- The buffer is empty after a flush. -/
theorem bufFlush_emits (buf : Bytes) :
    Always (fun trace stop => Emits buf trace stop ∧ ∀ b, stop = .returned b → b = [])
      (bufFlush buf : Session B ε Bytes) := by
  refine always_bind (sendAll_sends buf) (fun _ h => ⟨h, fun _ hb => by cases hb⟩) (fun _ _ h => h.elim) ?_
  rintro first ⟨⟩ ⟨hasked, htaken⟩
  refine always_pure ⟨⟨?_, ?_⟩, fun b hb => (Stop.returned.inj hb).symm⟩
  · rw [List.append_nil, hasked]
  · rw [List.append_nil, List.append_nil, htaken]

/-- One write, of some of `data`: the returned buffer is what is held back after it. -/
def Writes (buf data : Bytes) (trace : Trace B) : Stop ε (Bytes × ℕ) → Prop
  | .waiting => asked trace = [] ∧ taken trace <+: buf ++ data
  | .returned (buf', n) => asked trace = [] ∧ 0 < n ∧ taken trace ++ buf' = buf ++ data.take n
  | .failed _ => False

theorem bufMakeRoom_emits (capacity : ℕ) (buf : Bytes) (n : ℕ) :
    Always (fun trace stop => Emits buf trace stop ∧ ∀ b, stop = .returned b → b = [] ∨ b.length + n ≤ capacity)
      (bufMakeRoom capacity buf n : Session B ε Bytes) := by
  rw [bufMakeRoom]
  split
  · exact (bufFlush_emits buf).mono fun trace stop h => ⟨h.1, fun b hb => Or.inl (h.2 b hb)⟩
  · rename_i hfits
    refine always_pure ⟨⟨rfl, rfl⟩, fun b hb => Or.inr ?_⟩
    obtain rfl := Stop.returned.inj hb
    omega

theorem bufWrite_writes (capacity : ℕ) (buf : Bytes) {data : Bytes} (hne : data ≠ []) :
    Always (Writes buf data) (bufWrite capacity buf data : Session B ε (Bytes × ℕ)) := by
  have hpos : 0 < data.length := List.length_pos_of_ne_nil hne
  refine always_bind (bufMakeRoom_emits capacity buf data.length)
    (fun trace h => ⟨h.1.1, h.1.2.trans (List.prefix_append _ _)⟩) (fun _ _ h => h.1.elim) ?_
  rintro first b ⟨⟨hasked, htaken⟩, hroom⟩
  split
  · rename_i hbig
    -- what is as large as the buffer goes straight out, and the buffer is empty before it
    have hnil : b = [] := by
      rcases hroom b rfl with h | h
      · exact h
      · exact List.eq_nil_of_length_eq_zero (by omega)
    rw [hnil, List.append_nil] at htaken
    refine always_call ⟨by rw [List.append_nil, hasked], ?_⟩ fun n => always_pure ⟨?_, n.2.1, ?_⟩
    · rw [List.append_nil, htaken]
      exact List.prefix_append _ _
    · rw [asked_append, hasked]
      rfl
    · rw [taken_append, htaken, hnil, List.append_nil]
      simp [taken]
  · refine always_pure ⟨by rw [List.append_nil, hasked], hpos, ?_⟩
    rw [List.append_nil, ← List.append_assoc, htaken, List.take_of_length_le (Nat.le_refl _)]

theorem bufWriteUpTo_emits (capacity : ℕ) : ∀ {fuel : ℕ} {data : Bytes} (buf : Bytes), data.length ≤ fuel →
    Always (Emits (buf ++ data)) (bufWriteUpTo capacity fuel buf data : Session B ε Bytes)
  | 0, data, buf, h => by
    obtain rfl : data = [] := List.eq_nil_of_length_eq_zero (by omega)
    rw [List.append_nil]
    exact emits_pure buf
  | fuel + 1, data, buf, h => by
    rw [bufWriteUpTo]
    split
    · rename_i hnil
      rw [hnil, List.append_nil]
      exact emits_pure buf
    · rename_i hne
      refine always_bind (bufWrite_writes capacity buf hne) (fun trace h => h) (fun _ _ h => h.elim) ?_
      rintro first ⟨buf', n⟩ ⟨hasked, hpos, htaken⟩
      have hshort : (data.drop n).length ≤ fuel := by
        rw [List.length_drop]
        omega
      have htotal : buf ++ data = taken first ++ (buf' ++ data.drop n) := by
        rw [← List.append_assoc, htaken, List.append_assoc, List.take_append_drop]
      refine (bufWriteUpTo_emits capacity buf' hshort).mono fun rest stop h => ?_
      exact h.after hasked htotal

theorem bufWriteAll_emits (capacity : ℕ) (buf data : Bytes) :
    Always (Emits (buf ++ data)) (bufWriteAll capacity buf data : Session B ε Bytes) :=
  bufWriteUpTo_emits capacity buf (Nat.le_refl _)

/-- All of `total` is to be taken, and the buffer that is returned is empty. -/
def Flushes (total : Bytes) (trace : Trace B) : Stop ε Bytes → Prop
  | .waiting => asked trace = [] ∧ taken trace <+: total
  | .returned buf => asked trace = [] ∧ taken trace = total ∧ buf = []
  | .failed _ => False

theorem Emits.flushed {total : Bytes} {x : Session B ε Bytes} (hx : Always (Emits total) x) :
    Always (Flushes total) (x >>= bufFlush) := by
  refine always_bind hx (fun _ h => h) (fun _ _ h => h) ?_
  rintro first buf ⟨hasked, htaken⟩
  refine (bufFlush_emits buf).mono fun rest stop h => ?_
  obtain ⟨hemits, hnil⟩ := h
  have hall : Emits total (first ++ rest) stop := hemits.after hasked htaken.symm
  match stop, hall with
  | .waiting, hall => exact hall
  | .returned b, ⟨hasked', htaken'⟩ =>
    obtain rfl := hnil b rfl
    exact ⟨hasked', by rw [← htaken', List.append_nil], rfl⟩

/-! ### They can be finished

A socket that takes everything brings every sender to its end. -/

/-- Some answers make the program return. -/
def Completes (x : Session B ε α) : Prop := ∃ trace a, Exec x trace (.returned a)

theorem completes_pure (a : α) : Completes (.pure a : Session B ε α) := ⟨[], a, .pure a⟩

theorem completes_write {data : Bytes} (h : data ≠ []) {k : { n : ℕ // 0 < n ∧ n ≤ data.length } → Session B ε α}
    (hk : ∀ n, Completes (k n)) : Completes (.call (.write data) k) := by
  obtain ⟨trace, a, hexec⟩ := hk ⟨data.length, List.length_pos_of_ne_nil h, Nat.le_refl _⟩
  exact ⟨_, a, .call _ hexec⟩

theorem Completes.bind {x : Session B ε α} {f : α → Session B ε β} (hx : Completes x) (hf : ∀ a, Completes (f a)) :
    Completes (x >>= f) := by
  obtain ⟨first, a, hfirst⟩ := hx
  obtain ⟨rest, b, hrest⟩ := hf a
  exact ⟨first ++ rest, b, hfirst.bind hrest⟩

theorem sendUpTo_completes : ∀ (fuel : ℕ) (data : Bytes), Completes (sendUpTo fuel data : Session B ε Unit)
  | 0, _ => completes_pure ()
  | fuel + 1, data => by
    rw [sendUpTo]
    split
    · exact completes_pure ()
    · rename_i hne
      exact completes_write hne fun n => sendUpTo_completes fuel _

theorem bufFlush_completes (buf : Bytes) : Completes (bufFlush buf : Session B ε Bytes) :=
  (sendUpTo_completes _ _).bind fun _ => completes_pure []

theorem bufWrite_completes (capacity : ℕ) (buf : Bytes) {data : Bytes} (h : data ≠ []) :
    Completes (bufWrite capacity buf data : Session B ε (Bytes × ℕ)) := by
  have hroom : Completes (bufMakeRoom capacity buf data.length : Session B ε Bytes) := by
    rw [bufMakeRoom]
    split
    · exact bufFlush_completes buf
    · exact completes_pure buf
  refine hroom.bind fun b => ?_
  split
  · exact completes_write h fun n => completes_pure _
  · exact completes_pure _

theorem bufWriteUpTo_completes (capacity : ℕ) : ∀ (fuel : ℕ) (buf data : Bytes),
    Completes (bufWriteUpTo capacity fuel buf data : Session B ε Bytes)
  | 0, buf, _ => completes_pure buf
  | fuel + 1, buf, data => by
    rw [bufWriteUpTo]
    split
    · exact completes_pure buf
    · rename_i hne
      exact (bufWrite_completes capacity buf hne).bind fun r => bufWriteUpTo_completes capacity fuel r.1 _

theorem bufWriteAll_completes (capacity : ℕ) (buf data : Bytes) :
    Completes (bufWriteAll capacity buf data : Session B ε Bytes) := bufWriteUpTo_completes capacity _ buf data

end Session

end Rsdb
