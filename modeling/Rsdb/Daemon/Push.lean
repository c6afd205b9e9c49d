/-
# The daemon's side of a single-file push

`handle_push` opens one file, which it empties, and writes to it what arrives on the
file channel until a frame ends the stream. Nothing says beforehand how long the file
is: the frame that ends the stream does. Wherever a push stops, nothing but that file
has changed, and it has a beginning of what was sent; one that returns has all of it,
and it returns exactly when the file can be opened and the stream is whole
(`push_file_exact`). What is left out are a response that cannot be sent and a write or
`chmod` of the open file that fails.
-/
import Rsdb.Daemon.WriteFile
import Rsdb.Transfer.Confined

namespace Rsdb

open Prog (run run_bind run_bind_ok run_ask Reaches Throughout throughout_bind throughout_mono)
open Os (Placed Found)

namespace Daemon

/-! ### Where it goes -/

/-- The path for what is there: a directory takes the file under the name of its source. -/
def pushPathAt (requested : Path) (sourceName : Option Str) (asDirectory : Bool) : Except AnyhowError Path :=
  if asDirectory then
    match sourceName.filter fun name => !isBlank name with
    | none => .error (.bail (str "remote path refers to a directory but source file name is missing"))
    | some fileName => .ok (requested.join (.ofStr fileName))
  else .ok requested

/-- The file a push goes to: in the path if that is a directory, else the path. -/
def resolvePushDestination (path : Str) (sourceName : Option Str) : Act Path :=
  if path = [] then Act.bail (str "remote path must not be empty")
  else do
    match ← Act.stat (.ofStr path) with
    | .ok m => .ofExcept (pushPathAt (.ofStr path) sourceName (m.isDir || endsWithSlash path))
    | .error err =>
      if err.kind = .notFound then .ofExcept (pushPathAt (.ofStr path) sourceName (endsWithSlash path))
      else .fail ((AnyhowError.ofIo err).context (str "failed to stat remote path: " ++ path))

/-! ### The stream -/

section

variable (requestId : UInt32)

/-- What came is written; nothing is not. -/
def writeChunk (fd : ℕ) (payload : Bytes) : Act Unit :=
  if payload = [] then pure () else do Act.io (← Act.write fd payload)

/-- The frames up to one that ends the stream; `bytes` counts what has been written.
`fuel` is the number of bytes left of the connection: at zero the next read fails. -/
def receiveChunks (fd : ℕ) : ℕ → ℕ → Bytes → Act ℕ
  | 0, _, _ => .fail (pushReceiver requestId).endOfInput
  | fuel + 1, bytes, input =>
    match (pushReceiver requestId).readFileStreamChunk input with
    | .error err => .fail err
    | .ok (chunk, payload, input) => do
      writeChunk fd payload
      if chunk.eof then pure (bytes + payload.length) else receiveChunks fd fuel (bytes + payload.length) input

/-- `handle_push`, with what the client sends after the request. The response
`PushReady` goes out when the file is open. The byte counter is a `u64`. -/
def handlePush (path : Str) (mode : ℕ) (sourceName : Option Str) (input : Bytes) : Act ControlResponse := do
  let resolvedPath ← resolvePushDestination path sourceName
  let fd ← Act.ioContext (str "failed to open remote path for write: " ++ resolvedPath.display)
    (← Act.openWrite resolvedPath (normalizeMode mode))
  let bytesWritten ← receiveChunks requestId fd input.length 0 input
  Receiver.setPermissions resolvedPath mode (normalizeMode mode)
  pure (.pushComplete (bytesWritten % 2 ^ 64))

/-! ### What has been sent -/

/-- Frames of the session's file stream carry these bytes: all of them, where the last
frame ends the stream, or the first ones. -/
inductive FileStream : (whole : Bool) → (content input : Bytes) → Prop where
  | begins {input : Bytes} : FileStream false [] input
  | ends {input payload rest : Bytes} (h : readStreamFrameInto input [] = (.ok ⟨requestId, .file, true⟩, rest, payload)) :
    FileStream true payload input
  | more {whole : Bool} {input payload content rest : Bytes}
    (h : readStreamFrameInto input [] = (.ok ⟨requestId, .file, false⟩, rest, payload))
    (hrest : FileStream whole content rest) : FileStream whole (payload ++ content) input

variable {requestId}

theorem readFileStreamChunk_eq_ok {chunk : StreamFrameHeader} {input payload rest : Bytes} :
    (pushReceiver requestId).readFileStreamChunk input = .ok (chunk, payload, rest) ↔
      readStreamFrameInto input [] = (.ok chunk, rest, payload) ∧ chunk.requestId = requestId ∧ chunk.channel = .file := by
  unfold Receiver.readFileStreamChunk
  obtain ⟨result, left, read⟩ := readStreamFrameInto input []
  cases result with
  | error err => exact iff_of_false (fun h => by cases h) fun h => by cases h.1
  | ok header =>
    simp only
    split
    · rename_i hid
      exact iff_of_false (fun h => by cases h) fun h => hid (by
        obtain rfl := Except.ok.inj (Prod.mk.inj h.1).1
        exact h.2.1)
    split
    · rename_i hchannel
      exact iff_of_false (fun h => by cases h) fun h => hchannel (by
        obtain rfl := Except.ok.inj (Prod.mk.inj h.1).1
        exact h.2.2)
    · rename_i hid hchannel
      constructor
      · intro h
        cases h
        exact ⟨rfl, not_not.mp hid, not_not.mp hchannel⟩
      · rintro ⟨h, -, -⟩
        cases h
        rfl

/-- A frame that is read takes something off the connection. -/
theorem length_of_readStreamFrameInto {header : StreamFrameHeader} {input payload rest : Bytes}
    (h : readStreamFrameInto input [] = (.ok header, rest, payload)) : rest.length < input.length := by
  unfold readStreamFrameInto at h
  cases hread : readFrameInto input [] with
  | mk result left =>
    rw [hread] at h
    cases result with
    | error err => cases h
    | ok frame =>
      obtain ⟨-, rfl⟩ := Prod.mk.inj h
      have hlength := readFrameInto_length hread
      have hheader : 0 < headerLen := by decide
      omega

/-- A frame of the file stream is read whole. -/
theorem readStreamFrameInto_file (eof : Bool) {payload : Bytes} (h : payload.length ≤ maxPayloadLen) (rest : Bytes) :
    readStreamFrameInto ((mkFrame .stream (streamFlags .file eof) requestId payload).bytes ++ rest) [] =
      (.ok ⟨requestId, .file, eof⟩, rest, payload) := by
  rw [readStreamFrameInto, readFrameInto_bytes (mkFrame_valid h)]
  exact congrArg (·, rest, payload) (decodeStreamFrameHeader_mkFrame requestId .file eof payload)

/-- A file that is read in pieces and sent piece by piece is a whole stream. -/
theorem fileStream_of_reads (rest : Bytes) : ∀ {reads : List Bytes}, (∀ c ∈ reads, c.length ≤ maxPayloadLen) →
    FileStream requestId true reads.flatten (chunksBytes requestId reads ++ (eofFrame requestId).bytes ++ rest)
  | [], _ => by
    rw [chunksBytes, List.map_nil, framesBytes_nil, List.nil_append]
    exact .ends (readStreamFrameInto_file true (Nat.zero_le _) rest)
  | c :: reads, hfits => by
    obtain ⟨hc, hrest⟩ := List.forall_mem_cons.mp hfits
    have hmore := @readStreamFrameInto_file requestId false _ hc
      (chunksBytes requestId reads ++ (eofFrame requestId).bytes ++ rest)
    rw [chunksBytes, List.map_cons, framesBytes_cons, List.append_assoc, List.append_assoc, ← List.append_assoc _ _ rest]
    exact .more hmore (fileStream_of_reads rest hrest)

end

/-! ### One call -/

section

variable {α : Type} {c : Call} {g : c.Answer → Act α} {I : Os → Prop} {P : α → Os → Prop} {s t : Os} {a : α}

/-- One call that succeeds: there is nothing between before it and after it. -/
theorem throughout_one (hI : I s) (hrun : run Os.step (Prog.ask c >>= g) s = (.ok a, t))
    (hquiet : ∀ r, (∃ b, g r = .pure b) ∨ ∃ err, g r = .fail err) (hIt : I t) (hP : P a t) :
    Throughout Os.step I P (Prog.ask c >>= g) s := by
  refine throughout_ask hI ?_
  rw [run_bind, run_ask] at hrun
  dsimp only at hrun
  rcases hquiet (Os.step c s).1 with ⟨b, hb⟩ | ⟨err, herr⟩
  · rw [hb] at hrun ⊢
    obtain ⟨hok, rfl⟩ := Prod.mk.inj hrun
    obtain rfl := Except.ok.inj hok
    exact ⟨hIt, hP⟩
  · rw [herr] at hrun
    cases hrun

theorem io_quiet : ∀ r : Except IoError α, (∃ b, Act.io r = .pure b) ∨ ∃ err, Act.io r = .fail err
  | .ok b => Or.inl ⟨b, rfl⟩
  | .error _ => Or.inr ⟨_, rfl⟩

theorem ioContext_quiet (context : Str) : ∀ r : Except IoError α,
    (∃ b, Act.ioContext context r = .pure b) ∨ ∃ err, Act.ioContext context r = .fail err
  | .ok b => Or.inl ⟨b, rfl⟩
  | .error _ => Or.inr ⟨_, rfl⟩

end

/-! ### Filling the file -/

section

variable {requestId : UInt32} {os : Os} {l : Loc} {m fd : ℕ}

/-- A file of these bits, or of those a write leaves of them, with some content. -/
def FileHas (os : Os) (l : Loc) (m : ℕ) (content : Bytes) (s : Os) : Prop :=
  ∃ m', (m' = m ∨ m' = os.clearedBits m) ∧ Placed os s l (.inl (.file m' content))

/-- A file has so much of what the client sends behind what it had. -/
def Filled (requestId : UInt32) (os : Os) (l : Loc) (m : ℕ) (before input : Bytes) (s : Os) : Prop :=
  ∃ whole sent, FileStream requestId whole sent input ∧ FileHas os l m (before ++ sent) s

theorem Filled.more {before payload input rest : Bytes} {s : Os}
    (h : readStreamFrameInto input [] = (.ok ⟨requestId, .file, false⟩, rest, payload))
    (hfilled : Filled requestId os l m (before ++ payload) rest s) : Filled requestId os l m before input s := by
  obtain ⟨whole, sent, hsent, hhas⟩ := hfilled
  refine ⟨whole, payload ++ sent, .more h hsent, ?_⟩
  rwa [← List.append_assoc]

/-- A chunk goes behind what the file has. -/
theorem run_writeChunk {before : Bytes} {s : Os} (hhas : FileHas os l m before s)
    (hfd : s.handles[fd]? = some ⟨.inl l, before.length⟩) (payload : Bytes) :
    ∃ t, run Os.step (writeChunk fd payload) s = (.ok (), t) ∧ FileHas os l m (before ++ payload) t ∧
      t.handles[fd]? = some ⟨.inl l, (before ++ payload).length⟩ := by
  unfold writeChunk
  split
  · rename_i hnil
    subst hnil
    rw [List.append_nil]
    exact ⟨s, rfl, hhas, hfd⟩
  · rename_i hne
    obtain ⟨m', hbits, hplaced⟩ := hhas
    obtain ⟨t, hwrite, hwritten, hhandle⟩ := Os.write_at_end hfd hplaced.self payload
    have hstep : Os.step (.write fd payload) s = (.ok (), t) := by
      show s.done (s.write fd payload) = _
      rw [hwrite]
      rfl
    have hcleared : s.writtenBits m' payload = os.clearedBits m := by
      rw [Os.writtenBits, if_neg hne, hplaced.toSameProcess.clearedBits]
      rcases hbits with rfl | rfl
      · rfl
      · exact Os.clearedBits_clearedBits os m
    refine ⟨t, ?_, ⟨_, Or.inr hcleared, hplaced.trans hwritten⟩, hhandle⟩
    rw [run_bind, Act.write, run_ask, hstep]
    rfl

/-- Nothing is between before a chunk and after it. -/
theorem throughout_writeChunk {I : Os → Prop} {P : Unit → Os → Prop} {payload : Bytes} {s t : Os} (hI : I s)
    (hrun : run Os.step (writeChunk fd payload) s = (.ok (), t)) (hIt : I t) (hP : P () t) :
    Throughout Os.step I P (writeChunk fd payload) s := by
  unfold writeChunk at hrun ⊢
  split
  · rename_i hnil
    rw [if_pos hnil] at hrun
    obtain ⟨-, rfl⟩ := Prod.mk.inj hrun
    exact ⟨hIt, hP⟩
  · rename_i hne
    rw [if_neg hne] at hrun
    exact throughout_one hI hrun io_quiet hIt hP

/-- On the way the file has the first bytes that were sent, and all of them in the end. -/
theorem throughout_receiveChunks : ∀ (fuel bytes : ℕ) {before input : Bytes} {s : Os},
    FileHas os l m before s → s.handles[fd]? = some ⟨.inl l, before.length⟩ →
      Throughout Os.step (Filled requestId os l m before input)
        (fun written t => ∃ content, FileStream requestId true content input ∧ written = bytes + content.length ∧
          FileHas os l m (before ++ content) t) (receiveChunks requestId fd fuel bytes input) s
  | 0, _, _, _, _, hhas, _ => ⟨false, [], .begins, by rwa [List.append_nil]⟩
  | fuel + 1, bytes, before, input, s, hhas, hfd => by
    have hnow : Filled requestId os l m before input s := ⟨false, [], .begins, by rwa [List.append_nil]⟩
    unfold receiveChunks
    cases hread : (pushReceiver requestId).readFileStreamChunk input with
    | error err => exact hnow
    | ok read =>
      obtain ⟨⟨id, channel, eof⟩, payload, rest⟩ := read
      obtain ⟨hframe, hid, hchannel⟩ := readFileStreamChunk_eq_ok.mp hread
      dsimp only at hid hchannel
      rw [hid, hchannel] at hframe
      obtain ⟨t, hrun, hwritten, hhandle⟩ := run_writeChunk hhas hfd payload
      cases eof with
      | true =>
        have hend : Filled requestId os l m before input t := ⟨true, payload, .ends hframe, hwritten⟩
        exact throughout_bind (throughout_writeChunk hnow hrun hend ⟨hend, payload, .ends hframe, rfl, hwritten⟩)
      | false =>
        have hrest := (throughout_receiveChunks fuel (bytes + payload.length) hwritten hhandle).weaken
          fun s' => Filled.more hframe
        refine throughout_bind (throughout_writeChunk hnow hrun ?_ (throughout_mono (fun written t' _ hdone => ?_) hrest))
        · exact Filled.more hframe ⟨false, [], .begins, by rwa [List.append_nil]⟩
        · obtain ⟨content, hcontent, hcount, hhas'⟩ := hdone
          refine ⟨payload ++ content, .more hframe hcontent, ?_, ?_⟩
          · rw [hcount, List.length_append, Nat.add_assoc]
          · rwa [← List.append_assoc]

/-- A whole stream is written whole. -/
theorem run_receiveChunks {input content : Bytes} (h : FileStream requestId true content input) : ∀ {fuel bytes : ℕ}
    {before : Bytes} {s : Os}, input.length ≤ fuel → FileHas os l m before s →
      s.handles[fd]? = some ⟨.inl l, before.length⟩ →
        ∃ t, run Os.step (receiveChunks requestId fd fuel bytes input) s = (.ok (bytes + content.length), t) := by
  generalize hwhole : true = whole at h
  induction h with
  | begins => cases hwhole
  | @ends input payload rest hframe =>
    intro fuel bytes before s hfuel hhas hfd
    have hlength := length_of_readStreamFrameInto hframe
    obtain ⟨fuel, rfl⟩ := Nat.exists_eq_add_one_of_ne_zero (show fuel ≠ 0 by omega)
    obtain ⟨t, hrun, -, -⟩ := run_writeChunk hhas hfd payload
    refine ⟨t, ?_⟩
    unfold receiveChunks
    rw [readFileStreamChunk_eq_ok.mpr ⟨hframe, rfl, rfl⟩]
    dsimp only
    rw [run_bind, hrun]
    rfl
  | @more whole input payload content rest hframe hrest ih =>
    intro fuel bytes before s hfuel hhas hfd
    have hlength := length_of_readStreamFrameInto hframe
    obtain ⟨fuel, rfl⟩ := Nat.exists_eq_add_one_of_ne_zero (show fuel ≠ 0 by omega)
    obtain ⟨t, hrun, hwritten, hhandle⟩ := run_writeChunk hhas hfd payload
    obtain ⟨t', hrun'⟩ := @ih hwhole fuel (bytes + payload.length) _ t (by omega) hwritten hhandle
    refine ⟨t', ?_⟩
    unfold receiveChunks
    rw [readFileStreamChunk_eq_ok.mpr ⟨hframe, rfl, rfl⟩]
    dsimp only
    rw [run_bind, hrun, List.length_append, ← Nat.add_assoc]
    exact hrun'

end

/-! ### The whole push -/

/-- The place a push goes to. -/
structure PushedAt (os : Os) (path : Str) (sourceName : Option Str) (p : Path) (f : Found) : Prop where
  chosen : (run Os.step (resolvePushDestination path sourceName) os).1 = .ok p
  leads : os.resolve true p = .ok f

/-- The bits of a file that is opened where none are given. -/
theorem normalizeMode_plain : normalizeMode 0 &&& (Os.setuid ||| Os.setgid) = 0 := by decide

/-- The bits a pushed file ends with. -/
def pushedMode (os : Os) (mode : ℕ) (old : Option Obj) : ℕ :=
  if mode = 0 then os.openedMode (normalizeMode mode) old else normalizeMode mode

section

variable {requestId : UInt32} {path : Str} {mode : ℕ} {sourceName : Option Str} {input : Bytes} {os : Os} {p : Path} {f : Found}

theorem throughout_resolvePushDestination : Throughout Os.step (fun s => s = os) (fun _ _ => True)
    (resolvePushDestination path sourceName) os := by
  unfold resolvePushDestination
  split
  · rfl
  have hstat : (Os.step (.stat (.ofStr path)) os).2 = os := by rw [Os.step_stat]
  refine throughout_ask rfl ?_
  rw [hstat]
  cases (Os.step (.stat (.ofStr path)) os).1 with
  | ok m => exact throughout_mono (fun _ _ _ _ => trivial) (throughout_ofExcept (I := fun s => s = os) rfl _)
  | error err =>
    dsimp only
    split
    · exact throughout_mono (fun _ _ _ _ => trivial) (throughout_ofExcept (I := fun s => s = os) rfl _)
    · rfl

/-- What is opened for writing is a file, or new. -/
theorem isFile_of_openWrite (hleads : os.resolve true p = .ok f) {fd m : ℕ} {os₁ : Os}
    (h : os.openWrite p m = .ok (fd, os₁)) : f.IsFile := by
  unfold Os.openWrite at h
  rw [hleads] at h
  match f with
  | .missing _ | .entry _ (.inl (.file _ _)) | .entry _ (.inl (.other _)) => trivial
  | .entry _ (.inl (.symlink _)) | .entry _ (.inr _) => cases h

/-- The bits are set at the end, if any are given. -/
theorem run_setPermissions {s : Os} {m : ℕ} {content : Bytes} (hlookup : s.lookup true p = .ok (f.loc, .inl (.file m content)))
    (hplaced : Placed os s f.loc (.inl (.file m content))) :
    ∃ t, run Os.step (Receiver.setPermissions p mode (normalizeMode mode)) s = (.ok (), t) ∧
      Placed os t f.loc (.inl (.file (if mode = 0 then m else normalizeMode mode) content)) := by
  unfold Receiver.setPermissions
  by_cases hmode : mode = 0
  · rw [if_pos hmode, if_pos hmode]
    exact ⟨s, rfl, hplaced⟩
  · rw [if_neg hmode, if_neg hmode]
    obtain ⟨t, hchmod, hmoded, -⟩ := Os.chmod_eq (normalizeMode mode) hlookup
    have hstep : Os.step (.chmod p (normalizeMode mode)) s = (.ok (), t) := by
      show s.done (s.chmod p (normalizeMode mode)) = _
      rw [hchmod]
      rfl
    refine ⟨t, ?_, hplaced.trans hmoded⟩
    rw [run_bind, Act.chmod, run_ask, hstep]
    rfl

theorem throughout_setPermissions_ok {I : Os → Prop} {P : Unit → Os → Prop} {s t : Os} (hI : I s)
    (hrun : run Os.step (Receiver.setPermissions p mode (normalizeMode mode)) s = (.ok (), t)) (hIt : I t) (hP : P () t) :
    Throughout Os.step I P (Receiver.setPermissions p mode (normalizeMode mode)) s := by
  unfold Receiver.setPermissions at hrun ⊢
  split
  · rename_i hmode
    rw [if_pos hmode] at hrun
    obtain ⟨-, rfl⟩ := Prod.mk.inj hrun
    exact ⟨hIt, hP⟩
  · rename_i hmode
    rw [if_neg hmode] at hrun
    exact throughout_one hI hrun (ioContext_quiet _) hIt hP

/-- What the file is after it has been opened. -/
structure OpenedAt (os : Os) (p : Path) (mode : ℕ) (f : Found) (fd : ℕ) (os₁ : Os) : Prop where
  placed : Placed os os₁ f.loc (.inl (.file (os.openedMode (normalizeMode mode) (os.view f.loc)) []))
  handle : os₁.handles[fd]? = some ⟨.inl f.loc, 0⟩
  found : ∀ {s m content}, Placed os s f.loc (.inl (.file m content)) →
    s.lookup true p = .ok (f.loc, .inl (.file m content))

theorem OpenedAt.has {fd : ℕ} {os₁ : Os} (h : OpenedAt os p mode f fd os₁) :
    FileHas os f.loc (os.openedMode (normalizeMode mode) (os.view f.loc)) [] os₁ := ⟨_, Or.inl rfl, h.placed⟩

theorem openedAt_of_openWrite {fd : ℕ} {os₁ : Os} (h : os.openWrite p (normalizeMode mode) = .ok (fd, os₁))
    (hplain : ∀ f, os.resolve true p = .ok f → ∀ m, os.view f.loc ≠ some (.inl (.other m))) :
    ∃ f, os.resolve true p = .ok f ∧ OpenedAt os p mode f fd os₁ := by
  obtain ⟨f, hleads, hcase⟩ := Os.openWrite_eq_ok h
  refine ⟨f, hleads, ?_⟩
  obtain ⟨-, hplaced, hopened⟩ := hcase.resolve_left fun hother => hplain f hleads _ hother.choose_spec
  refine ⟨hplaced, hopened.get, fun {s m content} hp => ?_⟩
  have hfile := (isFile_of_openWrite hleads h).fileOrNone (Os.resolve_sound hleads)
  rw [Os.lookup, Bool.true_or, Os.resolve_placed hp hfile (by simp) hleads rfl, openWrite_slash h]
  rfl

/-- The push behind the opened file. -/
def pushOpened (requestId : UInt32) (p : Path) (mode : ℕ) (fd : ℕ) (input : Bytes) : Act ControlResponse := do
  let bytesWritten ← receiveChunks requestId fd input.length 0 input
  Receiver.setPermissions p mode (normalizeMode mode)
  pure (.pushComplete (bytesWritten % 2 ^ 64))

/-- What a push that returns has done. -/
def PushedWhole (requestId : UInt32) (os : Os) (path : Str) (mode : ℕ) (sourceName : Option Str) (input : Bytes)
    (response : ControlResponse) (t : Os) : Prop :=
  ∃ p f content, PushedAt os path sourceName p f ∧ FileStream requestId true content input ∧
    response = .pushComplete (content.length % 2 ^ 64) ∧
      Placed os t f.loc (.inl (.file (pushedMode os mode (os.view f.loc)) content))

/-- What a push has done so far. -/
def PushedSome (requestId : UInt32) (os : Os) (path : Str) (sourceName : Option Str) (input : Bytes) (s : Os) : Prop :=
  s = os ∨ ∃ p f m whole sent, PushedAt os path sourceName p f ∧ FileStream requestId whole sent input ∧
    Placed os s f.loc (.inl (.file m sent))

theorem throughout_pushOpened {fd : ℕ} {os₁ : Os} (hat : PushedAt os path sourceName p f)
    (hopened : OpenedAt os p mode f fd os₁) :
    Throughout Os.step (PushedSome requestId os path sourceName input) (PushedWhole requestId os path mode sourceName input)
      (pushOpened requestId p mode fd input) os₁ := by
  have hsome : ∀ s, Filled requestId os f.loc (os.openedMode (normalizeMode mode) (os.view f.loc)) [] input s →
      PushedSome requestId os path sourceName input s := by
    rintro s ⟨whole, sent, hsent, m', -, hplaced⟩
    exact Or.inr ⟨p, f, m', whole, sent, hat, hsent, hplaced⟩
  refine throughout_bind (throughout_mono (fun written t ht hdone => ?_)
    ((throughout_receiveChunks _ 0 hopened.has hopened.handle).weaken hsome))
  obtain ⟨content, hcontent, rfl, m', hbits, hplaced⟩ := hdone
  rw [List.nil_append] at hplaced
  obtain ⟨t', hrun, hmoded⟩ := @run_setPermissions mode _ _ _ _ _ _ (hopened.found hplaced) hplaced
  have hmode : (if mode = 0 then m' else normalizeMode mode) = pushedMode os mode (os.view f.loc) := by
    unfold pushedMode
    split
    · rename_i hzero
      subst hzero
      rw [Os.clearedBits_openedMode normalizeMode_plain, or_self] at hbits
      exact hbits
    · rfl
  rw [hmode] at hmoded
  have hlast : PushedSome requestId os path sourceName input t' :=
    Or.inr ⟨p, f, _, true, content, hat, hcontent, hmoded⟩
  refine throughout_bind (throughout_setPermissions_ok ht hrun hlast ⟨hlast, p, f, content, hat, hcontent, ?_, hmoded⟩)
  rw [Nat.zero_add]

theorem run_resolvePushDestination
    (hchosen : (run Os.step (resolvePushDestination path sourceName) os).1 = .ok p) :
    run Os.step (resolvePushDestination path sourceName) os = (.ok p, os) := by
  have hsame := throughout_resolvePushDestination.reaches (Prog.reaches_run (resolvePushDestination path sourceName) os)
  rw [Prog.outcome_of_ok hchosen, hsame]

/-- Behind the opened file. -/
theorem run_handlePush_opened {fd : ℕ} {os₁ : Os}
    (hchosen : (run Os.step (resolvePushDestination path sourceName) os).1 = .ok p)
    (hopen : os.openWrite p (normalizeMode mode) = .ok (fd, os₁)) :
    run Os.step (handlePush requestId path mode sourceName input) os =
      run Os.step (pushOpened requestId p mode fd input) os₁ := by
  have hstep : Os.step (.openWrite p (normalizeMode mode)) os = (.ok fd, os₁) := by
    show os.answer (os.openWrite p (normalizeMode mode)) = _
    rw [hopen]
    rfl
  rw [handlePush, run_bind, run_resolvePushDestination hchosen]
  dsimp only
  rw [run_bind, Act.openWrite, run_ask, hstep]
  rfl

/-- A push that returns has chosen a path and opened what is there. -/
theorem opened_of_run {response : ControlResponse} {t : Os}
    (h : run Os.step (handlePush requestId path mode sourceName input) os = (.ok response, t)) :
    ∃ p, (run Os.step (resolvePushDestination path sourceName) os).1 = .ok p ∧
      ∃ fd os₁, os.openWrite p (normalizeMode mode) = .ok (fd, os₁) := by
  obtain ⟨p, s, hchosen, hrest⟩ := (run_bind_ok _).mp h
  have hfirst : (run Os.step (resolvePushDestination path sourceName) os).1 = .ok p := congrArg Prod.fst hchosen
  obtain ⟨-, rfl⟩ := Prod.mk.inj (hchosen.symm.trans (run_resolvePushDestination hfirst))
  obtain ⟨answer, s₁, hanswer, hopened⟩ := (run_bind_ok _).mp hrest
  rw [Act.openWrite, run_ask] at hanswer
  obtain ⟨fd, rfl, -⟩ := run_ioContext_bind_ok hopened
  exact ⟨p, hfirst, fd, _, of_answer_ok (Except.ok.inj (Prod.mk.inj hanswer).1)⟩

theorem throughout_handlePush
    (hplain : ∀ p f, PushedAt os path sourceName p f → ∀ m, os.view f.loc ≠ some (.inl (.other m))) :
    Throughout Os.step (PushedSome requestId os path sourceName input) (PushedWhole requestId os path mode sourceName input)
      (handlePush requestId path mode sourceName input) os := by
  refine throughout_bind (throughout_mono (fun p t _ hp => ?_)
    (throughout_resolvePushDestination.withRun.weaken fun s hs => Or.inl hs))
  have hchosen : (run Os.step (resolvePushDestination path sourceName) os).1 = .ok p := congrArg Prod.fst hp.2
  obtain ⟨-, rfl⟩ := Prod.mk.inj ((run_resolvePushDestination hchosen).symm.trans hp.2)
  refine throughout_ask (Or.inl rfl) ?_
  have hstep : Os.step (.openWrite p (normalizeMode mode)) os = os.answer (os.openWrite p (normalizeMode mode)) := rfl
  cases hopen : os.openWrite p (normalizeMode mode) with
  | error e =>
    rw [hstep, hopen]
    exact Or.inl rfl
  | ok opened =>
    obtain ⟨fd, os₁⟩ := opened
    rw [hstep, hopen]
    obtain ⟨f, hleads, hopened⟩ := openedAt_of_openWrite hopen fun f hleads => hplain p f ⟨hchosen, hleads⟩
    exact throughout_pushOpened ⟨hchosen, hleads⟩ hopened

theorem run_pushOpened {fd : ℕ} {os₁ : Os} (hopened : OpenedAt os p mode f fd os₁) {content : Bytes}
    (h : FileStream requestId true content input) :
    ∃ response t, run Os.step (pushOpened requestId p mode fd input) os₁ = (.ok response, t) := by
  obtain ⟨t, hrun⟩ := @run_receiveChunks requestId os f.loc _ fd _ _ h _ 0 _ _ le_rfl hopened.has hopened.handle
  obtain ⟨content', -, -, m', -, hplaced⟩ := (throughout_receiveChunks _ 0 hopened.has hopened.handle).returned hrun
  obtain ⟨t', hset, -⟩ := @run_setPermissions mode _ _ _ _ _ _ (hopened.found hplaced) hplaced
  refine ⟨.pushComplete ((0 + content.length) % 2 ^ 64), t', ?_⟩
  rw [pushOpened, run_bind, hrun]
  dsimp only
  rw [run_bind, hset]
  rfl

end

/-- **A push writes what the stream carries, to one file.** Whatever the client sends and
wherever the push stops: nothing has changed, or the one file it goes to, which is no
device, has a beginning of what was sent. A push that returns has written all of it, has
counted it, and leaves the bits it was given; and it returns exactly when its path can be
opened for writing and the stream is whole. Its two responses are sent, and no call on the
file that is open fails. -/
theorem push_file_exact (requestId : UInt32) (path : Str) (mode : ℕ) (sourceName : Option Str) (input : Bytes) (os : Os)
    (hplain : ∀ p f, PushedAt os path sourceName p f → ∀ m, os.view f.loc ≠ some (.inl (.other m))) :
    (∀ s, Reaches Os.step (handlePush requestId path mode sourceName input) os s →
      PushedSome requestId os path sourceName input s) ∧
    (∀ response t, run Os.step (handlePush requestId path mode sourceName input) os = (.ok response, t) →
      PushedWhole requestId os path mode sourceName input response t) ∧
    ((∃ response t, run Os.step (handlePush requestId path mode sourceName input) os = (.ok response, t)) ↔
      ∃ p, (run Os.step (resolvePushDestination path sourceName) os).1 = .ok p ∧
        (∃ fd os₁, os.openWrite p (normalizeMode mode) = .ok (fd, os₁)) ∧
        ∃ content, FileStream requestId true content input) := by
  have hthroughout := @throughout_handlePush requestId path mode sourceName input os hplain
  refine ⟨fun s hs => hthroughout.reaches hs, fun response t hrun => hthroughout.returned hrun, ?_, ?_⟩
  · rintro ⟨response, t, hrun⟩
    obtain ⟨p, hchosen, hopen⟩ := opened_of_run hrun
    obtain ⟨-, -, content, -, hcontent, -⟩ := hthroughout.returned hrun
    exact ⟨p, hchosen, hopen, content, hcontent⟩
  · rintro ⟨p, hchosen, ⟨fd, os₁, hopen⟩, content, hcontent⟩
    obtain ⟨f, -, hopened⟩ := openedAt_of_openWrite hopen fun f hleads => hplain p f ⟨hchosen, hleads⟩
    rw [run_handlePush_opened hchosen hopen]
    exact run_pushOpened hopened hcontent

/-- Two letters in two frames, and the end of the stream. -/
def hiStream : Bytes := chunksBytes 1 [str "h", str "i"] ++ (eofFrame 1).bytes

theorem push_file_exact_hi :
    ∃ response t, run Os.step (handlePush 1 (str "/f") 0o600 none hiStream) Os.fresh = (.ok response, t) ∧
      PushedWhole 1 Os.fresh (str "/f") 0o600 none hiStream response t := by
  have hplain : ∀ p f, PushedAt Os.fresh (str "/f") none p f → ∀ m, Os.fresh.view f.loc ≠ some (.inl (.other m)) := by
    intro p f _ m hother
    have hroot := @Os.forall_view Os.fresh (fun _ obj => obj = .inr 0o755) (by decide) _ _ hother
    cases hroot
  obtain ⟨-, hwhole, hreturns⟩ := push_file_exact 1 (str "/f") 0o600 none hiStream Os.fresh hplain
  have hstream : FileStream 1 true (str "hi") hiStream := by
    have hreads := @fileStream_of_reads 1 [] [str "h", str "i"] (by decide)
    rwa [List.append_nil] at hreads
  obtain ⟨response, t, hrun⟩ := hreturns.mpr ⟨Path.ofStr (str "/f"), rfl, ⟨_, _, rfl⟩, _, hstream⟩
  exact ⟨response, t, hrun, hwhole response t hrun⟩

end Daemon

end Rsdb
