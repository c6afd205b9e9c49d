/-
# Commands that share the registry file

`connect`, `disconnect` and `devices` read the registry file once and write it
back, and nothing keeps another process away in between. Here a command is a
program of whole-file reads and writes (`SharedCommand.prog`), and two of them run
in any order of their steps.

`shared_commands` says what the file can hold in the end: what one of the two
orders leaves, or what one of the commands leaves that runs alone, and then the
change of the other is lost. `connect_lost` has two connects that lose a target.
-/
import Rsdb.Client.Registry
import Rsdb.Lib.Interleaving

namespace Rsdb

namespace Client

/-- A command's work on the registry file: reads and writes of the whole file. -/
abbrev FileProg (α : Type) := Prog.RegisterProg RegistryFile AnyhowError α

/-- `load_registry`. -/
def loadShared : FileProg Registry := do
  let file ← Prog.readRegister
  match file with
  | .absent => pure ⟨[], none⟩
  | .unreadable err => .fail err
  | .holds registry =>
    let normalized := normalizeRegistry registry
    if normalized ≠ registry then
      Prog.writeRegister (.holds normalized)
      pure normalized
    else pure normalized

/-- `save_registry`. -/
def saveShared (registry : Registry) : FileProg Unit := Prog.writeRegister (saveRegistry registry)

/-- Load, change and save; a command may fail in between, or have nothing to save. -/
def changing (change : Registry → Except AnyhowError (Option Registry)) : FileProg Unit := do
  let registry ← loadShared
  match change registry with
  | .error err => .fail err
  | .ok none => pure ()
  | .ok (some registry) => saveShared registry

/-! ### What the commands change -/

section Commands

variable (texts : AddrTexts) (debug : ControlResponse → Str)

/-- What `connect` makes of the registry. -/
def connected (addr : Str) (requestedName discovered : Option Str) (registry : Registry) : Registry :=
  let name := connectName addr requestedName discovered registry
  ⟨(registry.targets.filter fun target => target.addr ≠ addr) ++ [⟨name, addr⟩], some addr⟩

/-- What `disconnect` makes of the registry, which must have a device to remove. -/
def disconnected (name : Option Str) (registry : Registry) : Except AnyhowError (Option Registry) :=
  let found := match name with
    | some selector => findTargetIndexByAddr texts registry selector
    | none => .ok (primaryTargetIndex registry)
  match found with
  | .error err => .error err
  | .ok none => .error noSavedTargets
  | .ok (some index) =>
    match registry.targets[index]? with
    | none => .error noSavedTargets
    | some target =>
      let targets := registry.targets.eraseIdx index
      .ok (some ⟨targets,
        if targets = [] then none
        else if registry.currentTarget = some target.addr ∨ registry.currentTarget = some target.name then
          targets.getLast?.map StoredTarget.addr
        else registry.currentTarget⟩)

/-- `updated_name` of a probe: the device name that was discovered takes the place
of a generated one. -/
def updatedName (discovered : StoredTarget → Option Str) (target : StoredTarget) : Option Str :=
  (discovered target).filter fun deviceName => isLegacyAutoName target.name target.addr && deviceName ≠ target.name

/-- What `devices` saves: only the primary target is probed. -/
def renamed (discovered : StoredTarget → Option Str) (registry : Registry) : Option Registry :=
  let currentAddr := (primaryTarget registry).map StoredTarget.addr
  match registry.targets.findIdx? fun target => currentAddr = some target.addr with
  | none => none
  | some index =>
    match registry.targets[index]? with
    | none => none
    | some target =>
      (updatedName discovered target).map fun name =>
        ⟨registry.targets.set index ⟨name, target.addr⟩, registry.currentTarget⟩

/-- A command, with what the network answers it. -/
inductive SharedCommand where
  | connect (addr : Str) (requestedName discovered : Option Str) (response : Except AnyhowError ControlResponse)
  | disconnect (name : Option Str)
  | devices (discovered : StoredTarget → Option Str)

/-- A command as its reads and writes of the file. -/
def SharedCommand.prog : SharedCommand → FileProg Unit
  | connect addr requestedName discovered response =>
    match response with
    | .error err => .fail err
    | .ok (.pong _ _) =>
      changing fun registry => .ok (some (connected (texts.normalizeConnectAddr addr) requestedName discovered registry))
    | .ok other => .fail (.bail (str "unexpected response from daemon: " ++ debug other))
  | disconnect name => changing (disconnected texts name)
  | devices discovered => changing fun registry => .ok (renamed discovered registry)

/-- The file after a command that was alone. -/
def SharedCommand.leaves (command : SharedCommand) (file : RegistryFile) : RegistryFile :=
  (Prog.run Prog.registerStep (command.prog texts debug) file).2

end Commands

/-! ### A load and a save as one pass -/

/-- What a load writes. -/
def loadWrites : RegistryFile → List RegistryFile
  | .holds registry => if normalizeRegistry registry ≠ registry then [.holds (normalizeRegistry registry)] else []
  | _ => []

/-- What a command writes that has loaded a registry. -/
def saveWrites (change : Registry → Except AnyhowError (Option Registry)) (registry : Registry) : List RegistryFile :=
  match change registry with
  | .ok (some registry) => [saveRegistry registry]
  | _ => []

/-- What a change writes to a file it has read, and how it ends. -/
def changePlan (change : Registry → Except AnyhowError (Option Registry)) (file : RegistryFile) :
    List RegistryFile × Except AnyhowError Unit :=
  match loadRegistry file with
  | .error err => ([], .error err)
  | .ok (registry, _) => (loadWrites file ++ saveWrites change registry, (change registry).map fun _ => ())

theorem changing_eq_onePass (change : Registry → Except AnyhowError (Option Registry)) :
    changing change = Prog.onePass (changePlan change) := by
  have hsave : ∀ registry, (match change registry with
      | .error err => (.fail err : FileProg Unit)
      | .ok none => pure ()
      | .ok (some registry) => saveShared registry) =
      Prog.writeAll (saveWrites change registry) ((change registry).map fun _ => ()) := by
    intro registry
    unfold saveWrites
    rcases change registry with err | _ | saved <;> rfl
  unfold changing loadShared Prog.onePass
  rw [Prog.bind_assoc, Prog.readRegister, Prog.call_bind]
  congr 1
  funext file
  cases file with
  | absent => exact hsave _
  | unreadable err => rfl
  | holds registry =>
    unfold changePlan
    simp only [loadRegistry, loadWrites, Prog.pure_bind]
    by_cases hnormal : normalizeRegistry registry ≠ registry
    · rw [if_pos hnormal, if_pos hnormal, Prog.bind_assoc, Prog.writeRegister, Prog.call_bind]
      exact congrArg (Prog.call _) (funext fun _ => hsave _)
    · rw [if_neg hnormal, if_neg hnormal]
      exact hsave _

theorem loadRegistry_holds_normal (registry : Registry) :
    loadRegistry (.holds (normalizeRegistry registry)) =
      .ok (normalizeRegistry registry, .holds (normalizeRegistry registry)) := by
  have hidem := (normalizeRegistry_valid registry).normalizeRegistry_eq
  rw [loadRegistry, hidem]
  simp

/-- A load that has written the normal form back has changed nothing for the next one. -/
theorem leaves_after_load {change : Registry → Except AnyhowError (Option Registry)} {file : RegistryFile}
    (h : (changePlan change (Prog.written (loadWrites file) file)).1 ≠ []) :
    Prog.leaves (changePlan change) (Prog.written (loadWrites file) file) = Prog.leaves (changePlan change) file := by
  cases file with
  | absent => rfl
  | unreadable err => rfl
  | holds registry =>
    by_cases hnormal : normalizeRegistry registry = registry
    · rw [loadWrites, if_neg (not_not_intro hnormal)]
      rfl
    · have hloaded : Prog.written (loadWrites (.holds registry)) (.holds registry) = .holds (normalizeRegistry registry) := by
        rw [loadWrites, if_pos hnormal]
        rfl
      have hnone : loadWrites (.holds (normalizeRegistry registry)) = [] := by
        rw [loadWrites, (normalizeRegistry_valid registry).normalizeRegistry_eq]
        simp
      have hplan : changePlan change (.holds (normalizeRegistry registry)) =
          (saveWrites change (normalizeRegistry registry), (change (normalizeRegistry registry)).map fun _ => ()) := by
        unfold changePlan
        rw [loadRegistry_holds_normal, hnone]
        rfl
      rw [hloaded] at h ⊢
      unfold Prog.leaves
      rw [hplan] at h ⊢
      show _ = Prog.written (loadWrites (.holds registry) ++ saveWrites change (normalizeRegistry registry)) _
      rw [Prog.written_append, hloaded]

theorem loadWrites_length_le (file : RegistryFile) : (loadWrites file).length ≤ 1 := by
  unfold loadWrites
  split
  · split <;> simp
  · simp

theorem saveWrites_length_le (change : Registry → Except AnyhowError (Option Registry)) (registry : Registry) :
    (saveWrites change registry).length ≤ 1 := by
  unfold saveWrites
  split <;> simp

/-- The first of two writes is that of the load. -/
theorem split_changePlan {change : Registry → Except AnyhowError (Option Registry)} {file : RegistryFile}
    {pre suf : List RegistryFile} (hsplit : (changePlan change file).1 = pre ++ suf) (hpre : pre ≠ []) (hsuf : suf ≠ []) :
    pre = loadWrites file := by
  have hprepos := List.length_pos_iff.mpr hpre
  have hsufpos := List.length_pos_iff.mpr hsuf
  unfold changePlan at hsplit
  split at hsplit
  · exact absurd (List.append_eq_nil_iff.mp hsplit.symm).1 hpre
  · rename_i registry _ _
    have hload := loadWrites_length_le file
    have hsave := saveWrites_length_le change registry
    have hlength := congrArg List.length hsplit
    rw [List.length_append, List.length_append] at hlength
    exact ((List.append_inj hsplit (by omega)).1).symm

/-- Between the writes of the first command the second finds the registry as it was. -/
theorem leaves_between {p q : Registry → Except AnyhowError (Option Registry)} {file : RegistryFile}
    {pre suf : List RegistryFile} (hsplit : (changePlan p file).1 = pre ++ suf) (hsuf : suf ≠ [])
    (hwrites : (changePlan q (Prog.written pre file)).1 ≠ []) :
    Prog.leaves (changePlan q) (Prog.written pre file) = Prog.leaves (changePlan q) file := by
  by_cases hpre : pre = []
  · rw [hpre]
    rfl
  · rw [split_changePlan hsplit hpre hsuf] at hwrites ⊢
    exact leaves_after_load hwrites

theorem changePasses {p q : Registry → Except AnyhowError (Option Registry)} {file after : RegistryFile}
    (h : Prog.Passes (changePlan p) (changePlan q) file after) :
    after = Prog.leaves (changePlan q) (Prog.leaves (changePlan p) file) ∨
      after = Prog.leaves (changePlan p) file ∨ after = Prog.leaves (changePlan q) file := by
  rcases h with hsequence | ⟨pre, suf, hsplit, hsuf, halone | ⟨hlast, hwrites⟩⟩
  · exact Or.inl hsequence
  · exact Or.inr (Or.inl halone)
  · exact Or.inr (Or.inr (hlast.trans (leaves_between hsplit hsuf hwrites)))

/-! ### Two commands -/

section

variable (texts : AddrTexts) (debug : ControlResponse → Str)

/-- A command fails before it touches the file, or is one pass over it. -/
theorem prog_cases (command : SharedCommand) :
    (∃ err, command.prog texts debug = .fail err) ∨
      ∃ change, command.prog texts debug = Prog.onePass (changePlan change) := by
  cases command with
  | connect addr requestedName discovered response =>
    simp only [SharedCommand.prog]
    split
    · exact Or.inl ⟨_, rfl⟩
    · exact Or.inr ⟨_, changing_eq_onePass _⟩
    · exact Or.inl ⟨_, rfl⟩
  | disconnect name => exact Or.inr ⟨_, changing_eq_onePass _⟩
  | devices discovered => exact Or.inr ⟨_, changing_eq_onePass _⟩

theorem leaves_changing (change : Registry → Except AnyhowError (Option Registry)) (file : RegistryFile) :
    (Prog.run Prog.registerStep (changing change) file).2 = Prog.leaves (changePlan change) file := by
  rw [changing_eq_onePass, Prog.run_onePass]

/-- What a change leaves that has something to save. -/
theorem leaves_saved {change : Registry → Except AnyhowError (Option Registry)} {file loaded : RegistryFile}
    {registry saved : Registry} (hload : loadRegistry file = .ok (registry, loaded))
    (hchange : change registry = .ok (some saved)) : Prog.leaves (changePlan change) file = saveRegistry saved := by
  simp only [Prog.leaves, changePlan, hload, Prog.written_append, saveWrites, hchange]
  rfl

/-- The programs are the commands as they run alone. -/
theorem leaves_connect {addr : Str} {requestedName discovered : Option Str} {response : Except AnyhowError ControlResponse}
    {file after : RegistryFile}
    (h : connectCommand texts debug addr requestedName discovered response file = .ok after) :
    (SharedCommand.connect addr requestedName discovered response).leaves texts debug file = after := by
  simp only [connectCommand] at h
  split at h
  · cases h
  · split at h
    · cases h
    · rename_i registry loaded hload
      rw [← Except.ok.inj h]
      set addr := texts.normalizeConnectAddr addr
      have hleaves := leaves_changing (fun registry => .ok (some (connected addr requestedName discovered registry))) file
      exact hleaves.trans (leaves_saved hload rfl)
  · cases h

theorem leaves_disconnect {name : Option Str} {file after : RegistryFile}
    (h : disconnectCommand texts name file = .ok after) :
    (SharedCommand.disconnect name).leaves texts debug file = after := by
  refine (leaves_changing (disconnected texts name) file).trans ?_
  simp only [disconnectCommand] at h
  split at h
  · cases h
  rename_i registry loaded hload
  split at h
  · cases h
  · cases h
  rename_i index hfound
  split at h
  · cases h
  rename_i target hget
  rw [← Except.ok.inj h]
  refine leaves_saved hload ?_
  unfold disconnected
  cases name with
  | some selector =>
    have hfound : findTargetIndexByAddr texts registry selector = .ok (some index) := hfound
    simp only [hfound, hget]
  | none =>
    have hfound : primaryTargetIndex registry = some index := Except.ok.inj hfound
    simp only [hfound, hget]

/-- **What two commands leave that share the registry file.** -/
theorem shared_commands {p q : SharedCommand} {schedule : List Prog.Side} {file after : RegistryFile}
    (h : Prog.Interleaved Prog.registerStep schedule (p.prog texts debug) (q.prog texts debug) file after) :
    ((after = q.leaves texts debug (p.leaves texts debug file) ∨ after = p.leaves texts debug (q.leaves texts debug file)) ∨
      (after = p.leaves texts debug file ∨ after = q.leaves texts debug file)) ∧
      (Prog.Apart schedule → after = q.leaves texts debug (p.leaves texts debug file) ∨
        after = p.leaves texts debug (q.leaves texts debug file)) := by
  refine ⟨?_, fun hapart => Prog.interleaved_apart h hapart⟩
  rcases prog_cases texts debug p with ⟨err, hp⟩ | ⟨p', hp⟩
  · rw [hp] at h
    exact Or.inr (Or.inr (Prog.interleaved_ended h trivial))
  · rcases prog_cases texts debug q with ⟨err, hq⟩ | ⟨q', hq⟩
    · rw [hq] at h
      exact Or.inr (Or.inl (Prog.interleaved_ended h.swap trivial))
    · unfold SharedCommand.leaves
      rw [hp, hq] at h ⊢
      simp only [Prog.run_onePass]
      rcases Prog.interleaved_onePass h with h | h
      · rcases changePasses h with h | h | h
        · exact Or.inl (Or.inl h)
        · exact Or.inr (Or.inl h)
        · exact Or.inr (Or.inr h)
      · rcases changePasses h with h | h | h
        · exact Or.inl (Or.inr h)
        · exact Or.inr (Or.inr h)
        · exact Or.inr (Or.inl h)

end

/-! ### A lost target -/

/-- The addresses a load finds. -/
def savedAddrs (file : RegistryFile) : List Str :=
  match loadRegistry file with
  | .ok (registry, _) => registry.targets.map StoredTarget.addr
  | .error _ => []

/-- The same devices are saved. -/
def SameAddrs (file file' : RegistryFile) : Prop := ∀ addr, addr ∈ savedAddrs file ↔ addr ∈ savedAddrs file'

/-- A connect to a host that answers the ping. -/
def connectTo (addr : Str) : SharedCommand := .connect addr none none (.ok (.pong (str "device") 1))

/-- Both commands read before either one writes. -/
def bothRead : List Prog.Side := [.left, .right, .left, .right]

theorem connects_bothRead : Prog.Interleaved Prog.registerStep bothRead
    ((connectTo (str "a:1")).prog hostNames ControlResponse.json)
    ((connectTo (str "b:1")).prog hostNames ControlResponse.json) .absent
    (.holds ⟨[⟨str "b-1", str "b:1"⟩], some (str "b:1")⟩) :=
  .left (.right (.left (.right (.ended trivial trivial))))

theorem shared_commands_connects :
    Prog.Interleaved Prog.registerStep bothRead ((connectTo (str "a:1")).prog hostNames ControlResponse.json)
        ((connectTo (str "b:1")).prog hostNames ControlResponse.json) .absent
        (.holds ⟨[⟨str "b-1", str "b:1"⟩], some (str "b:1")⟩) ∧
      RegistryFile.holds ⟨[⟨str "b-1", str "b:1"⟩], some (str "b:1")⟩ =
        (connectTo (str "b:1")).leaves hostNames ControlResponse.json .absent := by
  refine ⟨connects_bothRead, ?_⟩
  have h := (shared_commands hostNames ControlResponse.json connects_bothRead).1
  rcases h with (h | h) | (h | h)
  · exact absurd h (by decide)
  · exact absurd h (by decide)
  · exact absurd h (by decide)
  · exact h

/-- **A saved target is lost.** Two connects that both read the file before either
writes it leave one address; in either order they would leave two. -/
theorem connect_lost :
    ¬ ∀ (texts : AddrTexts) (debug : ControlResponse → Str) (p q : SharedCommand) (schedule : List Prog.Side)
      (file after : RegistryFile),
      Prog.Interleaved Prog.registerStep schedule (p.prog texts debug) (q.prog texts debug) file after →
        SameAddrs after (q.leaves texts debug (p.leaves texts debug file)) ∨
          SameAddrs after (p.leaves texts debug (q.leaves texts debug file)) := by
  intro h
  rcases h _ _ _ _ _ _ _ connects_bothRead with h | h
  · exact absurd ((h (str "a:1")).mpr (by decide)) (by decide)
  · exact absurd ((h (str "a:1")).mpr (by decide)) (by decide)

end Client

end Rsdb
