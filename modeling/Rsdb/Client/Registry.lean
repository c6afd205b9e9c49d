/-
# The saved targets

`connect` and `disconnect` load the registry file, change the saved targets and
write the file back; every load and every save normalises the registry. What a
command leaves is therefore always well formed (`Registry.Valid`), whatever the
file was.

The current target is compared with addresses and, for the sake of old files,
with names. A disconnect compares it with the name of the target it removes, and
when that name happens to be the address of the primary target, the primary
target changes though another one was removed. `registry_lawful_iff` says that
this is the only way a run breaks the law of the registry.

How a text is parsed as an IP or socket address, and printed again, is a
parameter (`AddrTexts`).
-/
import Rsdb.Proto.Control
import Mathlib.Data.List.Nodup

namespace Rsdb

namespace Client

/-- A saved device. -/
structure StoredTarget where
  name : Str
  addr : Str
  deriving DecidableEq

/-- The saved devices, and the one that was chosen last. -/
structure Registry where
  targets : List StoredTarget
  currentTarget : Option Str
  deriving DecidableEq

/-- The registry file: absent, one that cannot be read or parsed, or a registry. -/
inductive RegistryFile where
  | absent
  | unreadable (err : AnyhowError)
  | holds (registry : Registry)
  deriving DecidableEq

/-! ### Addresses and names -/

/-- What `std::net` makes of a text. -/
structure AddrTexts where
  /-- The socket address it is, printed. -/
  socketAddr : Str → Option Str
  /-- The IP address it is, with the default port, printed. -/
  ipAddr : Str → Option Str

/-- The port of an address that names none. -/
def defaultRsdbPort : ℕ := 27101

/-- An ASCII digit. -/
def isDigit (b : UInt8) : Bool := 48 ≤ b && b ≤ 57

/-- `parse::<u16>`: a sign `+` may stand before the digits. -/
def parseU16 (text : Str) : Option ℕ :=
  let digits := if text.head? = some 43 then text.tail else text
  let value := digits.foldl (fun n b => 10 * n + (b.toNat - 48)) 0
  if digits ≠ [] ∧ digits.all isDigit = true ∧ value < 2 ^ 16 then some value else none

/-- `rsplit_once(':')`. -/
def rsplitColon (value : Str) : Option (Str × Str) :=
  match value.reverse.findIdx? (· = 58) with
  | none => none
  | some i => some (value.take (value.length - i - 1), value.drop (value.length - i))

/-- The text ends in a port, with something before it. -/
def hasPortSuffix (value : Str) : Bool :=
  match rsplitColon value with
  | none => false
  | some (host, port) => host ≠ [] && (parseU16 port).isSome

/-- Every character that is not an ASCII letter or digit becomes a dash. -/
def defaultName (addr : Str) : Str :=
  (addr.filter fun b => b < 0x80 || 0xC0 ≤ b).map fun b =>
    if isDigit b || (97 ≤ b && b ≤ 122) || (65 ≤ b && b ≤ 90) then b else 45

/-- The name was made from the address. -/
def isLegacyAutoName (name addr : Str) : Bool := name = defaultName addr

namespace AddrTexts

variable (texts : AddrTexts)

/-- What both normalisations begin with. -/
def known (value : Str) : Option Str :=
  match texts.socketAddr value with
  | some addr => some addr
  | none =>
    match texts.ipAddr value with
    | some addr => some addr
    | none => if hasPortSuffix value then some value else none

/-- The address `connect` goes to; the default port is added where there is none. -/
def normalizeConnectAddr (value : Str) : Str :=
  match texts.known value with
  | some addr => addr
  | none => value ++ str ":" ++ decimal defaultRsdbPort

/-- The address of a saved device, which has to be one. -/
def normalizeTargetAddr (value : Str) : Except AnyhowError Str :=
  match texts.known value with
  | some addr => .ok addr
  | none => .error (.bail (str "target must be an address like <ip> or <ip>:<port>"))

end AddrTexts

/-! ### The registry -/

/-- The device that commands go to: the current one by its address or its name, else the last
one. -/
def primaryTargetIndex (registry : Registry) : Option ℕ :=
  let named := match registry.currentTarget with
    | none => none
    | some currentTarget =>
      match registry.targets.findIdx? fun entry => entry.addr = currentTarget with
      | some index => some index
      | none => registry.targets.findIdx? fun entry => entry.name = currentTarget
  match named with
  | some index => some index
  | none => if registry.targets.length = 0 then none else some (registry.targets.length - 1)

/-- The device itself. -/
def primaryTarget (registry : Registry) : Option StoredTarget :=
  (primaryTargetIndex registry).bind fun index => registry.targets[index]?

/-- One target of `normalize_registry`: an earlier one with its address goes. -/
def dedupPush (deduped : List StoredTarget) (target : StoredTarget) : List StoredTarget :=
  match deduped.findIdx? fun entry => entry.addr = target.addr with
  | some index => deduped.eraseIdx index ++ [target]
  | none => deduped ++ [target]

/-- Each address once, and the current device by its address. -/
def normalizeRegistry (registry : Registry) : Registry :=
  let currentAddr := (primaryTarget registry).map StoredTarget.addr
  let deduped := registry.targets.foldl dedupPush []
  let kept := currentAddr.filter fun addr => deduped.any fun target => target.addr = addr
  ⟨deduped, match kept with
    | some addr => some addr
    | none => deduped.getLast?.map StoredTarget.addr⟩

/-- The registry, and the file after a load: the normalised registry is written
back where it differs. -/
def loadRegistry : RegistryFile → Except AnyhowError (Registry × RegistryFile)
  | .absent => .ok (⟨[], none⟩, .absent)
  | .unreadable err => .error err
  | .holds registry =>
    let normalized := normalizeRegistry registry
    .ok (normalized, if normalized ≠ registry then .holds normalized else .holds registry)

/-- A registry is normalised when it is saved. -/
def saveRegistry (registry : Registry) : RegistryFile := .holds (normalizeRegistry registry)

section Commands

variable (texts : AddrTexts) (debug : ControlResponse → Str)

/-- A saved device by the address that is typed. -/
def findTargetIndexByAddr (registry : Registry) (selector : Str) : Except AnyhowError (Option ℕ) :=
  match texts.normalizeTargetAddr selector with
  | .error err => .error err
  | .ok normalized => .ok (registry.targets.findIdx? fun target => target.addr = normalized)

/-- The name a target is saved under. -/
def connectName (addr : Str) (requestedName discovered : Option Str) (registry : Registry) : Str :=
  match requestedName with
  | some name => name
  | none =>
    match (registry.targets.find? fun target => target.addr = addr).filter
        fun target => !isLegacyAutoName target.name addr with
    | some target => target.name
    | none =>
      match discovered.filter fun deviceName => !isBlank deviceName with
      | some deviceName => deviceName
      | none => defaultName addr

/-- `connect_command`: `discovered` is the device name the discovery found, and
`response` what the daemon answered to the ping. -/
def connectCommand (addr : Str) (requestedName discovered : Option Str)
    (response : Except AnyhowError ControlResponse) (file : RegistryFile) : Except AnyhowError RegistryFile :=
  let addr := texts.normalizeConnectAddr addr
  match response with
  | .error err => .error err
  | .ok (.pong _ _) =>
    match loadRegistry file with
    | .error err => .error err
    | .ok (registry, _) =>
      let name := connectName addr requestedName discovered registry
      .ok (saveRegistry ⟨(registry.targets.filter fun target => target.addr ≠ addr) ++ [⟨name, addr⟩], some addr⟩)
  | .ok other => .error (.bail (str "unexpected response from daemon: " ++ debug other))

/-- There is nothing to disconnect. -/
def noSavedTargets : AnyhowError := .bail (str "no saved targets; use `rsdb connect <addr>` first")

/-- `disconnect`: a device, or the one commands go to, is forgotten. -/
def disconnectCommand (name : Option Str) (file : RegistryFile) : Except AnyhowError RegistryFile :=
  match loadRegistry file with
  | .error err => .error err
  | .ok (registry, _) =>
    let found := match name with
      | some selector => findTargetIndexByAddr texts registry selector
      | none => .ok (primaryTargetIndex registry)
    match found with
    | .error err => .error err
    | .ok none => .error noSavedTargets
    | .ok (some index) =>
      match registry.targets[index]? with
      | none => .error noSavedTargets
      | some target =>
        let targets := registry.targets.eraseIdx index
        .ok (saveRegistry ⟨targets,
          if targets = [] then none
          else if registry.currentTarget = some target.addr ∨ registry.currentTarget = some target.name then
            targets.getLast?.map StoredTarget.addr
          else registry.currentTarget⟩)

end Commands

/-! ### What a load or a save leaves -/

/-- The saved addresses are distinct, and the current target is one of them if
there is one. -/
structure Registry.Valid (registry : Registry) : Prop where
  distinct : (registry.targets.map StoredTarget.addr).Nodup
  current : registry.targets ≠ [] → ∃ target ∈ registry.targets, registry.currentTarget = some target.addr
  empty : registry.targets = [] → registry.currentTarget = none

theorem findIdx?_addr {targets : List StoredTarget} {addr : Str} {index : ℕ}
    (h : targets.findIdx? (fun entry => decide (entry.addr = addr)) = some index) :
    ∃ target, targets[index]? = some target ∧ target.addr = addr := by
  obtain ⟨hlt, haddr, -⟩ := List.findIdx?_eq_some_iff_getElem.mp h
  exact ⟨targets[index], List.getElem?_eq_getElem hlt, by simpa using haddr⟩

/-- Saved addresses are distinct: the target at an index is the one with its address. -/
theorem eraseIdx_eq_filter : ∀ {targets : List StoredTarget} {index : ℕ} {target : StoredTarget},
    (targets.map StoredTarget.addr).Nodup → targets[index]? = some target →
      targets.eraseIdx index = targets.filter fun t => t.addr ≠ target.addr
  | [], _, _, _, h => by simp at h
  | t :: ts, 0, target, hnodup, h => by
    obtain rfl : t = target := by simpa using h
    have hout : ∀ u ∈ ts, u.addr ≠ t.addr := fun u hu he =>
      (List.nodup_cons.mp hnodup).1 (he ▸ List.mem_map_of_mem hu)
    rw [List.eraseIdx_cons_zero, List.filter_cons_of_neg (by simp), List.filter_eq_self.mpr]
    exact fun u hu => decide_eq_true (hout u hu)
  | t :: ts, index + 1, target, hnodup, h => by
    rw [List.map_cons, List.nodup_cons] at hnodup
    have hget : ts[index]? = some target := by simpa using h
    have hne : t.addr ≠ target.addr := fun he =>
      hnodup.1 (he ▸ List.mem_map_of_mem (List.mem_of_getElem? hget))
    rw [List.eraseIdx_cons_succ, eraseIdx_eq_filter hnodup.2 hget, List.filter_cons_of_pos (by simpa using hne)]

/-- The targets without those of an address, and a target with it: what a
`dedupPush` and a connect make. -/
def replaced (targets : List StoredTarget) (target : StoredTarget) : List StoredTarget :=
  (targets.filter fun t => t.addr ≠ target.addr) ++ [target]

theorem replaced_distinct {targets : List StoredTarget} (h : (targets.map StoredTarget.addr).Nodup)
    (target : StoredTarget) : ((replaced targets target).map StoredTarget.addr).Nodup := by
  have hkept : ((targets.filter fun t => t.addr ≠ target.addr).map StoredTarget.addr).Nodup :=
    h.sublist ((List.filter_sublist).map _)
  rw [replaced, List.map_append, List.map_singleton, ← List.concat_eq_append]
  refine hkept.concat fun hmem => ?_
  obtain ⟨t, ht, haddr⟩ := List.mem_map.mp hmem
  exact (of_decide_eq_true (List.mem_filter.mp ht).2) haddr

theorem replaced_of_fresh {targets : List StoredTarget} {target : StoredTarget}
    (h : target.addr ∉ targets.map StoredTarget.addr) : replaced targets target = targets ++ [target] := by
  rw [replaced, List.filter_eq_self.mpr]
  exact fun t ht => decide_eq_true fun he => h (he ▸ List.mem_map_of_mem ht)

theorem dedupPush_eq {deduped : List StoredTarget} (h : (deduped.map StoredTarget.addr).Nodup)
    (target : StoredTarget) : dedupPush deduped target = replaced deduped target := by
  rw [dedupPush, replaced]
  cases hfind : deduped.findIdx? fun entry => decide (entry.addr = target.addr) with
  | none =>
    have hout := List.findIdx?_eq_none_iff.mp hfind
    rw [List.filter_eq_self.mpr fun t ht => by simpa using hout t ht]
  | some index =>
    obtain ⟨entry, hget, haddr⟩ := findIdx?_addr hfind
    show deduped.eraseIdx index ++ [target] = _
    rw [eraseIdx_eq_filter h hget, haddr]

theorem deduped_distinct : ∀ (targets deduped : List StoredTarget), (deduped.map StoredTarget.addr).Nodup →
    ((targets.foldl dedupPush deduped).map StoredTarget.addr).Nodup
  | [], _, h => h
  | target :: targets, deduped, h => by
    rw [List.foldl_cons, dedupPush_eq h]
    exact deduped_distinct targets _ (replaced_distinct h target)

theorem deduped_of_distinct : ∀ (targets deduped : List StoredTarget),
    ((deduped ++ targets).map StoredTarget.addr).Nodup → targets.foldl dedupPush deduped = deduped ++ targets
  | [], deduped, _ => by simp
  | target :: targets, deduped, h => by
    have hsplit : ((deduped ++ [target] ++ targets).map StoredTarget.addr).Nodup := by simpa using h
    have hpush : ((deduped ++ [target]).map StoredTarget.addr).Nodup :=
      h.sublist ((by simp : (deduped ++ [target]).Sublist (deduped ++ target :: targets)).map _)
    rw [List.map_append, List.map_singleton] at hpush
    have hfresh : target.addr ∉ deduped.map StoredTarget.addr := by
      have := List.disjoint_of_nodup_append hpush
      exact fun hmem => this hmem (by simp)
    rw [List.foldl_cons, dedupPush_eq (List.Nodup.of_append_left hpush), replaced_of_fresh hfresh,
      deduped_of_distinct targets _ hsplit]
    simp

theorem normalizeRegistry_valid (registry : Registry) : (normalizeRegistry registry).Valid where
  distinct := deduped_distinct registry.targets [] (by simp)
  current := by
    intro hne
    simp only [normalizeRegistry] at hne ⊢
    set deduped := registry.targets.foldl dedupPush []
    split
    · rename_i addr hkept
      have hany := (Option.filter_eq_some_iff.mp hkept).2
      obtain ⟨target, hmem, haddr⟩ := List.any_eq_true.mp hany
      exact ⟨target, hmem, congrArg some (of_decide_eq_true haddr).symm⟩
    · exact ⟨deduped.getLast hne, List.getLast_mem hne, by rw [List.getLast?_eq_some_getLast hne]; rfl⟩
  empty := by
    intro hnil
    simp only [normalizeRegistry] at hnil ⊢
    rw [hnil]
    simp

namespace Registry.Valid

variable {registry : Registry} (h : registry.Valid)

include h

theorem primaryTarget_eq {target : StoredTarget} (hmem : target ∈ registry.targets)
    (hcurrent : registry.currentTarget = some target.addr) : primaryTarget registry = some target := by
  rw [primaryTarget, primaryTargetIndex, hcurrent]
  cases hfind : registry.targets.findIdx? fun entry => decide (entry.addr = target.addr) with
  | none =>
    have hne := List.findIdx?_eq_none_iff.mp hfind target hmem
    simp at hne
  | some index =>
    obtain ⟨entry, hget, haddr⟩ := findIdx?_addr hfind
    have heq : entry = target := List.inj_on_of_nodup_map h.distinct (List.mem_of_getElem? hget) hmem haddr
    simp only [hfind, Option.bind_some]
    rw [hget, heq]

theorem normalizeRegistry_eq : normalizeRegistry registry = registry := by
  have hdeduped : registry.targets.foldl dedupPush [] = registry.targets :=
    deduped_of_distinct registry.targets [] h.distinct
  by_cases hnil : registry.targets = []
  · rcases registry with ⟨targets, currentTarget⟩
    obtain rfl : targets = [] := hnil
    obtain rfl : currentTarget = none := h.empty rfl
    rfl
  · obtain ⟨target, hmem, hcurrent⟩ := h.current hnil
    have hany : registry.targets.any (fun t => decide (t.addr = target.addr)) = true :=
      List.any_eq_true.mpr ⟨target, hmem, by simp⟩
    rw [normalizeRegistry, h.primaryTarget_eq hmem hcurrent, hdeduped, Option.map_some, Option.filter_some,
      if_pos hany]
    rcases registry with ⟨targets, currentTarget⟩
    obtain rfl : currentTarget = some target.addr := hcurrent
    rfl

theorem of_primaryTarget {target : StoredTarget} (hprimary : primaryTarget registry = some target) :
    target ∈ registry.targets ∧ registry.currentTarget = some target.addr := by
  obtain ⟨index, -, hget⟩ := Option.bind_eq_some_iff.mp hprimary
  obtain ⟨u, hmem, hcurrent⟩ := h.current (List.ne_nil_of_mem (List.mem_of_getElem? hget))
  obtain rfl : u = target := Option.some.inj ((h.primaryTarget_eq hmem hcurrent).symm.trans hprimary)
  exact ⟨hmem, hcurrent⟩

omit h in
theorem empty_registry : Registry.Valid ⟨[], none⟩ := ⟨by simp, fun h => absurd rfl h, fun _ => rfl⟩

end Registry.Valid

/-- What a command works on is well formed. -/
theorem loadRegistry_valid {file file' : RegistryFile} {registry : Registry}
    (h : loadRegistry file = .ok (registry, file')) : registry.Valid := by
  cases file with
  | absent =>
    obtain ⟨rfl, -⟩ : _ ∧ _ := by simpa [loadRegistry] using h
    exact .empty_registry
  | unreadable err => simp [loadRegistry] at h
  | holds stored =>
    obtain ⟨rfl, -⟩ : _ ∧ _ := by simpa [loadRegistry] using h
    exact normalizeRegistry_valid stored

theorem saveRegistry_of_valid {registry : Registry} (h : registry.Valid) : saveRegistry registry = .holds registry := by
  rw [saveRegistry, h.normalizeRegistry_eq]

/-! ### What the commands leave -/

section

variable (texts : AddrTexts) (debug : ControlResponse → Str)

theorem connectCommand_eq {addr : Str} {requestedName discovered : Option Str}
    {response : Except AnyhowError ControlResponse} {file after : RegistryFile}
    (h : connectCommand texts debug addr requestedName discovered response file = .ok after) :
    ∃ before file' target, loadRegistry file = .ok (before, file') ∧
      target.addr = texts.normalizeConnectAddr addr ∧
      after = .holds ⟨replaced before.targets target, some target.addr⟩ := by
  simp only [connectCommand] at h
  split at h
  · cases h
  · split at h
    · cases h
    · rename_i before file' hload
      set target : StoredTarget := ⟨connectName (texts.normalizeConnectAddr addr) requestedName discovered before,
        texts.normalizeConnectAddr addr⟩ with htarget
      refine ⟨before, file', target, hload, rfl, ?_⟩
      rw [← Except.ok.inj h]
      refine saveRegistry_of_valid ⟨?_, fun _ => ?_, fun hnil => ?_⟩
      · exact replaced_distinct (loadRegistry_valid hload).distinct target
      · exact ⟨_, List.mem_append_right _ (List.mem_singleton_self _), rfl⟩
      · simp at hnil
  · cases h

/-- The target a disconnect is about. -/
def Selects (registry : Registry) (name : Option Str) (target : StoredTarget) : Prop :=
  target ∈ registry.targets ∧
    match name with
    | some selector => texts.normalizeTargetAddr selector = .ok target.addr
    | none => primaryTarget registry = some target

/-- The registry a disconnect saves. -/
def withoutTarget (registry : Registry) (target : StoredTarget) : Registry :=
  let targets := registry.targets.filter fun t => t ≠ target
  ⟨targets,
    if targets = [] then none
    else if registry.currentTarget = some target.addr ∨ registry.currentTarget = some target.name then
      targets.getLast?.map StoredTarget.addr
    else registry.currentTarget⟩

theorem withoutTarget_valid {registry : Registry} (h : registry.Valid) (target : StoredTarget) :
    (withoutTarget registry target).Valid where
  distinct := h.distinct.sublist (List.filter_sublist.map _)
  current := by
    intro hne
    simp only [withoutTarget] at hne ⊢
    rw [if_neg hne]
    split
    · exact ⟨_, List.getLast_mem hne, by rw [List.getLast?_eq_some_getLast hne]; rfl⟩
    · rename_i hother
      have hsome : registry.targets ≠ [] := fun hnil => hne (by rw [hnil, List.filter_nil])
      obtain ⟨u, hmem, hcurrent⟩ := h.current hsome
      refine ⟨u, List.mem_filter.mpr ⟨hmem, decide_eq_true fun he => ?_⟩, hcurrent⟩
      exact hother (Or.inl (he ▸ hcurrent))
  empty := fun hnil => if_pos hnil

theorem disconnectCommand_eq {name : Option Str} {file after : RegistryFile}
    (h : disconnectCommand texts name file = .ok after) :
    ∃ before file' target, loadRegistry file = .ok (before, file') ∧ Selects texts before name target ∧
      after = .holds (withoutTarget before target) := by
  simp only [disconnectCommand] at h
  split at h
  · cases h
  rename_i before file' hload
  split at h
  · cases h
  · cases h
  rename_i index hfound
  split at h
  · cases h
  rename_i target hget
  have hvalid := loadRegistry_valid hload
  have herase : before.targets.eraseIdx index = before.targets.filter fun t => t ≠ target := by
    rw [eraseIdx_eq_filter hvalid.distinct hget]
    refine List.filter_congr fun t ht => decide_eq_decide.mpr (not_congr ⟨fun he => ?_, fun he => he ▸ rfl⟩)
    exact List.inj_on_of_nodup_map hvalid.distinct ht (List.mem_of_getElem? hget) he
  refine ⟨before, file', target, hload, ⟨List.mem_of_getElem? hget, ?_⟩, ?_⟩
  · cases name with
    | some selector =>
      simp only [findTargetIndexByAddr] at hfound
      split at hfound
      · cases hfound
      · rename_i addr hnormal
        obtain ⟨u, hu, haddr⟩ := findIdx?_addr (Except.ok.inj hfound)
        obtain rfl : u = target := Option.some.inj (hu.symm.trans hget)
        exact haddr ▸ hnormal
    | none =>
      show primaryTarget before = some target
      rw [primaryTarget, Except.ok.inj hfound, Option.bind_some, hget]
  · rw [← Except.ok.inj h, herase]
    exact saveRegistry_of_valid (withoutTarget_valid hvalid target)

theorem Selects.unique {registry : Registry} (h : registry.Valid) {name : Option Str} {t u : StoredTarget}
    (ht : Selects texts registry name t) (hu : Selects texts registry name u) : t = u := by
  obtain ⟨htmem, ht⟩ := ht
  obtain ⟨humem, hu⟩ := hu
  cases name with
  | none => exact Option.some.inj (ht.symm.trans hu)
  | some selector => exact List.inj_on_of_nodup_map h.distinct htmem humem (Except.ok.inj (ht.symm.trans hu))

/-- The primary target after another one was removed. -/
theorem primaryTarget_withoutTarget {registry : Registry} (h : registry.Valid) {target primary : StoredTarget}
    (hmem : target ∈ registry.targets) (hprimary : primaryTarget registry = some primary) (hne : target ≠ primary) :
    primaryTarget (withoutTarget registry target) = some primary ↔
      (target.name = primary.addr → (registry.targets.filter fun t => t ≠ target).getLast? = some primary) := by
  obtain ⟨hpmem, hcurrent⟩ := h.of_primaryTarget hprimary
  have hvalid := withoutTarget_valid h target
  have hkept : primary ∈ registry.targets.filter fun t => t ≠ target :=
    List.mem_filter.mpr ⟨hpmem, decide_eq_true hne.symm⟩
  have haddr : primary.addr ≠ target.addr := fun he =>
    hne (List.inj_on_of_nodup_map h.distinct hmem hpmem he.symm)
  have hcurrent' : (withoutTarget registry target).currentTarget =
      if target.name = primary.addr then
        (registry.targets.filter fun t => t ≠ target).getLast?.map StoredTarget.addr
      else some primary.addr := by
    have hnamed : (some primary.addr = some target.addr ∨ some primary.addr = some target.name) ↔
        target.name = primary.addr := by
      rw [Option.some.injEq, Option.some.injEq, or_iff_right haddr, eq_comm]
    simp only [withoutTarget, if_neg (List.ne_nil_of_mem hkept), hcurrent, hnamed]
  by_cases hname : target.name = primary.addr
  · rw [if_pos hname] at hcurrent'
    refine ⟨fun hp _ => ?_, fun hlast => ?_⟩
    · have hsame := (hvalid.of_primaryTarget hp).2
      rw [hcurrent'] at hsame
      obtain ⟨last, hlast, hlastaddr⟩ := Option.map_eq_some_iff.mp hsame
      have hlmem := List.mem_of_getLast? hlast
      rw [hlast, List.inj_on_of_nodup_map hvalid.distinct hlmem hkept hlastaddr]
    · exact hvalid.primaryTarget_eq hkept (by rw [hcurrent', hlast hname, Option.map_some])
  · rw [if_neg hname] at hcurrent'
    exact ⟨fun _ h => absurd h hname, fun _ => hvalid.primaryTarget_eq hkept hcurrent'⟩

end

/-! ### Runs of commands -/

/-- A command that changes the registry, with what the network answers it. -/
inductive Command where
  | connect (addr : Str) (requestedName discovered : Option Str) (response : Except AnyhowError ControlResponse)
  | disconnect (name : Option Str)

section

variable (texts : AddrTexts) (debug : ControlResponse → Str)

/-- What a command makes of the file. -/
def Command.exec : Command → RegistryFile → Except AnyhowError RegistryFile
  | connect addr requestedName discovered response =>
    connectCommand texts debug addr requestedName discovered response
  | disconnect name => disconnectCommand texts name

/-- The commands one after the other, up to the first that fails. -/
def runCommands : List Command → RegistryFile → Except AnyhowError RegistryFile
  | [], file => .ok file
  | command :: commands, file =>
    match command.exec texts debug file with
    | .ok file => runCommands commands file
    | .error err => .error err

/-- Somewhere in the run of `commands` from `file`, a command succeeds. -/
def Takes (file : RegistryFile) (commands : List Command) (before : RegistryFile) (command : Command)
    (after : RegistryFile) : Prop :=
  ∃ earlier later, commands = earlier ++ command :: later ∧ runCommands texts debug earlier file = .ok before ∧
    command.exec texts debug before = .ok after

/-- What a command should do to the saved targets. -/
structure Law (before : Registry) (command : Command) (after : Registry) : Prop where
  valid : after.Valid
  connected : ∀ addr requestedName discovered response,
    command = .connect addr requestedName discovered response →
      (primaryTarget after).map StoredTarget.addr = some (texts.normalizeConnectAddr addr)
  disconnected : ∀ name, command = .disconnect name → ∃ target, Selects texts before name target ∧
    after.targets = before.targets.filter (fun t => t ≠ target) ∧
    (primaryTarget before ≠ some target → primaryTarget after = primaryTarget before)

/-- The command works on the registry it loads, and the law holds of what it saves. -/
def Lawful (before : RegistryFile) (command : Command) (after : RegistryFile) : Prop :=
  ∃ loaded file saved, loadRegistry before = .ok (loaded, file) ∧ after = .holds saved ∧
    Law texts loaded command saved

/-- A target other than the primary one that is removed is not named like the
address of the primary one, unless that is the last one left. -/
def Harmless (before : RegistryFile) (command : Command) : Prop :=
  ∀ loaded file name target primary, loadRegistry before = .ok (loaded, file) → command = .disconnect name →
    Selects texts loaded name target → primaryTarget loaded = some primary → target ≠ primary →
      target.name = primary.addr → (loaded.targets.filter fun t => t ≠ target).getLast? = some primary

theorem lawful_connect {addr : Str} {requestedName discovered : Option Str}
    {response : Except AnyhowError ControlResponse} {before after : RegistryFile}
    (h : connectCommand texts debug addr requestedName discovered response before = .ok after) :
    Lawful texts before (.connect addr requestedName discovered response) after := by
  obtain ⟨loaded, file, target, hload, haddr, rfl⟩ := connectCommand_eq texts debug h
  have hmem : target ∈ replaced loaded.targets target := List.mem_append_right _ (List.mem_singleton_self _)
  have hvalid : Registry.Valid ⟨replaced loaded.targets target, some target.addr⟩ :=
    ⟨replaced_distinct (loadRegistry_valid hload).distinct target, fun _ => ⟨target, hmem, rfl⟩,
      fun hnil => absurd hnil (List.ne_nil_of_mem hmem)⟩
  refine ⟨loaded, file, _, hload, rfl, hvalid, ?_, fun name h => by cases h⟩
  rintro _ _ _ _ ⟨⟩
  rw [hvalid.primaryTarget_eq hmem rfl, Option.map_some, haddr]

theorem lawful_disconnect_iff {name : Option Str} {before after : RegistryFile}
    (h : disconnectCommand texts name before = .ok after) :
    Lawful texts before (.disconnect name) after ↔ Harmless texts before (.disconnect name) := by
  obtain ⟨loaded, file, target, hload, hselects, rfl⟩ := disconnectCommand_eq texts h
  have hvalid := loadRegistry_valid hload
  constructor
  · rintro ⟨loaded', file', saved, hload', hsaved, hlaw⟩ loaded'' file'' name' target' primary hload'' hname hselects'
      hprimary hne hnamed
    obtain ⟨rfl, rfl⟩ := Prod.mk.inj (Except.ok.inj (hload'.symm.trans hload))
    obtain ⟨rfl, rfl⟩ := Prod.mk.inj (Except.ok.inj (hload''.symm.trans hload))
    obtain rfl := RegistryFile.holds.inj hsaved
    obtain rfl := Command.disconnect.inj hname
    obtain rfl := hselects'.unique texts hvalid hselects
    obtain ⟨removed, hremoved, -, hprimary'⟩ := hlaw.disconnected name rfl
    obtain rfl := hremoved.unique texts hvalid hselects
    refine (primaryTarget_withoutTarget hvalid hselects.1 hprimary hne).mp ?_ hnamed
    rw [hprimary' (by rw [hprimary]; exact fun he => hne (Option.some.inj he).symm), hprimary]
  · intro hharmless
    refine ⟨loaded, file, _, hload, rfl, withoutTarget_valid hvalid target, (fun _ _ _ _ h => by cases h), ?_⟩
    rintro _ ⟨⟩
    refine ⟨target, hselects, rfl, fun hother => ?_⟩
    obtain ⟨primary, hmem, hcurrent⟩ := hvalid.current (List.ne_nil_of_mem hselects.1)
    have hprimary := hvalid.primaryTarget_eq hmem hcurrent
    have hne : target ≠ primary := fun he => hother (he ▸ hprimary)
    rw [hprimary]
    exact (primaryTarget_withoutTarget hvalid hselects.1 hprimary hne).mpr
      (hharmless loaded file name target primary hload rfl hselects hprimary hne)

theorem lawful_iff {command : Command} {before after : RegistryFile}
    (hexec : command.exec texts debug before = .ok after) :
    Lawful texts before command after ↔ Harmless texts before command := by
  cases command with
  | connect addr requestedName discovered response =>
    refine iff_of_true (lawful_connect texts debug hexec) ?_
    rintro _ _ _ _ _ _ ⟨⟩
  | disconnect name => exact lawful_disconnect_iff texts hexec

/-- **The registry keeps its law, but for a name.** From any registry file and
for any commands, every successful command leaves distinct addresses and a
current target among them, a connect makes its address the primary target, and a
disconnect removes the selected target alone and leaves the primary target what
it was, if and only if no disconnect in the run removes a target that is not the
primary one and has the primary one's address for its name, unless the primary
target is the last of those left. -/
theorem registry_lawful_iff (file : RegistryFile) (commands : List Command) :
    (∀ before command after, Takes texts debug file commands before command after →
      Lawful texts before command after) ↔
    (∀ before command after, Takes texts debug file commands before command after →
      Harmless texts before command) := by
  have hstep : ∀ before command after, Takes texts debug file commands before command after →
      (Lawful texts before command after ↔ Harmless texts before command) := by
    rintro before command after ⟨earlier, later, -, -, hexec⟩
    exact lawful_iff texts debug hexec
  exact forall_congr' fun before => forall_congr' fun command => forall_congr' fun after =>
    forall_congr' fun htakes => hstep before command after htakes

end

/-! ### Runs from no file

Only a file written by something else has a primary target that is not the last
one: the commands keep it last, and no run that starts without a file breaks the
law. -/

theorem getLast?_filter_ne {targets : List StoredTarget} {last target : StoredTarget}
    (hlast : targets.getLast? = some last) (hne : last ≠ target) :
    (targets.filter fun t => t ≠ target).getLast? = some last := by
  obtain ⟨init, rfl⟩ := List.getLast?_eq_some_iff.mp hlast
  rw [List.filter_append, List.filter_cons_of_pos (by simpa using hne)]
  simp

/-- The primary target is the last one saved. -/
def Registry.PrimaryLast (registry : Registry) : Prop :=
  registry.currentTarget = registry.targets.getLast?.map StoredTarget.addr

theorem primaryLast_withoutTarget {registry : Registry} (h : registry.PrimaryLast) (target : StoredTarget) :
    (withoutTarget registry target).PrimaryLast := by
  rw [Registry.PrimaryLast]
  simp only [withoutTarget]
  split
  · rename_i hnil
    rw [hnil]
    rfl
  · split
    · rfl
    · rename_i hne hother
      rw [h] at hother ⊢
      cases hlast : registry.targets.getLast? with
      | none => exact absurd (by rw [List.getLast?_eq_none_iff.mp hlast, List.filter_nil]) hne
      | some last =>
        have hkept : last ≠ target := fun he => hother (Or.inl (by rw [hlast, he]; rfl))
        rw [getLast?_filter_ne hlast hkept]

/-- A file the commands have written: well formed, and the primary target last. -/
def RegistryFile.Grown : RegistryFile → Prop
  | .absent => True
  | .unreadable _ => False
  | .holds registry => registry.Valid ∧ registry.PrimaryLast

theorem RegistryFile.Grown.load {file file' : RegistryFile} {registry : Registry} (h : file.Grown)
    (hload : loadRegistry file = .ok (registry, file')) : registry.PrimaryLast := by
  cases file with
  | absent =>
    obtain ⟨rfl, -⟩ := Prod.mk.inj (Except.ok.inj hload)
    rfl
  | unreadable err => exact h.elim
  | holds stored =>
    obtain ⟨rfl, -⟩ := Prod.mk.inj (Except.ok.inj hload)
    rw [h.1.normalizeRegistry_eq]
    exact h.2

section

variable (texts : AddrTexts) (debug : ControlResponse → Str)

theorem Command.exec_grown {command : Command} {before after : RegistryFile} (h : before.Grown)
    (hexec : command.exec texts debug before = .ok after) : after.Grown := by
  cases command with
  | connect addr requestedName discovered response =>
    obtain ⟨loaded, file, target, hload, -, rfl⟩ := connectCommand_eq texts debug hexec
    obtain ⟨_, _, saved, -, hsaved, hlaw⟩ := lawful_connect texts debug hexec
    obtain rfl := RegistryFile.holds.inj hsaved
    exact ⟨hlaw.valid, by simp [Registry.PrimaryLast, replaced]⟩
  | disconnect name =>
    obtain ⟨loaded, file, target, hload, -, rfl⟩ := disconnectCommand_eq texts hexec
    exact ⟨withoutTarget_valid (loadRegistry_valid hload) target, primaryLast_withoutTarget (h.load hload) target⟩

theorem runCommands_grown : ∀ (commands : List Command) {file after : RegistryFile}, file.Grown →
    runCommands texts debug commands file = .ok after → after.Grown
  | [], _, _, h, hrun => Except.ok.inj hrun ▸ h
  | command :: commands, file, after, h, hrun => by
    rw [runCommands] at hrun
    split at hrun
    · rename_i next hexec
      exact runCommands_grown commands (command.exec_grown texts debug h hexec) hrun
    · cases hrun

theorem harmless_of_grown {before : RegistryFile} (h : before.Grown) (command : Command) :
    Harmless texts before command := by
  intro loaded file name target primary hload _ _ hprimary hne _
  have hvalid := loadRegistry_valid hload
  obtain ⟨hmem, hcurrent⟩ := hvalid.of_primaryTarget hprimary
  obtain ⟨last, hlast, haddr⟩ := Option.map_eq_some_iff.mp ((h.load hload).symm.trans hcurrent)
  obtain rfl : last = primary := List.inj_on_of_nodup_map hvalid.distinct (List.mem_of_getLast? hlast) hmem haddr
  exact getLast?_filter_ne hlast hne.symm

/-- **A registry the commands have made themselves keeps its law.** -/
theorem registry_lawful_from_absent (commands : List Command) {before after : RegistryFile} {command : Command}
    (h : Takes texts debug .absent commands before command after) : Lawful texts before command after := by
  obtain ⟨earlier, later, -, hrun, hexec⟩ := h
  have habsent : RegistryFile.absent.Grown := trivial
  have hgrown := runCommands_grown texts debug earlier habsent hrun
  exact (lawful_iff texts debug hexec).mpr (harmless_of_grown texts hgrown command)

end

/-- Host names: no text is an IP or socket address. -/
def hostNames : AddrTexts := ⟨fun _ => none, fun _ => none⟩

/-- Three targets; the primary one is the first, and the second has its address
for a name. -/
def namedLikePrimary : Registry :=
  ⟨[⟨str "one", str "a:1"⟩, ⟨str "a:1", str "b:1"⟩, ⟨str "three", str "c:1"⟩], some (str "a:1")⟩

/-- Disconnecting the second target makes the third the primary one. -/
theorem registry_loses_primary :
    ¬ ∀ before command after, Takes hostNames ControlResponse.json (.holds namedLikePrimary)
      [.disconnect (some (str "b:1"))] before command after → Lawful hostNames before command after := by
  intro h
  have hafter : disconnectCommand hostNames (some (str "b:1")) (.holds namedLikePrimary) =
      .ok (.holds ⟨[⟨str "one", str "a:1"⟩, ⟨str "three", str "c:1"⟩], some (str "c:1")⟩) := rfl
  obtain ⟨loaded, file, saved, hload, hsaved, hlaw⟩ := h _ _ _ ⟨[], [], rfl, rfl, hafter⟩
  obtain ⟨rfl, -⟩ := Prod.mk.inj (Except.ok.inj hload)
  obtain rfl := RegistryFile.holds.inj hsaved
  obtain ⟨target, ⟨-, hselects⟩, -, hprimary⟩ := hlaw.disconnected _ rfl
  have haddr : str "b:1" = target.addr := Except.ok.inj hselects
  have hone : primaryTarget (normalizeRegistry namedLikePrimary) = some ⟨str "one", str "a:1"⟩ := by decide
  rw [hone] at hprimary
  have hne : some (⟨str "one", str "a:1"⟩ : StoredTarget) ≠ some target := by
    rintro ⟨⟩
    exact absurd haddr (by decide)
  exact absurd (hprimary hne) (by decide)

end Client

end Rsdb
