/-
# Completing a remote path

While a path of the device is typed, the client splits it at its last slash
(`split_remote_completion_input`), has the daemon list what is before it, and
makes each name that starts with what is after it a candidate
(`join_remote_completion_candidate`).

What is joined again is what was typed, unless that is `./` or `//` and one
segment, or ends in two slashes (`Rejoined`): then no candidate starts with it
(`not_typed_of_not_rejoined`). And a path that is no directory is listed as
itself. So completion extends what was typed but for these cases
(`complete_remote_edit_path_iff`).
-/
import Mathlib.Data.List.Destutter
import Mathlib.Data.List.DropRight
import Rsdb.Client.TransferState

namespace Rsdb

open Os (SameTree ownerRead ownerSearch)
open Prog (run run_bind_ok wp wp_bind wp_call wp_mono wp_iff_run wp_attempt)
open Daemon (FsEnv FsListing listed sorted)

namespace Client

/-! ### The parts of what was typed -/

/-- `rsplit_once` at a slash. -/
def rsplitSlash : Str → Option (Str × Str)
  | [] => none
  | b :: s =>
    match rsplitSlash s with
    | some (before, after) => some (b :: before, after)
    | none => if b = slashByte then some ([], s) else none

/-- Without the slashes at its end, of which the root keeps one. -/
def trimTrailingSlashPreservingRoot (value : Str) : Str :=
  let trimmed := value.rdropWhile (· = slashByte)
  if trimmed = [] then [slashByte] else trimmed

/-- What is to be listed, and what the names in it start with. -/
def splitRemoteCompletionInput (typed : Str) : Str × Str :=
  if typed = [] then (dotName, [])
  else if typed = [slashByte] then ([slashByte], [])
  else if typed.getLast? = some slashByte then (trimTrailingSlashPreservingRoot typed, [])
  else
    match rsplitSlash typed with
    | some (parent, segment) => (if parent = [] then [slashByte] else parent, segment)
    | none => (dotName, typed)

/-- The name after what was typed before it. -/
def joinRemoteCompletionCandidate (parent name : Str) : Str :=
  if parent = dotName then name
  else if parent = [slashByte] then slashByte :: name
  else parent ++ slashByte :: name

example : splitRemoteCompletionInput (str "/tmp/rs") = (str "/tmp", str "rs") := by decide
example : splitRemoteCompletionInput (str "/tmp/work/") = (str "/tmp/work", []) := by decide

/-- All up to the last slash. -/
def typedDirectory (typed : Str) : Str := typed.rdropWhile (· ≠ slashByte)

/-- What comes after it. -/
def typedSegment (typed : Str) : Str := typed.rtakeWhile (· ≠ slashByte)

theorem typedDirectory_append_typedSegment (typed : Str) : typedDirectory typed ++ typedSegment typed = typed :=
  List.rdropWhile_append_rtakeWhile

/-- A path without a slash, or with a last one. -/
theorem slash_cases (typed : Str) :
    slashByte ∉ typed ∨ ∃ before after, typed = before ++ slashByte :: after ∧ slashByte ∉ after := by
  induction typed with
  | nil => exact Or.inl List.not_mem_nil
  | cons b s ih =>
    rcases ih with hno | ⟨before, after, rfl, hafter⟩
    · by_cases hb : b = slashByte
      · exact Or.inr ⟨[], s, by rw [hb]; rfl, hno⟩
      · refine Or.inl fun hmem => ?_
        rcases List.mem_cons.mp hmem with heq | hmem
        · exact hb heq.symm
        · exact hno hmem
    · exact Or.inr ⟨b :: before, after, rfl, hafter⟩

theorem rsplitSlash_of_not_mem {s : Str} (h : slashByte ∉ s) : rsplitSlash s = none := by
  induction s with
  | nil => rfl
  | cons b s ih =>
    rw [rsplitSlash, ih fun hmem => h (List.mem_cons_of_mem b hmem)]
    exact if_neg fun hb : b = slashByte => h (hb ▸ List.mem_cons_self)

theorem rsplitSlash_append (before : Str) {after : Str} (h : slashByte ∉ after) :
    rsplitSlash (before ++ slashByte :: after) = some (before, after) := by
  induction before with
  | nil =>
    rw [List.nil_append, rsplitSlash, rsplitSlash_of_not_mem h]
    exact if_pos rfl
  | cons b before ih => rw [List.cons_append, rsplitSlash, ih]

theorem typedSegment_of_not_mem {s : Str} (h : slashByte ∉ s) : typedSegment s = s :=
  List.rtakeWhile_eq_self_iff.mpr fun _ hb => decide_eq_true fun heq => h (heq ▸ hb)

theorem typedSegment_append (before : Str) {after : Str} (h : slashByte ∉ after) :
    typedSegment (before ++ slashByte :: after) = after := by
  have hstop : after.reverse.takeWhile (fun b => decide (b ≠ slashByte)) = after.reverse :=
    List.takeWhile_eq_self_iff.mpr fun _ hb => decide_eq_true fun heq => h (heq ▸ List.mem_reverse.mp hb)
  have hreverse : (before ++ slashByte :: after).reverse = after.reverse ++ slashByte :: before.reverse := by simp
  rw [typedSegment, List.rtakeWhile, hreverse, List.takeWhile_append, hstop, if_pos rfl]
  simp

theorem typedDirectory_of_not_mem {s : Str} (h : slashByte ∉ s) : typedDirectory s = [] := by
  have happend := typedDirectory_append_typedSegment s
  rw [typedSegment_of_not_mem h] at happend
  exact List.append_left_eq_self.mp happend

theorem typedDirectory_append (before : Str) {after : Str} (h : slashByte ∉ after) :
    typedDirectory (before ++ slashByte :: after) = before ++ [slashByte] := by
  have happend := typedDirectory_append_typedSegment (before ++ slashByte :: after)
  rw [typedSegment_append before h] at happend
  have hassoc : before ++ slashByte :: after = before ++ [slashByte] ++ after := List.append_cons before slashByte after
  exact List.append_cancel_right (happend.trans hassoc)

theorem getLast?_append_segment (before : Str) {after : Str} (hne : after ≠ []) :
    (before ++ slashByte :: after).getLast? = after.getLast? := by
  rw [List.append_cons, List.getLast?_append, List.getLast?_eq_some_getLast hne, Option.some_or]

/-! ### What is joined again -/

/-- A path that its parts are joined to again: it does not end in two slashes,
and is not one segment after `./` or `//`. -/
def Rejoined (typed : Str) : Prop :=
  ¬ [slashByte, slashByte] <:+ typed ∧
    ∀ segment, slashByte ∉ segment → typed ≠ dotName ++ slashByte :: segment ∧ typed ≠ [slashByte, slashByte] ++ segment

theorem rejoined_of_not_mem {s : Str} (h : slashByte ∉ s) : Rejoined s := by
  refine ⟨fun hsuffix => h (hsuffix.subset List.mem_cons_self), fun segment _ => ⟨?_, ?_⟩⟩
  · rintro rfl
    simp at h
  · rintro rfl
    simp at h

theorem rejoined_append_iff (before : Str) {after : Str} (h : slashByte ∉ after) :
    Rejoined (before ++ slashByte :: after) ↔
      ¬ (after = [] ∧ [slashByte] <:+ before) ∧ before ≠ dotName ∧ before ≠ [slashByte] := by
  have hlast : [slashByte, slashByte] <:+ before ++ slashByte :: after ↔ after = [] ∧ [slashByte] <:+ before := by
    constructor
    · rintro ⟨s, hs⟩
      by_cases hnil : after = []
      · subst hnil
        rw [show s ++ [slashByte, slashByte] = (s ++ [slashByte]) ++ [slashByte] by simp] at hs
        exact ⟨rfl, s, List.append_cancel_right hs⟩
      · have hlast := congrArg List.getLast? hs
        rw [getLast?_append_segment before hnil, List.getLast?_append] at hlast
        exact absurd (List.mem_of_getLast? hlast.symm) h
    · rintro ⟨rfl, s, rfl⟩
      exact ⟨s, by simp⟩
  have hparts : ∀ first segment : Str, slashByte ∉ segment →
      (before ++ slashByte :: after = first ++ slashByte :: segment ↔ before = first ∧ after = segment) := by
    intro first segment hsegment
    constructor
    · intro heq
      have hsplit := congrArg rsplitSlash heq
      rw [rsplitSlash_append before h, rsplitSlash_append first hsegment] at hsplit
      exact Prod.mk.inj (Option.some.inj hsplit)
    · rintro ⟨rfl, rfl⟩
      rfl
  rw [Rejoined, hlast]
  refine and_congr_right fun _ => ⟨fun hkept => ?_, fun ⟨hdot, hroot⟩ segment hsegment => ⟨fun heq => ?_, fun heq => ?_⟩⟩
  · obtain ⟨hdot, hroot⟩ := hkept after h
    refine ⟨?_, ?_⟩
    · rintro rfl
      exact hdot rfl
    · rintro rfl
      exact hroot rfl
  · exact hdot ((hparts dotName segment hsegment).mp heq).1
  · exact hroot ((hparts [slashByte] segment hsegment).mp heq).1

theorem splitRemoteCompletionInput_of_not_mem {s : Str} (h : slashByte ∉ s) :
    splitRemoteCompletionInput s = (dotName, s) := by
  unfold splitRemoteCompletionInput
  by_cases hnil : s = []
  · rw [if_pos hnil, hnil]
  · have hroot : s ≠ [slashByte] := by
      rintro rfl
      simp at h
    have hlast : s.getLast? ≠ some slashByte := fun hlast => h (List.mem_of_getLast? hlast)
    rw [if_neg hnil, if_neg hroot, if_neg hlast, rsplitSlash_of_not_mem h]

/-- With nothing after the last slash, all slashes at the end are cut off. -/
theorem splitRemoteCompletionInput_slash (before : Str) :
    splitRemoteCompletionInput (before ++ [slashByte]) =
      (trimTrailingSlashPreservingRoot before, []) := by
  have htrim : trimTrailingSlashPreservingRoot (before ++ [slashByte]) = trimTrailingSlashPreservingRoot before := by
    unfold trimTrailingSlashPreservingRoot
    rw [List.rdropWhile_concat_pos _ _ _ (by simp)]
  unfold splitRemoteCompletionInput
  rw [if_neg (by simp)]
  by_cases hroot : before = []
  · subst hroot
    rfl
  · rw [if_neg (by simp [hroot]), if_pos (by simp), htrim]

theorem splitRemoteCompletionInput_append (before : Str) {after : Str} (h : slashByte ∉ after) (hne : after ≠ []) :
    splitRemoteCompletionInput (before ++ slashByte :: after) =
      (if before = [] then [slashByte] else before, after) := by
  have hlast : (before ++ slashByte :: after).getLast? ≠ some slashByte := by
    rw [getLast?_append_segment before hne]
    exact fun heq => h (List.mem_of_getLast? heq)
  unfold splitRemoteCompletionInput
  rw [if_neg (by simp), if_neg fun heq => hlast (by rw [heq]; rfl), if_neg hlast, rsplitSlash_append before h]

/-- What is looked for is the last segment. -/
theorem splitRemoteCompletionInput_segment (typed : Str) :
    (splitRemoteCompletionInput typed).2 = typedSegment typed := by
  rcases slash_cases typed with hno | ⟨before, after, rfl, hafter⟩
  · rw [splitRemoteCompletionInput_of_not_mem hno, typedSegment_of_not_mem hno]
  · rw [typedSegment_append before hafter]
    by_cases hnil : after = []
    · subst hnil
      rw [splitRemoteCompletionInput_slash]
    · rw [splitRemoteCompletionInput_append before hafter hnil]

/-- Nothing is cut off where no slash is at the end. -/
theorem trimTrailingSlashPreservingRoot_of_not_suffix {before : Str} (h : ¬ [slashByte] <:+ before) :
    trimTrailingSlashPreservingRoot before = if before = [] then [slashByte] else before := by
  have htrim : before.rdropWhile (fun b => decide (b = slashByte)) = before := by
    refine List.rdropWhile_eq_self_iff.mpr fun hne hlast => h ⟨before.dropLast, ?_⟩
    rw [← of_decide_eq_true hlast]
    exact List.dropLast_append_getLast hne
  unfold trimTrailingSlashPreservingRoot
  rw [htrim]

theorem joinRemoteCompletionCandidate_directory {before : Str} (hdot : before ≠ dotName) (hroot : before ≠ [slashByte])
    (name : Str) :
    joinRemoteCompletionCandidate (if before = [] then [slashByte] else before) name = before ++ slashByte :: name := by
  unfold joinRemoteCompletionCandidate
  by_cases hnil : before = []
  · subst hnil
    rfl
  · rw [if_neg hnil, if_neg hdot, if_neg hroot]

/-- **What was typed is kept.** A candidate is the directory that was typed and
a name. -/
theorem joinRemoteCompletionCandidate_of_rejoined {typed : Str} (h : Rejoined typed) (name : Str) :
    joinRemoteCompletionCandidate (splitRemoteCompletionInput typed).1 name = typedDirectory typed ++ name := by
  rcases slash_cases typed with hno | ⟨before, after, rfl, hafter⟩
  · rw [splitRemoteCompletionInput_of_not_mem hno, typedDirectory_of_not_mem hno]
    rfl
  · obtain ⟨hlast, hdot, hroot⟩ := (rejoined_append_iff before hafter).mp h
    have hparent : (splitRemoteCompletionInput (before ++ slashByte :: after)).1 =
        if before = [] then [slashByte] else before := by
      by_cases hnil : after = []
      · subst hnil
        rw [splitRemoteCompletionInput_slash,
          trimTrailingSlashPreservingRoot_of_not_suffix fun hsuffix => hlast ⟨rfl, hsuffix⟩]
      · rw [splitRemoteCompletionInput_append before hafter hnil]
    rw [hparent, joinRemoteCompletionCandidate_directory hdot hroot, typedDirectory_append before hafter]
    simp

/-- A name does not begin with a slash, -/
theorem not_slash_isPrefix_name (n : Name) (w rest : Str) : ¬ slashByte :: w <+: n.1 ++ rest := by
  obtain ⟨hne, hslash, -, -⟩ := n.2
  obtain ⟨b, name, hname⟩ := List.exists_cons_of_ne_nil hne
  rw [hname, List.cons_append, List.cons_prefix_cons]
  rintro ⟨rfl, -⟩
  exact hslash (hname ▸ List.mem_cons_self)

/-- nor with a dot and a slash. -/
theorem not_dot_slash_isPrefix_name (n : Name) (w rest : Str) : ¬ dotName ++ slashByte :: w <+: n.1 ++ rest := by
  obtain ⟨hne, hslash, hdot, -⟩ := n.2
  obtain ⟨b, name, hname⟩ := List.exists_cons_of_ne_nil hne
  rw [hname, List.cons_append]
  intro hstart
  obtain ⟨rfl, htail⟩ := List.cons_prefix_cons.mp hstart
  cases name with
  | nil => exact hdot hname
  | cons c name =>
    obtain ⟨rfl, -⟩ := List.cons_prefix_cons.mp htail
    exact hslash (hname ▸ List.mem_cons_of_mem _ List.mem_cons_self)

/-- A candidate has one slash behind its directory, and no `./` before it. -/
theorem not_isPrefix_candidate {t w : Str} (h : t = dotName ∨ w.head? = some slashByte) (n : Name) (rest : Str) :
    ¬ t ++ slashByte :: w <+: joinRemoteCompletionCandidate (if t = [] then [slashByte] else t) n.1 ++ rest := by
  by_cases hdot : t = dotName
  · subst hdot
    exact not_dot_slash_isPrefix_name n w rest
  · obtain ⟨w, rfl⟩ : ∃ u, w = slashByte :: u := List.head?_eq_some_iff.mp (h.resolve_left hdot)
    by_cases hroot : t = [slashByte]
    · subst hroot
      intro hstart
      exact not_slash_isPrefix_name n (slashByte :: w) rest (List.cons_prefix_cons.mp hstart).2
    · rw [joinRemoteCompletionCandidate_directory hdot hroot, List.append_assoc, List.prefix_append_right_inj]
      intro hstart
      exact not_slash_isPrefix_name n w rest (List.cons_prefix_cons.mp hstart).2

/-- **What was typed is lost.** No candidate starts with it. -/
theorem not_typed_of_not_rejoined {typed : Str} (h : ¬ Rejoined typed) (n : Name) (rest : Str) :
    ¬ typed <+: joinRemoteCompletionCandidate (splitRemoteCompletionInput typed).1 n.1 ++ rest := by
  rcases slash_cases typed with hno | ⟨before, after, rfl, hafter⟩
  · exact absurd (rejoined_of_not_mem hno) h
  · by_cases hlast : after = [] ∧ [slashByte] <:+ before
    · obtain ⟨rfl, hsuffix⟩ := hlast
      have hcut : before.rdropWhile (fun b => decide (b = slashByte)) ++
          before.rtakeWhile (fun b => decide (b = slashByte)) = before := List.rdropWhile_append_rtakeWhile
      have hslashes : ∀ b ∈ before.rtakeWhile (fun b => decide (b = slashByte)), b = slashByte := fun b hb => by
        simpa using List.mem_rtakeWhile_imp hb
      have hne : before.rtakeWhile (fun b => decide (b = slashByte)) ≠ [] := by
        obtain ⟨init, rfl⟩ := hsuffix
        rw [List.rtakeWhile_concat_pos _ _ _ (by simp)]
        simp
      obtain ⟨b, slashes, htail⟩ := List.exists_cons_of_ne_nil hne
      have hhead : b = slashByte := hslashes b (htail ▸ List.mem_cons_self)
      have htyped : before ++ [slashByte] =
          before.rdropWhile (fun b => decide (b = slashByte)) ++ slashByte :: (slashes ++ [slashByte]) := by
        conv_lhs => rw [← hcut, htail, hhead]
        simp
      have hfirst : (slashes ++ [slashByte]).head? = some slashByte := by
        cases slashes with
        | nil => rfl
        | cons c slashes => exact congrArg some (hslashes c (htail ▸ List.mem_cons_of_mem b List.mem_cons_self))
      rw [splitRemoteCompletionInput_slash, htyped]
      exact not_isPrefix_candidate (Or.inr hfirst) n rest
    · have hspecial : before = dotName ∨ before = [slashByte] := by
        by_contra hneither
        obtain ⟨hdot, hroot⟩ := not_or.mp hneither
        exact h ((rejoined_append_iff before hafter).mpr ⟨hlast, hdot, hroot⟩)
      have hparent : (splitRemoteCompletionInput (before ++ slashByte :: after)).1 = before := by
        by_cases hnil : after = []
        · subst hnil
          rw [splitRemoteCompletionInput_slash]
          rcases hspecial with rfl | rfl <;> rfl
        · rw [splitRemoteCompletionInput_append before hafter hnil]
          rcases hspecial with rfl | rfl <;> rfl
      rw [hparent]
      rcases hspecial with rfl | rfl
      · exact @not_isPrefix_candidate dotName after (Or.inl rfl) n rest
      · exact @not_isPrefix_candidate [] (slashByte :: after) (Or.inr rfl) n rest

/-! ### The candidates -/

/-- The candidate of an entry, if its name starts with what was typed. -/
def completionCandidate (parent segment : Str) (entry : AgentFsListEntry) : Option Str := do
  let name ← (Path.ofStr entry.path).fileName
  if isUtf8 name.1 = true ∧ segment <+: name.1 then
    some (joinRemoteCompletionCandidate parent name.1 ++ if entry.kind = .directory then [slashByte] else [])
  else none

/-- The children of one directory, the hidden ones too. -/
def completionListing : FsListing := ⟨false, none, true, none⟩

section

variable (env : FsEnv) (codec : Codec)

/-- `request`: what the daemon does for the request, and its answer. -/
def requestDaemon (request : ControlRequest) (operation : Act ControlResponse) : Act ControlResponse :=
  match writeJsonFrame ([] : Bytes) .request clientRequestId (codec.request request) with
  | (.error err, _) => .fail (err.context (str "failed to send request"))
  | (.ok (), _) => do
    let result ← operation.attempt
    pure (Daemon.fsAnswer codec.response result)

/-- What is missing has no entries. -/
def remoteFsListCompletion (path : Str) : Act (List AgentFsListEntry) := do
  match ← requestDaemon codec (.fsList path false none true none)
    (Daemon.responding (Daemon.handleFsList env path completionListing) .fsList) with
  | .fsList entries => pure entries
  | .error .fsNotFound _ | .error .notFound _ => pure []
  | .error code message => .fail (remoteControlError code message)
  | other => .fail (unexpectedResponse codec other)

/-- Byte by byte. -/
def Bytewise (a b : Str) : Prop := a.map UInt8.toNat ≤ b.map UInt8.toNat

instance : DecidableRel Bytewise := fun a b => by unfold Bytewise; infer_instance
instance : Std.Total Bytewise := ⟨fun a b => le_total (a.map UInt8.toNat) (b.map UInt8.toNat)⟩
instance : IsTrans Str Bytewise := ⟨fun _ _ _ hab hbc => le_trans hab hbc⟩
instance : Std.Antisymm Bytewise :=
  ⟨fun _ _ hab hba => List.map_injective_iff.mpr (fun _ _ => UInt8.toNat_inj.mp) (le_antisymm hab hba)⟩

/-- `sort` and `dedup`. -/
def sortDedup (results : List Str) : List Str := (results.insertionSort Bytewise).destutter (· ≠ ·)

theorem sortDedup_eq (results : List Str) : sortDedup results = (results.insertionSort Bytewise).dedup :=
  (List.pairwise_insertionSort Bytewise results).destutter_eq_dedup

theorem mem_sortDedup {results : List Str} {s : Str} : s ∈ sortDedup results ↔ s ∈ results := by
  rw [sortDedup_eq, List.mem_dedup, List.mem_insertionSort]

theorem nodup_sortDedup (results : List Str) : (sortDedup results).Nodup := by
  rw [sortDedup_eq]
  exact List.nodup_dedup _

/-- What a typed path can be completed to. -/
def completeRemoteEditPath (typed : Str) : Act (List Str) := do
  let parts := splitRemoteCompletionInput typed
  let entries ← remoteFsListCompletion env codec parts.1
  pure (sortDedup (entries.filterMap (completionCandidate parts.1 parts.2)))

end

/-! ### What is listed -/

/-- What a listing has at a path: the children of a directory, and anything else itself. -/
def Listed (os : Os) (parent : Str) (n : Name) (obj : Obj) : Prop :=
  match os.lookup false (.ofStr parent) with
  | .ok (dir, .inr _) => os.view (dir ++ [n]) = some obj
  | .ok (_, .inl leaf) => (Path.ofStr parent).fileName = some n ∧ obj = .inl leaf
  | .error _ => False

/-- The candidate of what is listed under a name. -/
def candidateOf (parent : Str) (n : Name) (obj : Obj) : Str :=
  joinRemoteCompletionCandidate parent n.1 ++ if obj.kind = .directory then [slashByte] else []

section

variable {env : FsEnv} {codec : Codec} {os t : Os} {parent segment : Str} {l : Loc} {mode : ℕ} {leaf : Leaf}

theorem listed_directory (h : os.lookup false (.ofStr parent) = .ok (l, .inr mode)) (n : Name) (obj : Obj) :
    Listed os parent n obj ↔ os.view (l ++ [n]) = some obj := by
  rw [Listed, h]

theorem listed_leaf (h : os.lookup false (.ofStr parent) = .ok (l, .inl leaf)) (n : Name) (obj : Obj) :
    Listed os parent n obj ↔ (Path.ofStr parent).fileName = some n ∧ obj = .inl leaf := by
  rw [Listed, h]

theorem not_listed_of_error {e : IoErrorKind} (h : os.lookup false (.ofStr parent) = .error e) (n : Name) (obj : Obj) :
    ¬ Listed os parent n obj := by
  rw [Listed, h]
  exact not_false

theorem Listed.unique {n : Name} {obj obj' : Obj} (h : Listed os parent n obj) (h' : Listed os parent n obj') :
    obj = obj' := by
  rcases hp : os.lookup false (.ofStr parent) with e | ⟨l, leaf | mode⟩
  · exact absurd h (not_listed_of_error hp n obj)
  · rw [listed_leaf hp] at h h'
    exact h.2.trans h'.2.symm
  · rw [listed_directory hp] at h h'
    exact Option.some.inj (h.symm.trans h')

/-- The candidate of an entry of a path that ends in a name. -/
theorem completionCandidate_eq_some {entry : AgentFsListEntry} {n : Name} {obj : Obj}
    (hname : (Path.ofStr entry.path).fileName = some n) (hkind : entry.kind = obj.kind)
    (htext : isUtf8 n.1 = true) (candidate : Str) :
    completionCandidate parent segment entry = some candidate ↔ segment <+: n.1 ∧ candidate = candidateOf parent n obj := by
  simp only [completionCandidate, hname, hkind, htext, true_and, Option.bind_eq_bind, Option.bind_some,
    Option.ite_none_right_eq_some, Option.some.injEq, candidateOf]
  exact and_congr_right fun _ => eq_comm

/-! ### What the daemon answers -/

/-- The entries of a directory, or an error that is not that something is missing. -/
theorem wp_collectChildren_flat {p : Path} {collect : Path → ℕ → Act (List AgentFsListEntry)} {depth : ℕ}
    (hp : os.lookup true p = .ok (l, .inr mode)) :
    ∀ {names : List Name}, (∀ n ∈ names, ∃ obj, os.view (l ++ [n]) = some obj) →
      wp Os.step (fun entries _ => ∀ entry, entry ∈ entries ↔
          ∃ n ∈ names, ∃ obj, os.view (l ++ [n]) = some obj ∧ entry = listed env completionListing os p l ([n], obj))
        (fun err _ => err.hasIoErrorKind .notFound = false)
        (Daemon.collectChildren env completionListing collect p depth names) os
  | [], _ => fun entry => by simp
  | n :: names, hmem => by
    obtain ⟨obj, hv⟩ := hmem n List.mem_cons_self
    have ih : wp Os.step _ _ (Daemon.collectChildren env completionListing collect p depth names) os :=
      wp_collectChildren_flat hp fun m hm => hmem m (List.mem_cons_of_mem n hm)
    rw [Daemon.collectChildren, if_neg (by simp [completionListing])]
    show wp Os.step _ _ (.call (.lstat (p.push n)) _) os
    rw [wp_call, Os.step_lstat]
    cases hsearch : os.may mode ownerSearch with
    | false =>
      rw [Os.lookup_push_denied hp hsearch]
      rfl
    | true =>
      rw [Os.lookup_push hp hsearch hv]
      show wp Os.step _ _ (Daemon.collectChildren env completionListing collect p depth names >>= fun rest =>
        Prog.pure (listed env completionListing os p l ([n], obj) :: [] ++ rest)) os
      rw [wp_bind]
      refine wp_mono (fun rest _ hrest entry => ?_) ih
      have hself : (∃ obj', os.view (l ++ [n]) = some obj' ∧ entry = listed env completionListing os p l ([n], obj')) ↔
          entry = listed env completionListing os p l ([n], obj) := by simp [hv]
      simp only [List.cons_append, List.nil_append, List.mem_cons, hrest entry, exists_eq_or_imp, hself]

/-- What a listing has of a directory. -/
theorem wp_handleFsList_directory (hp : os.lookup false (.ofStr parent) = .ok (l, .inr mode)) :
    wp Os.step (fun entries _ => ∀ entry, entry ∈ entries ↔
        ∃ n obj, os.view (l ++ [n]) = some obj ∧ entry = listed env completionListing os (.ofStr parent) l ([n], obj))
      (fun err _ => err.hasIoErrorKind .notFound = false) (Daemon.handleFsList env parent completionListing) os := by
  have hfollow := Os.lookup_of_dir hp
  rw [Daemon.handleFsList, validateFsPath_of_lookup hp, Prog.ofExcept_ok, Prog.pure_bind]
  show wp Os.step _ _ (.call (.lstat (.ofStr parent)) _) os
  rw [wp_call, Os.step_lstat, hp]
  show wp Os.step _ _ (Daemon.collectFsEntries env completionListing env.depth (.ofStr parent) 0) os
  cases env.depth with
  | zero => rfl
  | succ levels =>
    show wp Os.step _ _ (.call (.readDir (.ofStr parent)) _) os
    rw [wp_call]
    cases hread : os.may mode ownerRead with
    | false =>
      rw [Os.step_readDir_denied hfollow hread]
      rfl
    | true =>
      obtain ⟨names, hanswer, -, hmem⟩ := Os.step_readDir hfollow hread
      rw [hanswer]
      show wp Os.step _ _ (Daemon.collectChildren env completionListing
        (Daemon.collectFsEntries env completionListing levels) (.ofStr parent) 0 (sorted names)) os
      have hsorted : ∀ n, n ∈ sorted names ↔ ∃ obj, os.view (l ++ [n]) = some obj := fun n => by
        rw [sorted, List.mem_insertionSort, hmem]
      refine wp_mono (fun entries _ hentries entry => ?_)
        (wp_collectChildren_flat hfollow fun n hn => (hsorted n).mp hn)
      rw [hentries entry]
      constructor
      · rintro ⟨n, -, obj, hv, heq⟩
        exact ⟨n, obj, hv, heq⟩
      · rintro ⟨n, obj, hv, heq⟩
        exact ⟨n, (hsorted n).mpr ⟨obj, hv⟩, obj, hv, heq⟩

/-- Anything else is listed itself. -/
theorem run_handleFsList_leaf (hp : os.lookup false (.ofStr parent) = .ok (l, .inl leaf)) :
    run Os.step (Daemon.handleFsList env parent completionListing) os =
      (.ok [listed env completionListing os (.ofStr parent) l ([], .inl leaf)], os) := by
  have hno : (os.metadata l (.inl leaf)).isDir = false := by cases leaf <;> rfl
  rw [Daemon.handleFsList, validateFsPath_of_lookup hp, Prog.ofExcept_ok, Prog.pure_bind]
  show run Os.step (.call (.lstat (.ofStr parent)) _) os = _
  rw [Prog.run_call, Os.step_lstat, hp]
  show run Os.step (if (os.metadata l (.inl leaf)).isDir then _ else _) os = _
  rw [hno, if_neg Bool.false_ne_true, listed, List.append_nil]
  rfl

theorem run_handleFsList_error {e : IoErrorKind} (hp : os.lookup false (.ofStr parent) = .error e) :
    ∃ err, run Os.step (Daemon.handleFsList env parent completionListing) os = (.error err, os) := by
  by_cases hempty : parent = []
  · subst hempty
    exact ⟨_, rfl⟩
  · have hvalid : Daemon.validateFsPath parent = .ok (.ofStr parent) := if_neg hempty
    rw [Daemon.handleFsList, hvalid, Prog.ofExcept_ok, Prog.pure_bind]
    show ∃ err, run Os.step (.call (.lstat (.ofStr parent)) _) os = _
    rw [Prog.run_call, Os.step_lstat, hp]
    exact ⟨_, rfl⟩

/-- The name of what is listed below a path. -/
theorem fileName_listed {p : Path} (htext : p.IsText) (k : Loc) (obj : Obj)
    (hk : ∀ n ∈ k, isUtf8 n.1 = true) :
    (Path.ofStr (listed env completionListing os p l (k, obj)).path).fileName = (k.foldl Path.push p).fileName := by
  have hpath : (listed env completionListing os p l (k, obj)).path = (k.foldl Path.push p).display :=
    utf8Lossy_of_isUtf8 (Path.isUtf8_display (htext.foldl_push hk))
  rw [hpath, Path.ofStr_display]

theorem isUtf8_fileName {p : Path} (htext : p.IsText) {n : Name} (h : p.fileName = some n) : isUtf8 n.1 = true := by
  unfold Path.fileName at h
  split at h
  · rename_i name hlast
    cases h
    exact htext.name (List.mem_of_getLast? hlast)
  · cases h

/-- The candidates are those of what is listed. -/
theorem candidates_of_handleFsList {entries : List AgentFsListEntry} (htext : isUtf8 parent = true)
    (hnames : ∀ l mode, os.lookup false (.ofStr parent) = .ok (l, .inr mode) →
      ∀ n obj, os.view (l ++ [n]) = some obj → isUtf8 n.1 = true)
    (hrun : run Os.step (Daemon.handleFsList env parent completionListing) os = (.ok entries, t)) (candidate : Str) :
    (∃ entry ∈ entries, completionCandidate parent segment entry = some candidate) ↔
      ∃ n obj, Listed os parent n obj ∧ segment <+: n.1 ∧ candidate = candidateOf parent n obj := by
  have hparent := Path.isText_ofStr htext
  rcases hp : os.lookup false (.ofStr parent) with e | ⟨l, leaf | mode⟩
  · obtain ⟨err, herr⟩ := @run_handleFsList_error env os parent e hp
    rw [herr] at hrun
    cases hrun
  · rw [run_handleFsList_leaf hp] at hrun
    obtain ⟨hentries, -⟩ := Prod.mk.inj hrun
    obtain rfl := Except.ok.inj hentries
    have hname := @fileName_listed env os l _ hparent [] (.inl leaf) (by simp)
    simp only [listed_leaf hp, List.mem_singleton, exists_eq_left]
    cases hfile : (Path.ofStr parent).fileName with
    | none =>
      rw [List.foldl_nil, hfile] at hname
      simp [completionCandidate, hname]
    | some n =>
      rw [List.foldl_nil, hfile] at hname
      rw [completionCandidate_eq_some hname rfl (isUtf8_fileName hparent hfile)]
      simp
  · have hentries := (wp_iff_run.mp (wp_handleFsList_directory hp)).1 entries t hrun
    simp only [listed_directory hp, hentries]
    have hcandidate : ∀ n obj, os.view (l ++ [n]) = some obj →
        (completionCandidate parent segment (listed env completionListing os (.ofStr parent) l ([n], obj)) = some candidate ↔
          segment <+: n.1 ∧ candidate = candidateOf parent n obj) := by
      intro n obj hv
      have hutf8 := hnames l mode hp n obj hv
      have hname := @fileName_listed env os l _ hparent [n] obj (by simpa using hutf8)
      exact completionCandidate_eq_some (hname.trans (Path.push_fileName _ n)) rfl hutf8 candidate
    constructor
    · rintro ⟨entry, ⟨n, obj, hv, rfl⟩, hsome⟩
      exact ⟨n, obj, hv, (hcandidate n obj hv).mp hsome⟩
    · rintro ⟨n, obj, hv, hrest⟩
      exact ⟨_, ⟨n, obj, hv, rfl⟩, (hcandidate n obj hv).mpr hrest⟩

/-! ### What is returned -/

theorem classifyFsError_of_missing {err : AnyhowError}
    (h : Daemon.classifyFsError err = .fsNotFound ∨ Daemon.classifyFsError err = .notFound) :
    err.hasIoErrorKind .notFound = true := by
  unfold Daemon.classifyFsError at h
  split_ifs at h <;> simp_all

/-- Nothing is listed of a path of which the daemon says that it is missing. -/
theorem not_listed_of_missing {code : ErrorCode} {message : Str} (hcode : code = .fsNotFound ∨ code = .notFound)
    (hanswer : Daemon.fsAnswer codec.response
      (run Os.step (Daemon.responding (Daemon.handleFsList env parent completionListing) .fsList) os).1 =
        .error code message) (n : Name) (obj : Obj) : ¬ Listed os parent n obj := by
  have hlarge : ∀ entries code message, (code = .fsNotFound ∨ code = .notFound) →
      Daemon.fsAnswer codec.response (.ok (.fsList entries)) ≠ .error code message := by
    intro entries code message hcode heq
    have hsplit : (if Daemon.Fits codec.response (.fsList entries) then ControlResponse.fsList entries
        else .error .internal _) = .error code message := heq
    split at hsplit
    · cases hsplit
    · cases hsplit
      simp at hcode
  have hoperation : (run Os.step (Daemon.responding (Daemon.handleFsList env parent completionListing) .fsList) os).1 =
      (run Os.step (Daemon.handleFsList env parent completionListing) os).1.map ControlResponse.fsList := by
    rw [Daemon.responding, Prog.run_bind]
    rcases run Os.step (Daemon.handleFsList env parent completionListing) os with ⟨result, t⟩
    cases result <;> rfl
  rw [hoperation] at hanswer
  rcases hp : os.lookup false (.ofStr parent) with e | ⟨l, leaf | mode⟩
  · exact not_listed_of_error hp n obj
  · rw [run_handleFsList_leaf hp] at hanswer
    exact absurd hanswer (hlarge _ code message hcode)
  · obtain ⟨-, herr⟩ := wp_iff_run.mp (@wp_handleFsList_directory env os parent l mode hp)
    rcases hrun : run Os.step (Daemon.handleFsList env parent completionListing) os with ⟨result, t⟩
    rw [hrun] at hanswer
    cases result with
    | ok entries => exact absurd hanswer (hlarge entries code message hcode)
    | error err =>
      have hclass : Daemon.classifyFsError err = code := (ControlResponse.error.inj hanswer).1
      have hkind := classifyFsError_of_missing (hclass ▸ hcode)
      rw [herr err t hrun] at hkind
      cases hkind

/-- The entries are those of the daemon's listing, or there are none and nothing is listed. -/
theorem run_remoteFsListCompletion {entries : List AgentFsListEntry}
    (hrun : run Os.step (remoteFsListCompletion env codec parent) os = (.ok entries, t)) :
    (∃ t', run Os.step (Daemon.handleFsList env parent completionListing) os = (.ok entries, t')) ∨
      entries = [] ∧ ∀ n obj, ¬ Listed os parent n obj := by
  obtain ⟨response, t₁, hrequest, hmatch⟩ := (run_bind_ok Os.step).mp hrun
  have hresponse : Daemon.fsAnswer codec.response
      (run Os.step (Daemon.responding (Daemon.handleFsList env parent completionListing) .fsList) os).1 = response := by
    unfold requestDaemon at hrequest
    split at hrequest
    · cases hrequest
    · rw [Prog.run_bind, Prog.run_attempt] at hrequest
      obtain ⟨hok, -⟩ := Prod.mk.inj hrequest
      exact Except.ok.inj hok
  split at hmatch
  · obtain ⟨hok, -⟩ := Prod.mk.inj hmatch
    obtain rfl := Except.ok.inj hok
    obtain ⟨t', hlist⟩ := Daemon.run_of_fsAnswer hresponse fun code message h => by cases h
    obtain ⟨listedEntries, hhandler, heq⟩ := Daemon.run_responding hlist
    obtain rfl := ControlResponse.fsList.inj heq
    exact Or.inl ⟨t', hhandler⟩
  · obtain ⟨hok, -⟩ := Prod.mk.inj hmatch
    exact Or.inr ⟨(Except.ok.inj hok).symm, not_listed_of_missing (Or.inl rfl) hresponse⟩
  · obtain ⟨hok, -⟩ := Prod.mk.inj hmatch
    exact Or.inr ⟨(Except.ok.inj hok).symm, not_listed_of_missing (Or.inr rfl) hresponse⟩
  · cases hmatch
  · cases hmatch

/-- What is listed is a text. -/
theorem isUtf8_trim {s : Str} (h : isUtf8 s = true) : isUtf8 (s.rdropWhile fun b => decide (b = slashByte)) = true := by
  induction s using List.reverseRecOn with
  | nil => rfl
  | append_singleton s b ih =>
    by_cases hb : b = slashByte
    · subst hb
      rw [isUtf8_ascii_between s (by decide) [], Bool.and_eq_true] at h
      rw [List.rdropWhile_concat_pos _ _ _ (by simp)]
      exact ih h.1
    · rw [List.rdropWhile_concat_neg _ _ _ (by simpa using hb)]
      exact h

theorem isUtf8_splitRemoteCompletionInput {typed : Str} (h : isUtf8 typed = true) :
    isUtf8 (splitRemoteCompletionInput typed).1 = true := by
  rcases slash_cases typed with hno | ⟨before, after, rfl, hafter⟩
  · rw [splitRemoteCompletionInput_of_not_mem hno]
    rfl
  · rw [isUtf8_ascii_between before (by decide), Bool.and_eq_true] at h
    by_cases hnil : after = []
    · subst hnil
      rw [splitRemoteCompletionInput_slash, trimTrailingSlashPreservingRoot]
      split
      · decide
      · exact isUtf8_trim h.1
    · rw [splitRemoteCompletionInput_append before hafter hnil]
      dsimp only
      split
      · rfl
      · exact h.1

/-- **The candidates.** Each is that of a listed name that starts with what was typed. -/
theorem mem_completeRemoteEditPath {typed : Str} {candidates : List Str} (htext : isUtf8 typed = true)
    (hnames : ∀ l mode, os.lookup false (.ofStr (splitRemoteCompletionInput typed).1) = .ok (l, .inr mode) →
      ∀ n obj, os.view (l ++ [n]) = some obj → isUtf8 n.1 = true)
    (hrun : run Os.step (completeRemoteEditPath env codec typed) os = (.ok candidates, t)) :
    candidates.Nodup ∧ ∀ candidate, candidate ∈ candidates ↔
      ∃ n obj, Listed os (splitRemoteCompletionInput typed).1 n obj ∧ typedSegment typed <+: n.1 ∧
        candidate = candidateOf (splitRemoteCompletionInput typed).1 n obj := by
  obtain ⟨entries, t₁, hlist, hpure⟩ := (run_bind_ok Os.step).mp hrun
  obtain ⟨hok, -⟩ := Prod.mk.inj hpure
  obtain rfl := Except.ok.inj hok
  refine ⟨nodup_sortDedup _, fun candidate => ?_⟩
  rw [mem_sortDedup, List.mem_filterMap, ← splitRemoteCompletionInput_segment]
  rcases run_remoteFsListCompletion hlist with ⟨t', hhandler⟩ | ⟨rfl, hnone⟩
  · exact candidates_of_handleFsList (isUtf8_splitRemoteCompletionInput htext) hnames hhandler candidate
  · constructor
    · rintro ⟨entry, hentry, -⟩
      cases hentry
    · rintro ⟨n, obj, hlisted, -⟩
      exact absurd hlisted (hnone n obj)

end

/-! ### What completion is for -/

/-- A name in the directory that is listed. -/
def IsEntry (os : Os) (typed : Str) (n : Name) : Prop :=
  ∃ l mode obj, os.lookup true (.ofStr (splitRemoteCompletionInput typed).1) = .ok (l, .inr mode) ∧
    os.view (l ++ [n]) = some obj

/-- The candidate of a name: what was typed up to the last slash, the name, and a slash or none. -/
def Names (typed candidate : Str) (n : Name) : Prop :=
  candidate = typedDirectory typed ++ n.1 ∨ candidate = typedDirectory typed ++ n.1 ++ [slashByte]

/-- Every candidate starts with what was typed and names an entry of the
directory, and every entry that starts with what was typed of it has one candidate. -/
structure Completes (os : Os) (typed : Str) (candidates : List Str) : Prop where
  extend : ∀ candidate ∈ candidates, typed <+: candidate
  name : ∀ candidate ∈ candidates, ∃ n, IsEntry os typed n ∧ Names typed candidate n
  nodup : candidates.Nodup
  all : ∀ n, IsEntry os typed n → typedSegment typed <+: n.1 → ∃! candidate, candidate ∈ candidates ∧ Names typed candidate n

/-- What is listed is what is in the directory. A directory is; a file, or a
link, is listed itself, which must not be taken for what is in it. -/
def ListsDirectory (os : Os) (typed : Str) : Prop :=
  match os.lookup false (.ofStr (splitRemoteCompletionInput typed).1) with
  | .ok (_, .inl _) => ∀ n, typedSegment typed <+: n.1 →
      ((Path.ofStr (splitRemoteCompletionInput typed).1).fileName = some n ↔ IsEntry os typed n)
  | _ => True

/-- No listed name starts with the last segment. -/
def NoneStarts (os : Os) (typed : Str) : Prop :=
  ∀ n obj, Listed os (splitRemoteCompletionInput typed).1 n obj → ¬ typedSegment typed <+: n.1

section

variable {os : Os} {typed : Str} {n m : Name} {obj : Obj}

/-- What is listed with a name is in the directory, and what is in it is listed. -/
theorem exists_listed_iff (h : ListsDirectory os typed) (hn : typedSegment typed <+: n.1) :
    (∃ obj, Listed os (splitRemoteCompletionInput typed).1 n obj) ↔ IsEntry os typed n := by
  unfold ListsDirectory at h
  rcases hp : os.lookup false (.ofStr (splitRemoteCompletionInput typed).1) with e | ⟨l, leaf | mode⟩
  · constructor
    · rintro ⟨obj, hlisted⟩
      exact absurd hlisted (not_listed_of_error hp n obj)
    · rintro ⟨l, mode, obj, hfollow, -⟩
      obtain ⟨loc, x, hfound⟩ := Os.lookup_entry hfollow
      rw [hp] at hfound
      cases hfound
  · rw [hp] at h
    simp only [listed_leaf hp, exists_and_left, exists_eq, and_true]
    exact h n hn
  · have hfollow := Os.lookup_of_dir hp
    simp only [listed_directory hp]
    constructor
    · rintro ⟨obj, hv⟩
      exact ⟨l, mode, obj, hfollow, hv⟩
    · rintro ⟨l', mode', obj, hfollow', hv⟩
      rw [hfollow] at hfollow'
      cases hfollow'
      exact ⟨obj, hv⟩

theorem candidateOf_of_rejoined (h : Rejoined typed) (n : Name) (obj : Obj) :
    candidateOf (splitRemoteCompletionInput typed).1 n obj =
      typedDirectory typed ++ (n.1 ++ if obj.kind = .directory then [slashByte] else []) := by
  rw [candidateOf, joinRemoteCompletionCandidate_of_rejoined h, List.append_assoc]

/-- A candidate has the name it is made of, -/
theorem names_candidateOf (h : Rejoined typed) (n : Name) (obj : Obj) :
    Names typed (candidateOf (splitRemoteCompletionInput typed).1 n obj) n := by
  rw [candidateOf_of_rejoined h, Names, List.append_assoc]
  split
  · exact Or.inr rfl
  · exact Or.inl (by rw [List.append_nil])

/-- and no other. -/
theorem eq_of_names (h : Rejoined typed)
    (hnames : Names typed (candidateOf (splitRemoteCompletionInput typed).1 n obj) m) : n = m := by
  have hends : ∀ a b : Name, a.1 ≠ b.1 ++ [slashByte] := fun a b heq => a.2.2.1 (heq ▸ by simp)
  rw [candidateOf_of_rejoined h, Names, List.append_assoc] at hnames
  rcases hnames with heq | heq
  · have hrest := List.append_cancel_left heq
    split at hrest
    · exact absurd hrest.symm (hends m n)
    · exact Subtype.ext (by simpa using hrest)
  · have hrest := List.append_cancel_left heq
    split at hrest
    · exact Subtype.ext (List.append_cancel_right hrest)
    · exact absurd (by simpa using hrest) (hends n m)

theorem typed_isPrefix_candidateOf (h : Rejoined typed) (hn : typedSegment typed <+: n.1) (obj : Obj) :
    typed <+: candidateOf (splitRemoteCompletionInput typed).1 n obj := by
  obtain ⟨rest, hrest⟩ := hn
  rw [candidateOf_of_rejoined h, ← hrest]
  conv_lhs => rw [← typedDirectory_append_typedSegment typed]
  rw [List.append_assoc, List.prefix_append_right_inj]
  exact List.prefix_append _ _

/-- A candidate that starts with what was typed has its parts rejoined. -/
theorem rejoined_of_isPrefix (h : typed <+: candidateOf (splitRemoteCompletionInput typed).1 n obj) : Rejoined typed := by
  by_contra hno
  exact not_typed_of_not_rejoined hno n _ h

end

/-- **Completion.** What is returned completes what was typed if and only if that
is rejoined from its parts, or there is nothing to complete it to, and what is
listed is the directory. -/
theorem complete_remote_edit_path_iff (env : FsEnv) (codec : Codec) {os os' : Os} {typed : Str} {candidates : List Str}
    (htext : isUtf8 typed = true)
    (hnames : ∀ l mode, os.lookup false (.ofStr (splitRemoteCompletionInput typed).1) = .ok (l, .inr mode) →
      ∀ n obj, os.view (l ++ [n]) = some obj → isUtf8 n.1 = true)
    (hrun : run Os.step (completeRemoteEditPath env codec typed) os = (.ok candidates, os')) :
    Completes os typed candidates ↔ (Rejoined typed ∨ NoneStarts os typed) ∧ ListsDirectory os typed := by
  obtain ⟨hnodup, hmem⟩ := mem_completeRemoteEditPath htext hnames hrun
  constructor
  · intro h
    have hmade : ∀ n obj, Listed os (splitRemoteCompletionInput typed).1 n obj → typedSegment typed <+: n.1 →
        candidateOf (splitRemoteCompletionInput typed).1 n obj ∈ candidates := fun n obj hlisted hn =>
      (hmem _).mpr ⟨n, obj, hlisted, hn, rfl⟩
    refine ⟨?_, ?_⟩
    · by_cases hrejoined : Rejoined typed
      · exact Or.inl hrejoined
      · exact Or.inr fun n obj hlisted hn => hrejoined (rejoined_of_isPrefix (h.extend _ (hmade n obj hlisted hn)))
    · unfold ListsDirectory
      split
      · rename_i l leaf hp
        refine fun n hn => ⟨fun hfile => ?_, fun hentry => ?_⟩
        · -- the path itself is listed, and so must be in the directory
          have hcandidate := hmade n (.inl leaf) ((listed_leaf hp n _).mpr ⟨hfile, rfl⟩) hn
          obtain ⟨m, hentry, hm⟩ := h.name _ hcandidate
          obtain rfl := eq_of_names (rejoined_of_isPrefix (h.extend _ hcandidate)) hm
          exact hentry
        · obtain ⟨candidate, ⟨hcandidate, hm⟩, -⟩ := h.all n hentry hn
          obtain ⟨m, obj, hlisted, -, rfl⟩ := (hmem candidate).mp hcandidate
          obtain rfl := eq_of_names (rejoined_of_isPrefix (h.extend _ hcandidate)) hm
          exact ((listed_leaf hp m obj).mp hlisted).1
      · trivial
  · rintro ⟨hkept, hlists⟩
    rcases hkept with hrejoined | hnone
    · refine ⟨fun candidate hcandidate => ?_, fun candidate hcandidate => ?_, hnodup, fun n hentry hn => ?_⟩
      · obtain ⟨n, obj, -, hn, rfl⟩ := (hmem candidate).mp hcandidate
        exact typed_isPrefix_candidateOf hrejoined hn obj
      · obtain ⟨n, obj, hlisted, hn, rfl⟩ := (hmem candidate).mp hcandidate
        exact ⟨n, (exists_listed_iff hlists hn).mp ⟨obj, hlisted⟩, names_candidateOf hrejoined n obj⟩
      · obtain ⟨obj, hlisted⟩ := (exists_listed_iff hlists hn).mpr hentry
        refine ⟨_, ⟨(hmem _).mpr ⟨n, obj, hlisted, hn, rfl⟩, names_candidateOf hrejoined n obj⟩, ?_⟩
        rintro candidate ⟨hcandidate, hm⟩
        obtain ⟨m, obj', hlisted', -, rfl⟩ := (hmem candidate).mp hcandidate
        obtain rfl := eq_of_names hrejoined hm
        rw [hlisted.unique hlisted']
    · have hempty : ∀ candidate, candidate ∉ candidates := by
        intro candidate hcandidate
        obtain ⟨n, obj, hlisted, hn, -⟩ := (hmem candidate).mp hcandidate
        exact hnone n obj hlisted hn
      refine ⟨fun candidate h => absurd h (hempty candidate), fun candidate h => absurd h (hempty candidate), hnodup,
        fun n hentry hn => ?_⟩
      obtain ⟨obj, hlisted⟩ := (exists_listed_iff hlists hn).mpr hentry
      exact absurd hn (hnone n obj hlisted)

/-- The messages as they are documented. -/
def completionCodec : Codec := .documented [] []

/-- In the tree with a directory `/b`, typed as far as `/b`. -/
theorem complete_remote_edit_path_iff_directory :
    ∃ candidates os', run Os.step (completeRemoteEditPath Daemon.walkEnv completionCodec (str "/b")) Daemon.hiddenTree =
        (.ok candidates, os') ∧
      (Completes Daemon.hiddenTree (str "/b") candidates ↔
        (Rejoined (str "/b") ∨ NoneStarts Daemon.hiddenTree (str "/b")) ∧ ListsDirectory Daemon.hiddenTree (str "/b")) := by
  obtain ⟨candidates, hrun⟩ : ∃ candidates, run Os.step
      (completeRemoteEditPath Daemon.walkEnv completionCodec (str "/b")) Daemon.hiddenTree = (.ok candidates, _) :=
    Prog.outcome_of_isOk (by decide +kernel)
  refine ⟨candidates, _, hrun, complete_remote_edit_path_iff Daemon.walkEnv completionCodec (by decide) ?_ hrun⟩
  intro l mode _ n obj hv
  exact @Os.forall_view Daemon.hiddenTree (fun k _ => ∀ name ∈ k, isUtf8 name.1 = true) (by decide +kernel) (l ++ [n]) obj hv n
    (by simp)

/-- A candidate for `./b` does not start with it. -/
theorem complete_remote_edit_path_dot_slash :
    ∃ candidates os', run Os.step (completeRemoteEditPath Daemon.walkEnv completionCodec (str "./b")) Daemon.hiddenTree =
        (.ok candidates, os') ∧ IsEntry Daemon.hiddenTree (str "./b") Daemon.bName ∧
      ¬ Completes Daemon.hiddenTree (str "./b") candidates := by
  have hok : (run Os.step (completeRemoteEditPath Daemon.walkEnv completionCodec (str "./b")) Daemon.hiddenTree).1 =
      .ok [str "b/"] := by
    decide +kernel
  refine ⟨[str "b/"], _, Prog.outcome_of_ok hok, ⟨[], 0o755, .inr 0o755, by decide +kernel, by decide +kernel⟩, fun h => ?_⟩
  have hstart := h.extend (str "b/") (List.mem_singleton_self _)
  revert hstart
  decide

/-- A link is listed itself. -/
example : (run Os.step (completeRemoteEditPath Daemon.walkEnv completionCodec (str "/l/")) Daemon.hiddenTree).1 =
    .ok [str "/l/l"] := by
  decide +kernel

end Client

end Rsdb
