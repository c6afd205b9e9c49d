/-
# A staged push and the other side

With `--atomic` a push replaces each root in one rename: the new one is received at a
name beside it and then moved there. Wherever the run stops, every root it is through
with is the whole new one, and every root it has not come to is as it was. The one it is
at is as it was too, unless its move was asked for and has failed (`staged_push_atomic`).
A run that returns has left nothing at the staged names.
-/
import Rsdb.Client.AgentServed
import Rsdb.Daemon.MoveBelow

namespace Rsdb

open Os (SameTree Outside Thinned Leads Area Confined below)
open Prog (run Reaches Exec Stop)

namespace Client

namespace Agent

/-! ### The staged names -/

/-- A hidden name with the root's name, the time and the root's number in it. -/
def stagedText (x : Name) (index nonce : ℕ) : Str :=
  str "." ++ x.1 ++ str ".rsdb-transfer-" ++ decimal nonce ++ str "-" ++ decimal index

theorem isName_stagedText (x : Name) (index nonce : ℕ) : IsName (stagedText x index nonce) := by
  have hlen : 2 < (stagedText x index nonce).length := by
    have hdot : (str ".").length = 1 := rfl
    have hmiddle : (str ".rsdb-transfer-").length = 15 := rfl
    simp only [stagedText, List.length_append, hdot, hmiddle]
    omega
  have hslash : ∀ n, slashByte ∉ decimal n := fun n => (isName_decimal n).2.1
  have hdot : slashByte ∉ str "." := by decide
  have hmiddle : slashByte ∉ str ".rsdb-transfer-" := by decide
  have hdash : slashByte ∉ str "-" := by decide
  refine ⟨List.ne_nil_of_length_pos (by omega), ?_, fun h => ?_, fun h => ?_⟩
  · simp only [stagedText, List.mem_append, not_or]
    exact ⟨⟨⟨⟨⟨hdot, x.2.2.1⟩, hmiddle⟩, hslash nonce⟩, hdash⟩, hslash index⟩
  · rw [h] at hlen
    exact absurd hlen (by decide)
  · rw [h] at hlen
    exact absurd hlen (by decide)

/-- The name a root is received at. -/
def stagedName (x : Name) (index nonce : ℕ) : Name := ⟨stagedText x index nonce, isName_stagedText x index nonce⟩

theorem isUtf8_stagedName {x : Name} (hx : isUtf8 x.1 = true) (index nonce : ℕ) : isUtf8 (stagedName x index nonce).1 = true := by
  have hdecimal : ∀ n, isUtf8 (decimal n) = true := fun n => isUtf8_of_ascii fun b hb => by
    have hbounds := digit_of_mem_decimal hb
    exact UInt8.lt_iff_toNat_lt.mpr (by show b.toNat < 128; omega)
  have hdot : isUtf8 (str ".") = true := by decide
  have hmiddle : isUtf8 (str ".rsdb-transfer-") = true := by decide
  have hdash : isUtf8 (str "-") = true := by decide
  show isUtf8 (stagedText x index nonce) = true
  rw [stagedText, List.append_assoc, List.append_assoc, List.append_assoc, List.append_assoc, isUtf8_append hdot,
    isUtf8_append hx, isUtf8_append hmiddle, isUtf8_append (hdecimal nonce), isUtf8_append hdash, hdecimal]

/-- The path above a root, beside which it is staged. It leads where the directory's does,
in what may be another text: `/in/.` is `/in` there. -/
def above (base : Path) (x : Name) : Path := (below base [x]).parent.getD base

section

variable {base : Path} {x : Name}

theorem parent_root (base : Path) (x : Name) : (below base [x]).parent = some (above base x) := by
  obtain ⟨parent, hparent, -⟩ := Os.parent_below_singleton base x
  rw [above, hparent, Option.getD_some]

theorem above_comps (base : Path) (x : Name) : (above base x).abs = base.abs ∧ (above base x).comps = base.comps := by
  obtain ⟨parent, hparent, habs, hcomps, -⟩ := Os.parent_below_singleton base x
  obtain rfl := Option.some.inj (hparent.symm.trans (parent_root base x))
  exact ⟨habs, hcomps⟩

theorem above_isEmpty (base : Path) (x : Name) : (above base x).isEmpty = base.isEmpty := by
  obtain ⟨habs, hcomps⟩ := above_comps base x
  rw [Path.isEmpty_eq, Path.isEmpty_eq, habs, hcomps]

theorem stagedRemoteTransferPath_below (hbase : base.isEmpty = false) (hx : isUtf8 x.1 = true) (index nonce : ℕ) :
    stagedRemoteTransferPath (below base [x]) index nonce = below (above base x) [stagedName x index nonce] := by
  have hname : (below base [x]).fileName = some x := Path.push_fileName base x
  have hempty : (above base x).isEmpty = false := (above_isEmpty base x).trans hbase
  have hkept : (some (above base x)).filter (fun parent => !parent.isEmpty) = some (above base x) := by
    simp [Option.filter, hempty]
  have hfile : (((below base [x]).fileName.map Subtype.val).filter isUtf8).getD (str "rsdb-transfer") = x.1 := by
    simp [hname, Option.filter, hx]
  simp only [stagedRemoteTransferPath, hfile, parent_root, hkept, Option.getD_some]
  exact Path.join_ofNames (above base x) (List.cons_ne_nil (stagedName x index nonce) [])

end

/-! ### Where the roots go -/

/-- The path to the directory, which nothing in the directory can change. -/
structure RootsAt (os : Os) (base : Path) (dir : Loc) : Prop where
  named : base.isEmpty = false
  text : base.IsText
  leads : ∀ t, Outside (fun k => ∃ y, dir ++ [y] <+: k) os t → Leads t base dir

section

variable {os s : Os} {base : Path} {dir : Loc} {x y : Name}

theorem RootsAt.outside (h : RootsAt os base dir) (hout : Outside (fun k => ∃ y, dir ++ [y] <+: k) os s) :
    RootsAt s base dir :=
  ⟨h.named, h.text, fun t ht => h.leads t (hout.trans ht)⟩

theorem RootsAt.here (h : RootsAt os base dir) : Leads os base dir := h.leads os (SameTree.refl os).outside

theorem RootsAt.leads_root (h : RootsAt os base dir) (t : Os) (ht : Outside (dir ++ [x] <+: ·) os t) : Leads t base dir :=
  h.leads t (ht.mono fun _ hk => ⟨x, hk⟩)

/-- The path a root is staged beside leads to the same directory. -/
theorem RootsAt.above (h : RootsAt os base dir) (hx : isUtf8 x.1 = true) : RootsAt os (above base x) dir where
  named := (above_isEmpty base x).trans h.named
  text := (Path.IsText.foldl_push h.text (List.forall_mem_singleton.mpr hx)).parent (parent_root base x)
  leads t ht := by
    obtain ⟨mode, hwalk⟩ := h.leads t ht
    obtain ⟨habs, hcomps⟩ := above_comps base x
    refine ⟨mode, ?_⟩
    rw [hcomps, Os.start, habs]
    exact hwalk

/-- The text of a path to a name of the directory is read back as the path. -/
theorem RootsAt.ofStr_pathText (h : RootsAt os base dir) (hy : isUtf8 y.1 = true) :
    Path.ofStr (pathText (below base [y])) = below base [y] ∧ endsWithSlash (pathText (below base [y])) = false := by
  have hpush : below base [y] = base.push y := rfl
  have htext : (base.push y).IsText := Path.IsText.foldl_push h.text (List.forall_mem_singleton.mpr hy)
  rw [hpush, pathText, utf8Lossy_of_isUtf8 (Path.isUtf8_display htext)]
  exact ⟨rfl, Path.push_slash base y⟩

end

/-! ### What the calls of a round come to -/

section

variable {sides : Sides} {s t : Os} {base base' : Path} {dir : Loc} {x y : Name} {source : Source}

/-- A push to a name where nothing is stays there. -/
theorem outside_of_push (hat : RootsAt s base dir) (hy : isUtf8 y.1 = true) (hnone : s.view (dir ++ [y]) = none)
    {answer : Except CommandError PushSummary}
    (h : Serves sides (.push (.of [source]) (pathText (below base [y]))) answer s t) : Outside (dir ++ [y] <+: ·) s t := by
  obtain ⟨requestId, input, hreaches⟩ := reaches_of_serves_push h
  obtain ⟨hpath, hslash⟩ := hat.ofStr_pathText hy
  have harea : ∀ k, Area dir [y] k ↔ dir ++ [y] <+: k := by simp [Area]
  have hfree : ∀ k target, Area dir [y] k → s.view k ≠ some (.inl (.symlink target)) := by
    intro k target hk hview
    obtain ⟨rest, rfl⟩ := (harea k).mp hk
    rw [Os.view, DirTree.view_append_eq_none hnone] at hview
    cases hview
  have hroots : ∀ p ∈ rootPathsIn s (pathText (below base [y])) [source.root], ∃ x ∈ [y], p = below base [x] := by
    rw [rootPathsIn_fresh hat.here hnone hpath hslash]
    exact fun p hp => ⟨y, List.mem_singleton_self y, List.mem_singleton.mp hp⟩
  have hconfined := (throughout_handlePushBatch hat.here hroots (Confined.refl s hfree) requestId _ input).reaches hreaches
  exact ⟨hconfined.toSameProcess, fun k hk => hconfined.outside k fun hk' => hk ((harea k).mp hk')⟩

/-- A push that has succeeded has brought the source, where names can be made. -/
theorem holds_of_push (hat : RootsAt s base dir) (hy : isUtf8 y.1 = true) (hnone : s.view (dir ++ [y]) = none)
    (hmay : s.mayChange (dir ++ [y]) = true) (hgood : source.Good) {path : Path}
    (hfound : statSource sides.host path = .ok source) {summary : PushSummary}
    (h : Serves sides (.push (.of [source]) (pathText (below base [y]))) (.ok summary) s t) : Holds t (dir ++ [y]) source := by
  obtain ⟨runs, response, hsteady, hrun⟩ := h
  obtain ⟨hpath, hslash⟩ := hat.ofStr_pathText hy
  have hgives := gives_of_steady hfound hsteady
  have hfiles : (LocalBatchManifest.of [source]).shared.files = (manifestItems [source]).filterMap Item.file? := by
    show (filesOf source 0 ++ []).map _ = (itemsFrom 0 [source]).filterMap Item.file?
    rw [List.append_nil, filesOf, List.map_map, itemsFrom, itemsFrom, List.append_nil]
    exact List.map_id _
  have hentries : (LocalBatchManifest.of [source]).entries = (manifestItems [source]).map Item.entry := by
    show entriesOf source 0 ++ [] = (itemsFrom 0 [source]).map Item.entry
    rw [List.append_nil, entriesOf, itemsFrom, itemsFrom, List.append_nil, Source.items, itemsUnder, List.map_map,
      List.map_map]
    rfl
  obtain ⟨readss, hreads, hstreamed⟩ := streamed_of_gives hfiles hgives
  rw [hstreamed, hentries] at hrun
  exact holds_of_handlePushBatch clientRequestId hat.here hmay hnone hgood hy hpath hslash hreads hrun

/-- A move, however it ends. -/
theorem moving_of_request (hat : RootsAt s base dir) (hat' : RootsAt s base' dir) (hx : isUtf8 x.1 = true)
    (hy : isUtf8 y.1 = true) (hne : y ≠ x) {answer : Except CommandError ControlResponse}
    (h : Serves sides (.request (.fsMove (pathText (below base' [y])) (pathText (below base [x])) true)) answer s t) :
    Daemon.Moving s dir y x t := by
  obtain ⟨operation, hknown, hreaches⟩ := reaches_of_serves h
  obtain rfl := Option.some.inj hknown
  have hmove := Daemon.throughout_handleFsMove sides.env.depth (hat'.ofStr_pathText hy).1 (hat.ofStr_pathText hx).1 hne
    hat.leads_root hat'.leads_root true
  have hall : Prog.Throughout Os.step (Daemon.Moving s dir y x) (fun _ _ => True)
      (Daemon.responding (Daemon.handleFsMove sides.env.depth (pathText (below base' [y])) (pathText (below base [x])) true)
        .fsMoveResult) s :=
    Prog.throughout_bind (Prog.throughout_mono (fun _ _ hI _ => ⟨hI, trivial⟩) hmove)
  exact hall.reaches hreaches

/-- A move that is answered with its result. -/
theorem swapped_of_request (hat : RootsAt s base dir) (hat' : RootsAt s base' dir) (hx : isUtf8 x.1 = true)
    (hy : isUtf8 y.1 = true) (hne : y ≠ x) {result : AgentFsMoveResult}
    (h : Serves sides (.request (.fsMove (pathText (below base' [y])) (pathText (below base [x])) true))
      (.ok (.fsMoveResult result)) s t) : Daemon.Swapped s dir y x t := by
  obtain ⟨operation, outcome, hknown, hrun, hanswer⟩ := h
  obtain rfl := Option.some.inj hknown
  have hmove := Daemon.throughout_handleFsMove sides.env.depth (hat'.ofStr_pathText hy).1 (hat.ofStr_pathText hx).1 hne
    hat.leads_root hat'.leads_root true
  have hresponse : Daemon.fsAnswer sides.codec.response (run Os.step (Daemon.responding (Daemon.handleFsMove
      sides.env.depth (pathText (below base' [y])) (pathText (below base [x])) true) .fsMoveResult) s).1 =
        .fsMoveResult result := by
    rw [hrun]
    exact hanswer.symm
  obtain ⟨t', hran⟩ := Daemon.run_of_fsAnswer hresponse nofun
  obtain rfl : t' = t := (Prod.mk.inj (hran.symm.trans hrun)).2
  obtain ⟨moved, t'', hmoved, hlast⟩ := (Prog.run_bind_ok _).mp hran
  obtain ⟨-, rfl⟩ := Prod.mk.inj hlast
  exact hmove.returned hmoved

/-- The removal of a staged path, however it ends. -/
theorem thinned_of_cleanup (hat : RootsAt s base dir) (hy : isUtf8 y.1 = true) {α : Type} {trace : AgentTrace}
    {stop : Stop AgentCommandFailure α} (hcleanup : Cleanup (pathText (below base [y])) trace stop)
    (h : Served sides trace s t) : Thinned (dir ++ [y]) s t := by
  cases hcleanup with
  | cut =>
    cases h with
    | nil hsame => exact (Thinned.refl _ s).sameTree hsame
  | asked answer failure =>
    cases h with
    | cons hsame hserves hrest =>
      cases hrest with
      | nil hsame' =>
        obtain ⟨operation, hknown, hreaches⟩ := reaches_of_serves hserves
        obtain rfl := Option.some.inj hknown
        have hat' := hat.outside hsame.outside
        have hremove := Daemon.throughout_handleFsRm sides.env (hat.ofStr_pathText hy).1 hat'.here true true true
        have hall := Prog.throughout_bind (f := fun a => .pure (ControlResponse.fsRmResult a)) (P := fun _ _ => True)
          (Prog.throughout_mono (fun _ _ hI _ => ⟨hI, trivial⟩) hremove)
        exact ((hall.reaches hreaches).sameTree hsame').behind hsame

end

/-! ### What a round comes to -/

/-- All there is at a place is as it was. -/
def Same (s t : Os) (place : Loc) : Prop := ∀ k, t.view (place ++ k) = s.view (place ++ k)

/-- What there is at a place is as it was, or gone. -/
def Cleared (s t : Os) (place : Loc) : Prop := ∀ k, t.view (place ++ k) = s.view (place ++ k) ∨ t.view (place ++ k) = none

/-- The move to a root was asked for, and has not succeeded. -/
def MoveFailed (base : Path) (x : Name) (trace : AgentTrace) : Prop :=
  ∃ (tempRoot : Str) (answer : Except CommandError ControlResponse),
    ⟨.request (.fsMove tempRoot (pathText (below base [x])) true), answer⟩ ∈ trace ∧
      ∀ result, answer ≠ .ok (.fsMoveResult result)

/-- A push was made to a staged name of a root. -/
def StagesAt (base : Path) (x : Name) (index : ℕ) (trace : AgentTrace) (y : Name) : Prop :=
  ∃ (nonce : ℕ) (single : LocalBatchManifest) (answer : Except CommandError PushSummary),
    y = stagedName x index nonce ∧ ⟨.push single (pathText (below (above base x) [y])), answer⟩ ∈ trace

/-- A root of the push, by its name. -/
structure Rooted (sides : Sides) (sources : List Source) (base : Path) (place : Placement) (x : Name) (source : Source) :
    Prop where
  remote : place.remoteRoot = below base [x]
  nameText : isUtf8 x.1 = true
  good : source.Good
  found : ∃ path, statSource sides.host path = .ok source
  index : sources[place.index]? = some source

section

variable {sides : Sides} {sources : List Source} {s t : Os} {base : Path} {dir : Loc} {place : Placement} {x y : Name}
  {source : Source} {trace : AgentTrace} {asked : PushArgs}

theorem StagesAt.text (h : StagesAt base x place.index trace y) (hx : isUtf8 x.1 = true) : isUtf8 y.1 = true := by
  obtain ⟨nonce, -, -, rfl, -⟩ := h
  exact isUtf8_stagedName hx _ nonce

/-- What is pushed, and where to. -/
theorem stagedPush_eq (hroot : Rooted sides sources base place x source) (hbase : base.isEmpty = false)
    (hfew : sources.length ≤ 2 ^ 32) {tempRoot : Str} {single : LocalBatchManifest}
    (h : StagedPush (.of sources) place tempRoot single) :
    single = .of [source] ∧ ∃ nonce, tempRoot = pathText (below (above base x) [stagedName x place.index nonce]) := by
  obtain ⟨hone, nonce, rfl⟩ := h
  have hlt : place.index < sources.length := (List.getElem?_eq_some_iff.mp hroot.index).1
  have hindex : (UInt32.ofNat place.index).toNat = place.index := UInt32.toNat_ofNat_of_lt' (by
    show place.index < 2 ^ 32
    omega)
  have hfilter := filter_of hfew (List.pairwise_singleton (· < ·) (UInt32.ofNat place.index)) (by simpa [hindex] using hlt)
  have hselect : select sources ([UInt32.ofNat place.index].map UInt32.toNat) = [source] := by
    simp [select, hindex, hroot.index]
  rw [hone, hselect] at hfilter
  refine ⟨Except.ok.inj hfilter, nonce, ?_⟩
  rw [Placement.staged, hroot.remote, stagedRemoteTransferPath_below hbase hroot.nameText]

theorem mayChange_name (s : Os) (dir : Loc) (x y : Name) : s.mayChange (dir ++ [x]) = s.mayChange (dir ++ [y]) := by
  unfold Os.mayChange
  rw [List.dropLast_concat, List.dropLast_concat]

/-- A source that was received at one name is moved to another. -/
theorem holds_of_swapped {s₁ s₂ : Os} (hat : RootsAt s base dir) (hy : isUtf8 y.1 = true)
    (hnone : s.view (dir ++ [y]) = none) (hne : y ≠ x) (hgood : source.Good) {path : Path}
    (hfound : statSource sides.host path = .ok source) {summary : PushSummary}
    (hpush : Serves sides (.push (.of [source]) (pathText (below base [y]))) (.ok summary) s s₁) (hsame : SameTree s₁ s₂)
    (hswapped : Daemon.Swapped s₂ dir y x t) : Outside (dir ++ [x] <+: ·) s t ∧ Holds t (dir ++ [x]) source := by
  obtain ⟨hmoved, hmay⟩ := hswapped
  have hout := outside_of_push hat hy hnone hpush
  have hmay' : s.mayChange (dir ++ [y]) = true := by
    have hprocess := hout.toSameProcess.trans hsame.toSameProcess
    have hdir : s₂.view (dir ++ [x]).dropLast = s.view (dir ++ [x]).dropLast := by
      rw [List.dropLast_concat, hsame.view, hout.view dir (Os.not_prefix_dir y)]
    rwa [mayChange_name s dir y x, ← Os.mayChange_congr hprocess hdir]
  have hholds := holds_of_push hat hy hnone hmay' hgood hfound hpush
  refine ⟨⟨(hout.toSameProcess.trans hsame.toSameProcess).trans hmoved.toSameProcess, fun k hk => ?_⟩, fun k => ?_⟩
  · by_cases hk' : dir ++ [y] <+: k
    · obtain ⟨rest, rfl⟩ := hk'
      rw [hmoved.gone (fun heq => hne (List.cons.inj (List.append_cancel_left heq)).1), Os.view,
        DirTree.view_append_eq_none hnone]
    · rw [hmoved.elsewhere k hk' hk, hsame.view, hout.view k hk']
  · rw [hmoved.here, hsame.view]
    exact hholds k

variable (hat : RootsAt s base dir) (hroot : Rooted sides sources base place x source) (hfew : sources.length ≤ 2 ^ 32)
  (hfresh : ∀ y, StagesAt base x place.index trace y → s.view (dir ++ [y]) = none ∧ y ≠ x)

include hat hroot hfew hfresh in
/-- The push of a round goes to a staged name, where nothing is. -/
theorem staged_of_push {tempRoot : Str} {single : LocalBatchManifest} {answer : Except CommandError PushSummary}
    {rest : AgentTrace} (hpush : StagedPush (.of sources) place tempRoot single)
    (htrace : trace = ⟨.push single tempRoot, answer⟩ :: rest) :
    ∃ y, single = .of [source] ∧ tempRoot = pathText (below (above base x) [y]) ∧ isUtf8 y.1 = true ∧ y ≠ x ∧
      s.view (dir ++ [y]) = none ∧ StagesAt base x place.index trace y := by
  obtain ⟨hsingle, nonce, htemp⟩ := stagedPush_eq hroot hat.named hfew hpush
  have hstages : StagesAt base x place.index trace (stagedName x place.index nonce) :=
    ⟨nonce, single, answer, rfl, by rw [htrace, htemp]; exact List.mem_cons_self⟩
  obtain ⟨hnone, hne⟩ := hfresh _ hstages
  exact ⟨_, hsingle, htemp, hstages.text hroot.nameText, hne, hnone, hstages⟩

include hat hroot hfew hfresh in
/-- A root that is staged to the end is replaced. -/
theorem stage_returned {pushed : Option PushSummary} (hstage : Stage (.of sources) place trace (.returned pushed))
    (h : Served sides trace s t) :
    pushed ≠ none ∧ Outside (dir ++ [x] <+: ·) s t ∧ Holds t (dir ++ [x]) source := by
  cases hstage with
  | notPushed err hpush hcleanup => cases hcleanup
  | notMoved summary answer hpush hanswer hcleanup => cases hcleanup
  | moved summary result hpush =>
    refine ⟨nofun, ?_⟩
    obtain ⟨y, rfl, rfl, hy, hne, hnone, -⟩ := staged_of_push hat hroot hfew hfresh hpush rfl
    obtain ⟨path, hfound⟩ := hroot.found
    rw [hroot.remote] at h
    cases h with
    | @cons _ _ _ _ s₁ s₂ _ hsame hpushed hrest =>
      cases hrest with
      | @cons _ _ _ _ s₃ s₄ _ hsame' hmoved hend =>
        cases hend with
        | nil hlast =>
          have hat₁ := (hat.above hroot.nameText).outside hsame.outside
          have hnone₁ : s₁.view (dir ++ [y]) = none := (hsame.view _).trans hnone
          have hpart := (hsame.outside.trans (outside_of_push hat₁ hy hnone₁ hpushed)).trans hsame'.outside
          have hat₃ := hat.outside (hpart.mono fun k hk => ⟨_, hk⟩)
          have hswapped := swapped_of_request hat₃ (hat₃.above hroot.nameText) hroot.nameText hy hne hmoved
          obtain ⟨hplaced, hholds⟩ := holds_of_swapped hat₁ hy hnone₁ hne hroot.good hfound hpushed hsame' hswapped
          exact ⟨(hsame.outside.trans hplaced).trans hlast.outside, fun k => (hlast.view _).trans (hholds k)⟩

include hat hroot hfew hfresh in
/-- A root whose staging is cut short or fails is left, if its move has not failed. -/
theorem stage_stopped {stop : Stop AgentCommandFailure (Option PushSummary)} (hstop : ∀ pushed, stop ≠ .returned pushed)
    (hstage : Stage (.of sources) place trace stop) (h : Served sides trace s t) :
    Outside (fun k => dir ++ [x] <+: k ∨ ∃ y, StagesAt base x place.index trace y ∧ dir ++ [y] <+: k) s t ∧
      (Same s t (dir ++ [x]) ∨
        MoveFailed base x trace ∧ (Holds t (dir ++ [x]) source ∨ Cleared s t (dir ++ [x]))) := by
  have hsamePlace : ∀ {y : Name} {a b : Os}, y ≠ x → Outside (dir ++ [y] <+: ·) a b → Same a b (dir ++ [x]) :=
    fun hne hout k => hout.view _ (Os.not_prefix_name hne k)
  cases hstage with
  | moved summary result hpush => exact absurd rfl (hstop (some summary))
  | cut | failed failure =>
    cases h with
    | nil hsame => exact ⟨hsame.outside, Or.inl fun k => hsame.view _⟩
  | notPushed err hpush hcleanup =>
    obtain ⟨y, rfl, rfl, hy, hne, hnone, hstages⟩ := staged_of_push hat hroot hfew hfresh hpush rfl
    cases h with
    | cons hsame hpushed hrest =>
      have hat' := hat.above hroot.nameText
      have hat₁ := hat'.outside hsame.outside
      have hout := hsame.outside.trans (outside_of_push hat₁ hy ((hsame.view _).trans hnone) hpushed)
      have hat₂ := hat'.outside (hout.mono fun k hk => ⟨_, hk⟩)
      have hall := hout.trans (thinned_of_cleanup hat₂ hy hcleanup hrest).outside
      exact ⟨hall.mono fun k hk => Or.inr ⟨_, hstages, hk⟩, Or.inl (hsamePlace hne hall)⟩
  | pushed summary hpush =>
    obtain ⟨y, rfl, rfl, hy, hne, hnone, hstages⟩ := staged_of_push hat hroot hfew hfresh hpush rfl
    cases h with
    | cons hsame hpushed hrest =>
      cases hrest with
      | nil hlast =>
        have hat₁ := (hat.above hroot.nameText).outside hsame.outside
        have hout := hsame.outside.trans (outside_of_push hat₁ hy ((hsame.view _).trans hnone) hpushed)
        have hall := hout.trans hlast.outside
        exact ⟨hall.mono fun k hk => Or.inr ⟨_, hstages, hk⟩, Or.inl (hsamePlace hne hall)⟩
  | @notMoved tempRoot single rest stop summary answer hpush hanswer hcleanup =>
    obtain ⟨y, rfl, rfl, hy, hne, hnone, hstages⟩ := staged_of_push hat hroot hfew hfresh hpush rfl
    obtain ⟨path, hfound⟩ := hroot.found
    rw [hroot.remote] at h hstages ⊢
    have hfailed : MoveFailed base x (⟨.push (.of [source]) (pathText (below (above base x) [y])), .ok summary⟩ ::
        ⟨.request (.fsMove (pathText (below (above base x) [y])) (pathText (below base [x])) true), answer⟩ :: rest) :=
      ⟨_, answer, List.mem_cons_of_mem _ List.mem_cons_self, hanswer⟩
    cases h with
    | @cons _ _ _ _ s₁ s₂ _ hsame hpushed hrest =>
      cases hrest with
      | @cons _ _ _ _ s₃ s₄ _ hsame' hmoved hend =>
        have hat' := hat.above hroot.nameText
        have hat₁ := hat'.outside hsame.outside
        have hnone₁ : s₁.view (dir ++ [y]) = none := (hsame.view _).trans hnone
        have hpart := (hsame.outside.trans (outside_of_push hat₁ hy hnone₁ hpushed)).trans hsame'.outside
        have hat₃ := hat.outside (hpart.mono fun k hk => ⟨_, hk⟩)
        -- what the move has come to, and then the removal
        have hrest : ∀ {area : Loc → Prop}, Outside area s s₄ → (∀ k, area k → dir ++ [x] <+: k ∨ dir ++ [y] <+: k) →
            Thinned (dir ++ [y]) s₄ t ∧ Outside (fun k => dir ++ [x] <+: k ∨ dir ++ [y] <+: k) s t := by
          intro area hout harea
          have hwide := hout.mono harea
          have hat₄ := hat'.outside (hwide.mono fun k hk => hk.elim (fun h => ⟨x, h⟩) fun h => ⟨y, h⟩)
          have hthinned := thinned_of_cleanup hat₄ hy hcleanup hend
          exact ⟨hthinned, hwide.trans (hthinned.outside.mono fun k hk => Or.inr hk)⟩
        have hkept : ∀ {k}, Thinned (dir ++ [y]) s₄ t → t.view (dir ++ [x] ++ k) = s₄.view (dir ++ [x] ++ k) :=
          fun hthinned => hthinned.elsewhere _ (Os.not_prefix_name hne _)
        rcases moving_of_request hat₃ (hat₃.above hroot.nameText) hroot.nameText hy hne hmoved with hcleared | hswapped
        · have hout := (hpart.mono fun k hk => Or.inr hk).trans (hcleared.outside.mono fun k hk => Or.inl hk)
          obtain ⟨hthinned, hall⟩ := hrest hout fun k hk => hk
          refine ⟨hall.mono fun k hk => hk.imp id fun hk => ⟨y, hstages, hk⟩, Or.inr ⟨hfailed, Or.inr fun k => ?_⟩⟩
          rw [hkept hthinned, ← hpart.view _ (Os.not_prefix_name hne k)]
          exact hcleared.view _
        · obtain ⟨hplaced, hholds⟩ := holds_of_swapped hat₁ hy hnone₁ hne hroot.good hfound hpushed hsame' hswapped
          obtain ⟨hthinned, hall⟩ := hrest (hsame.outside.trans hplaced) fun k hk => Or.inl hk
          refine ⟨hall.mono fun k hk => hk.imp id fun hk => ⟨y, hstages, hk⟩, Or.inr ⟨hfailed, Or.inl fun k => ?_⟩⟩
          rw [hkept hthinned]
          exact hholds k

/-- A name that is staged at in what a round changes is one that is staged at. -/
theorem StagesAt.of_changes {looked later : AgentTrace} (h : StagesAt base x place.index (changesOf later) y) :
    StagesAt base x place.index (looked ++ later) y := by
  obtain ⟨nonce, single, answer, heq, hmem⟩ := h
  exact ⟨nonce, single, answer, heq, List.mem_append_right _ (List.mem_of_mem_filter hmem)⟩

theorem MoveFailed.of_changes {looked later : AgentTrace} (h : MoveFailed base x (changesOf later)) :
    MoveFailed base x (looked ++ later) := by
  obtain ⟨tempRoot, answer, hmem, hanswer⟩ := h
  exact ⟨tempRoot, answer, List.mem_append_right _ (List.mem_of_mem_filter hmem), hanswer⟩

include hat hroot hfew hfresh in
/-- A round that comes to its end has left the root, or replaced it. -/
theorem round_returned {pushed : Option PushSummary}
    (hround : Round sides.codec asked place (.of sources) trace (.returned pushed)) (h : Served sides trace s t) :
    (pushed = none → SameTree s t) ∧
      (pushed ≠ none → Outside (dir ++ [x] <+: ·) s t ∧ Holds t (dir ++ [x]) source) := by
  cases hround with
  | unchanged hlook => exact ⟨fun _ => sameTree_of_quiet hlook.changesOf h, fun hne => absurd rfl hne⟩
  | looking hquiet hstop => exact absurd rfl (hstop pushed)
  | staged hlook hstage =>
    obtain ⟨hne, hplaced⟩ := stage_returned hat hroot hfew (fun y hy => hfresh y hy.of_changes) hstage
      (h.later hlook.changesOf)
    exact ⟨fun hnone => absurd hnone hne, fun _ => hplaced⟩

include hat hroot hfew hfresh in
/-- A round that is cut short or fails leaves the root, if its move has not failed. -/
theorem round_stopped {stop : Stop AgentCommandFailure (Option PushSummary)} (hstop : ∀ pushed, stop ≠ .returned pushed)
    (hround : Round sides.codec asked place (.of sources) trace stop) (h : Served sides trace s t) :
    Outside (fun k => dir ++ [x] <+: k ∨ ∃ y, StagesAt base x place.index trace y ∧ dir ++ [y] <+: k) s t ∧
      (Same s t (dir ++ [x]) ∨
        MoveFailed base x trace ∧ (Holds t (dir ++ [x]) source ∨ Cleared s t (dir ++ [x]))) := by
  cases hround with
  | unchanged hlook => exact absurd rfl (hstop none)
  | looking hquiet _ =>
    have hsame := sameTree_of_quiet hquiet h
    exact ⟨hsame.outside, Or.inl fun k => hsame.view _⟩
  | staged hlook hstage =>
    obtain ⟨hout, hplace⟩ := stage_stopped hat hroot hfew (fun y hy => hfresh y hy.of_changes) hstop hstage
      (h.later hlook.changesOf)
    refine ⟨hout.mono fun k hk => hk.imp id fun hk => hk.imp fun y hy => ⟨hy.1.of_changes, hy.2⟩, ?_⟩
    exact hplace.imp id fun hfailed => ⟨hfailed.1.of_changes, hfailed.2⟩

end

/-! ### All the roots -/

/-- The roots in turn, from a number on, each under its name. -/
def placesFrom (base : Path) (n : ℕ) (roots : List (Name × Source)) : List Placement :=
  (roots.zipIdx n).map fun p => ⟨p.1.2.path, below base [p.1.1], p.2⟩

/-- A push was made to a staged name of one of the roots. -/
def StagedBy (base : Path) (n : ℕ) (roots : List (Name × Source)) (trace : AgentTrace) (y : Name) : Prop :=
  ∃ p ∈ roots.zipIdx n, StagesAt base p.1.1 p.2 trace y

/-- How far a push has come: it is through with as many roots as `done` says, each of them
left or replaced, and the roots behind the next one are as they were. -/
structure PushedSo (s t : Os) (base : Path) (dir : Loc) (n : ℕ) (roots : List (Name × Source)) (trace : AgentTrace)
    (done : List (Option PushSummary)) : Prop where
  through : ∀ (i : ℕ) (x : Name) (source : Source) (pushed : Option PushSummary), roots[i]? = some (x, source) →
    done[i]? = some pushed → (pushed = none → Same s t (dir ++ [x])) ∧ (pushed ≠ none → Holds t (dir ++ [x]) source)
  current : ∀ (x : Name) (source : Source), roots[done.length]? = some (x, source) → Same s t (dir ++ [x]) ∨
    MoveFailed base x trace ∧ (Holds t (dir ++ [x]) source ∨ Cleared s t (dir ++ [x]))
  ahead : ∀ (i : ℕ) (x : Name) (source : Source), roots[i]? = some (x, source) → done.length < i → Same s t (dir ++ [x])
  elsewhere : Outside (fun k => Area dir (roots.map Prod.fst) k ∨ ∃ y, StagedBy base n roots trace y ∧ dir ++ [y] <+: k) s t

section

variable {sides : Sides} {sources : List Source} {s t : Os} {base : Path} {dir : Loc} {x : Name} {source : Source}
  {all : List Name}

theorem same_of_outside {area : Loc → Prop} (h : Outside area s t) (hno : ∀ k, ¬ area (dir ++ [x] ++ k)) :
    Same s t (dir ++ [x]) := fun k => h.view _ (hno k)

theorem StagesAt.append {index : ℕ} {first rest : AgentTrace} {y : Name}
    (h : StagesAt base x index first y ∨ StagesAt base x index rest y) : StagesAt base x index (first ++ rest) y := by
  rcases h with ⟨nonce, single, answer, heq, hmem⟩ | ⟨nonce, single, answer, heq, hmem⟩
  · exact ⟨nonce, single, answer, heq, List.mem_append_left rest hmem⟩
  · exact ⟨nonce, single, answer, heq, List.mem_append_right first hmem⟩

/-- The areas of other names are apart from a name's. -/
theorem not_area {names : List Name} (hx : x ∉ names) {P : Name → Prop} (hstaged : ∀ y, P y → y ≠ x) (k : Loc) :
    ¬ (Area dir names (dir ++ [x] ++ k) ∨ ∃ y, P y ∧ dir ++ [y] <+: dir ++ [x] ++ k) := by
  rintro (⟨m, hm, hpre⟩ | ⟨y, hy, hpre⟩)
  · refine Os.not_prefix_name ?_ k hpre
    rintro rfl
    exact hx hm
  · exact Os.not_prefix_name (hstaged y hy) k hpre

theorem pushedSo_nil {n : ℕ} {trace : AgentTrace} (h : SameTree s t) : PushedSo s t base dir n [] trace [] where
  through _ _ _ _ hroot := by cases hroot
  current _ _ hroot := by cases hroot
  ahead _ _ _ hroot := by cases hroot
  elsewhere := h.outside

/-- One root is done, and the others come behind it. -/
theorem PushedSo.cons {s₁ : Os} {n : ℕ} {roots : List (Name × Source)} {first rest : AgentTrace}
    {pushed : Option PushSummary} {done : List (Option PushSummary)} (h : PushedSo s₁ t base dir (n + 1) roots rest done)
    (hx : x ∉ roots.map Prod.fst) (hstaged : ∀ y, StagedBy base (n + 1) roots rest y → y ≠ x)
    (hout : Outside (dir ++ [x] <+: ·) s s₁)
    (hfirst : (pushed = none → SameTree s s₁) ∧ (pushed ≠ none → Holds s₁ (dir ++ [x]) source)) :
    PushedSo s t base dir n ((x, source) :: roots) (first ++ rest) (pushed :: done) := by
  have hkept : Same s₁ t (dir ++ [x]) := same_of_outside h.elsewhere (not_area hx hstaged)
  have hother : ∀ {x' : Name} {i : ℕ} {source' : Source}, roots[i]? = some (x', source') → Same s s₁ (dir ++ [x']) := by
    intro x' i source' hi k
    refine hout.view _ (Os.not_prefix_name ?_ k)
    rintro rfl
    exact hx (List.mem_map_of_mem (List.mem_of_getElem? hi))
  have hback : ∀ {x' : Name} {i : ℕ} {source' : Source}, roots[i]? = some (x', source') → Same s₁ t (dir ++ [x']) →
      Same s t (dir ++ [x']) := fun hi hsame k => (hsame k).trans (hother hi k)
  constructor
  · intro i x' source' pushed' hroot hdone
    cases i with
    | zero =>
      obtain ⟨rfl, rfl⟩ := Prod.mk.inj (Option.some.inj hroot)
      obtain rfl := Option.some.inj hdone
      exact ⟨fun hnone k => (hkept k).trans ((hfirst.1 hnone).view _), fun hsome k => (hkept k).trans (hfirst.2 hsome k)⟩
    | succ i =>
      obtain ⟨hsame, hholds⟩ := h.through i x' source' pushed' hroot hdone
      exact ⟨fun hnone => hback hroot (hsame hnone), hholds⟩
  · intro x' source' hroot
    rcases h.current x' source' hroot with hsame | ⟨⟨tempRoot, answer, hmem, hanswer⟩, hholds | hcleared⟩
    · exact Or.inl (hback hroot hsame)
    · exact Or.inr ⟨⟨tempRoot, answer, List.mem_append_right first hmem, hanswer⟩, Or.inl hholds⟩
    · refine Or.inr ⟨⟨tempRoot, answer, List.mem_append_right first hmem, hanswer⟩, Or.inr fun k => ?_⟩
      rw [← hother hroot k]
      exact hcleared k
  · intro i x' source' hroot hlt
    cases i with
    | zero => exact absurd hlt (Nat.not_lt_zero _)
    | succ i => exact hback hroot (h.ahead i x' source' hroot (Nat.lt_of_succ_lt_succ hlt))
  · refine (hout.mono fun k hk => Or.inl ⟨x, List.mem_cons_self, hk⟩).trans (h.elsewhere.mono fun k hk => ?_)
    rcases hk with ⟨m, hm, hpre⟩ | ⟨y, ⟨p, hp, hstages⟩, hpre⟩
    · exact Or.inl ⟨m, List.mem_cons_of_mem x hm, hpre⟩
    · exact Or.inr ⟨y, ⟨p, List.mem_cons_of_mem _ hp, StagesAt.append (Or.inr hstages)⟩, hpre⟩

/-- The root it stops at. -/
theorem pushedSo_stopped {n : ℕ} {roots : List (Name × Source)} {trace : AgentTrace} (hx : x ∉ roots.map Prod.fst)
    (hstaged : ∀ y, StagesAt base x n trace y → ∀ x' ∈ roots.map Prod.fst, y ≠ x')
    (hout : Outside (fun k => dir ++ [x] <+: k ∨ ∃ y, StagesAt base x n trace y ∧ dir ++ [y] <+: k) s t)
    (hplace : Same s t (dir ++ [x]) ∨
      MoveFailed base x trace ∧ (Holds t (dir ++ [x]) source ∨ Cleared s t (dir ++ [x]))) :
    PushedSo s t base dir n ((x, source) :: roots) trace [] := by
  constructor
  · intro i x' source' pushed' hroot hdone
    cases hdone
  · intro x' source' hroot
    obtain ⟨rfl, rfl⟩ := Prod.mk.inj (Option.some.inj hroot)
    exact hplace
  · intro i x' source' hroot hlt
    cases i with
    | zero => exact absurd hlt (Nat.not_lt_zero _)
    | succ i =>
      have hroot' : roots[i]? = some (x', source') := hroot
      have hmem : x' ∈ roots.map Prod.fst := List.mem_map_of_mem (List.mem_of_getElem? hroot')
      refine same_of_outside hout fun k hk => ?_
      rcases hk with hpre | ⟨y, hy, hpre⟩
      · refine Os.not_prefix_name ?_ k hpre
        rintro rfl
        exact hx hmem
      · exact Os.not_prefix_name (hstaged y hy x' hmem) k hpre
  · refine hout.mono fun k hk => hk.imp (fun h => ⟨x, List.mem_cons_self, h⟩) fun h => h.imp fun y hy => ?_
    exact ⟨⟨((x, source), n), List.mem_cons_self, hy.1⟩, hy.2⟩

/-- **Rounds, one root after the other.** -/
theorem pushedSo_of_rounds (hfew : sources.length ≤ 2 ^ 32) : ∀ {roots : List (Name × Source)} {n : ℕ} {trace : AgentTrace}
    {s : Os} {done : List (Option PushSummary)} {last : Stop AgentCommandFailure Unit},
    Rounds sides.codec asked (.of sources) (placesFrom base n roots) trace done last → Served sides trace s t → RootsAt s base dir →
    (roots.map Prod.fst).Nodup →
    (∀ p ∈ roots.zipIdx n, Rooted sides sources base ⟨p.1.2.path, below base [p.1.1], p.2⟩ p.1.1 p.1.2) →
    (∀ y, StagedBy base n roots trace y → s.view (dir ++ [y]) = none ∧ y ∉ all) → roots.map Prod.fst ⊆ all →
    PushedSo s t base dir n roots trace done ∧
      (last = .returned () → done.length = roots.length ∧ Outside (Area dir (roots.map Prod.fst)) s t)
  | [], n, trace, s, done, last, hrounds, h, _, _, _, _, _ => by
    cases hrounds with
    | all =>
      cases h with
      | nil hsame =>
        exact ⟨pushedSo_nil hsame, fun _ => ⟨rfl, hsame.outside⟩⟩
  | (x, source) :: roots, n, trace, s, done, last, hrounds, h, hat, hnodup, hrooted, hfresh, hall => by
    obtain ⟨hx, hnodup'⟩ := List.nodup_cons.mp hnodup
    have hroot := hrooted _ List.mem_cons_self
    have hin : ∀ x' ∈ x :: roots.map Prod.fst, x' ∈ all := fun x' hx' => hall hx'
    have hfirst : ∀ {first rest : AgentTrace}, trace = first ++ rest → ∀ y, StagesAt base x n first y →
        s.view (dir ++ [y]) = none ∧ y ∉ all := fun htrace y hstages =>
      hfresh y ⟨((x, source), n), List.mem_cons_self, htrace ▸ StagesAt.append (Or.inl hstages)⟩
    have hapart : ∀ {y x' : Name}, y ∉ all → x' ∈ x :: roots.map Prod.fst → y ≠ x' := by
      rintro y x' hy hx' rfl
      exact hy (hin y hx')
    have hstopped : ∀ stop : Stop AgentCommandFailure (Option PushSummary), (∀ pushed, stop ≠ .returned pushed) →
        Round sides.codec asked ⟨source.path, below base [x], n⟩ (.of sources) trace stop →
          PushedSo s t base dir n ((x, source) :: roots) trace [] := by
      intro stop hstop hround
      have hfresh' := hfirst (List.append_nil trace).symm
      obtain ⟨hout, hplace⟩ := round_stopped hat hroot hfew
        (fun y hy => ⟨(hfresh' y hy).1, hapart (hfresh' y hy).2 List.mem_cons_self⟩) hstop hround h
      exact pushedSo_stopped hx (fun y hy x' hx' => hapart (hfresh' y hy).2 (List.mem_cons_of_mem x hx')) hout hplace
    cases hrounds with
    | cut hround => exact ⟨hstopped .waiting nofun hround, nofun⟩
    | @failed _ _ _ failure hround => exact ⟨hstopped (.failed failure) nofun hround, nofun⟩
    | @round _ _ first rest pushed done last hround hrest =>
      obtain ⟨s₁, hserved, hserved'⟩ := h.append
      have hfresh' := hfirst rfl
      obtain ⟨hsame, hreplaced⟩ := round_returned hat hroot hfew
        (fun y hy => ⟨(hfresh' y hy).1, hapart (hfresh' y hy).2 List.mem_cons_self⟩) hround hserved
      have hout : Outside (dir ++ [x] <+: ·) s s₁ := by
        by_cases hnone : pushed = none
        · exact (hsame hnone).outside
        · exact (hreplaced hnone).1
      have hstaged : ∀ y, StagedBy base (n + 1) roots rest y → s.view (dir ++ [y]) = none ∧ y ∉ all := by
        rintro y ⟨p, hp, hstages⟩
        exact hfresh y ⟨p, List.mem_cons_of_mem _ hp, StagesAt.append (Or.inr hstages)⟩
      have hne : ∀ y, StagedBy base (n + 1) roots rest y → y ≠ x := fun y hy =>
        hapart (hstaged y hy).2 List.mem_cons_self
      obtain ⟨hso, hend⟩ := pushedSo_of_rounds hfew hrest hserved' (hat.outside (hout.mono fun k hk => ⟨x, hk⟩)) hnodup'
        (fun p hp => hrooted p (List.mem_cons_of_mem _ hp))
        (fun y hy => ⟨(hout.view _ (by
          have hpre := @Os.not_prefix_name dir _ _ (hne y hy).symm []
          rwa [List.append_nil] at hpre)).trans (hstaged y hy).1, (hstaged y hy).2⟩)
        fun x' hx' => hall (List.mem_cons_of_mem x hx')
      refine ⟨hso.cons hx hne hout ⟨hsame, fun hsome => (hreplaced hsome).2⟩, fun hlast => ?_⟩
      obtain ⟨hlen, hout'⟩ := hend hlast
      refine ⟨congrArg Nat.succ hlen, (hout.mono fun k hk => ⟨x, List.mem_cons_self, hk⟩).trans (hout'.mono ?_)⟩
      rintro k ⟨m, hm, hpre⟩
      exact ⟨m, List.mem_cons_of_mem x hm, hpre⟩

end

/-! ### The whole push -/

theorem rounds_quiet {codec : Codec} {asked : PushArgs} {manifest : LocalBatchManifest} : ∀ {places : List Placement},
    ∃ last, Rounds codec asked manifest places [] [] last
  | [] => ⟨.returned (), .all⟩
  | _ :: _ => ⟨.waiting, .cut (.looking rfl nofun)⟩

theorem PushedSo.mono {s t : Os} {base : Path} {dir : Loc} {n : ℕ} {roots : List (Name × Source)} {a b : AgentTrace}
    {done : List (Option PushSummary)} (h : PushedSo s t base dir n roots a done)
    (hstaged : ∀ y, StagedBy base n roots a y → StagedBy base n roots b y)
    (hmoves : ∀ x, MoveFailed base x a → MoveFailed base x b) : PushedSo s t base dir n roots b done where
  through := h.through
  current x source hroot := (h.current x source hroot).imp id fun hfailed => ⟨hmoves x hfailed.1, hfailed.2⟩
  ahead := h.ahead
  elsewhere := h.elsewhere.mono fun _ hk =>
    hk.imp id fun hk => hk.imp fun y hy => ⟨hstaged y hy.1, hy.2⟩

theorem placements_eq {base : Path} {names : List Name} {sources : List Source} :
    placements (sources.map Source.path) (names.map fun x => below base [x]) = placesFrom base 0 (names.zip sources) := by
  have hzip : ∀ (sources : List Source) (names : List Name) (n : ℕ),
      (((sources.map Source.path).zip (names.map fun x => below base [x])).zipIdx n).map
        (fun pair => (⟨pair.1.1, pair.1.2, pair.2⟩ : Placement)) = placesFrom base n (names.zip sources) := by
    intro sources
    induction sources with
    | nil => intro names n; cases names <;> rfl
    | cons source sources ih =>
      intro names n
      cases names with
      | nil => rfl
      | cons x names =>
        have htail := ih names (n + 1)
        simp only [placesFrom] at htail ⊢
        simp only [List.map_cons, List.zip_cons_cons, List.zipIdx_cons, htail]
  exact hzip sources names 0

/-- **A staged push replaces root by root.** The roots are names of one directory, however
the path to it goes, and nothing is there at the names they are staged at; the sources are
such as arrive as they are (`Source.Good`), and no more than there are indexes. Wherever a run
with `--atomic` or `--if-changed` stops and whatever it has been answered: the roots it is
through with are as they were or are now exactly their sources; the root it is at is as it
was, unless its move was asked for and did not succeed; the others are as they were; and
apart from the roots, and the staged names of the pushes it has made, nothing on the other
side has changed. A run that returns is through with all of them, as it reports, and
leaves nothing at the staged names either. -/
theorem staged_push_atomic (sides : Sides) (asked : PushArgs) (hstaged : asked.atomic = true ∨ asked.ifChanged = true)
    {trace : AgentTrace} {stop : Stop AgentCommandFailure PushSummary}
    (hexec : Exec (runAgentTransferPush sides.codec asked) trace stop) {os t : Os} (hserved : Served sides trace os t)
    {manifest : LocalBatchManifest} {remoteRoots : List Path} {rest : AgentTrace}
    (hbegins : Begins sides.codec asked trace manifest remoteRoots rest) {sources : List Source}
    (hlisted : PushSources sides.localGlob sides.host asked.sourceSpecs manifest sources) (hfew : sources.length ≤ 2 ^ 32)
    (hgood : ∀ source ∈ sources, source.Good) {base : Path} {dir : Loc} {names : List Name} (hat : RootsAt os base dir)
    (hroots : remoteRoots = names.map fun x => below base [x]) (hdistinct : names.Nodup)
    (htext : ∀ x ∈ names, isUtf8 x.1 = true)
    (hfresh : ∀ y, StagedBy base 0 (names.zip sources) trace y → os.view (dir ++ [y]) = none ∧ y ∉ names) :
    ∃ done, PushedSo os t base dir 0 (names.zip sources) trace done ∧
      ∀ summary, stop = .returned summary → done.length = sources.length ∧ summary = asked.reports done ∧
        Outside (Area dir names) os t := by
  obtain ⟨-, -, rfl⟩ := build_eq_ok.mp hlisted.built
  have hplain : ¬ (asked.atomic = false ∧ asked.ifChanged = false) := by
    rintro ⟨hatomic, hchanged⟩
    rw [hatomic, hchanged] at hstaged
    rcases hstaged with h | h <;> cases h
  have hlen : names.length = sources.length := by
    obtain ⟨looked, -, hlooked⟩ := hbegins.split
    have hlen := length_of_resolve hlooked
    rwa [hroots, List.length_map, LocalBatchManifest.of, List.length_map] at hlen
  -- the part of the run that is in rounds; before it and behind it nothing is changed
  have hgoes : ∃ before rounds after done last, trace = before ++ rounds ++ after ∧ changesOf before = [] ∧
      changesOf after = [] ∧
      Rounds sides.codec asked (.of sources) (placesFrom base 0 (names.zip sources)) rounds done last ∧
      ∀ summary, stop = .returned summary → last = .returned () ∧ summary = asked.reports done := by
    rcases begins_of_exec hexec with ⟨hnone, hnot⟩ | ⟨manifest', remoteRoots', rest', hbegins', hgoes⟩
    · obtain ⟨last, hrounds⟩ := @rounds_quiet sides.codec asked (.of sources) (placesFrom base 0 (names.zip sources))
      exact ⟨[], [], trace, [], last, rfl, rfl, hnone, hrounds, fun summary hsummary => absurd hsummary (hnot summary)⟩
    · obtain ⟨rfl, rfl, rfl⟩ := hbegins.unique hbegins'
      simp only [if_neg hplain] at hgoes
      obtain ⟨rounds, checks, done, last, rfl, hchecks, hrounds, hend, -⟩ := rounds_of_goes hgoes
      obtain ⟨before, rfl, hbefore⟩ := hbegins.before
      rw [← placements_eq, ← hroots]
      exact ⟨before, rounds, checks, done, last, (List.append_assoc ..).symm, hbefore, hchecks, hrounds, hend⟩
  obtain ⟨before, rounds, after, done, last, rfl, hbefore, hafter, hrounds, hend⟩ := hgoes
  obtain ⟨os₂, hserved₁, hserved₂⟩ := hserved.append
  obtain ⟨os₁, hserved₀, hserved'⟩ := hserved₁.append
  have hrun : Served sides rounds os t :=
    (hserved'.after (sameTree_of_quiet hbefore hserved₀)).andSame (sameTree_of_quiet hafter hserved₂)
  have hfst : (names.zip sources).map Prod.fst = names := List.map_fst_zip hlen.le
  have hrooted : ∀ p ∈ (names.zip sources).zipIdx 0, Rooted sides sources base ⟨p.1.2.path, below base [p.1.1], p.2⟩
      p.1.1 p.1.2 := by
    intro p hp
    have hget := List.mem_zipIdx_iff_getElem?.mp hp
    obtain ⟨hname, hsource⟩ := List.getElem?_zip_eq_some.mp hget
    have hmem := List.mem_of_getElem? hsource
    exact ⟨rfl, htext _ (List.mem_of_getElem? hname), hgood _ hmem, exists_statSource hlisted.found hmem, hsource⟩
  have hamong : ∀ {asked : Σ c, AgentCall.Answer c}, asked ∈ rounds → asked ∈ before ++ rounds ++ after :=
    fun hmem => List.mem_append_left _ (List.mem_append_right _ hmem)
  have hstages : ∀ y, StagedBy base 0 (names.zip sources) rounds y →
      StagedBy base 0 (names.zip sources) (before ++ rounds ++ after) y := by
    rintro y ⟨p, hp, nonce, single, answer, heq, hmem⟩
    exact ⟨p, hp, nonce, single, answer, heq, hamong hmem⟩
  obtain ⟨hso, hreturned⟩ := pushedSo_of_rounds hfew hrounds hrun hat (by rwa [hfst]) hrooted
    (fun y hy => hfresh y (hstages y hy)) fun x hx => by rwa [hfst] at hx
  rw [List.length_zip, hlen, min_self, hfst] at hreturned
  refine ⟨done, hso.mono hstages ?_, fun summary hsummary => ?_⟩
  · rintro x ⟨tempRoot, answer, hmem, hanswer⟩
    exact ⟨tempRoot, answer, hamong hmem, hanswer⟩
  · obtain ⟨hlast, hreports⟩ := hend summary hsummary
    obtain ⟨hdone, hout⟩ := hreturned hlast
    exact ⟨hdone, hreports, hout⟩

theorem stagedName_ne (x : Name) (index nonce : ℕ) : stagedName x index nonce ≠ x := by
  intro h
  have hlen := congrArg (fun name : Name => name.1.length) h
  simp only [stagedName, stagedText, List.length_append] at hlen
  have hdot : (str ".").length = 1 := rfl
  omega

/-- A file goes to where there is one of its name. -/
def replacesFile : PushArgs := ⟨str "host:1", [str "/f"], str "/f", none, true, false⟩

/-- The client has the new file. -/
def fileSides : Sides := ⟨Daemon.testFsEnv, .documented [] [], noGlob, Edit.remoteFile (str "hi")⟩

/-- The file as a source. -/
def fileSource : Source := ⟨Path.ofStr (str "/f"), [⟨str "f", isName_f⟩], .leaf (.file 0o644 (str "hi")), .ofLeaf _⟩

/-- What the daemon answers of the old file. -/
def fileStat : AgentFsStat := ⟨str "/f", true, some .file, some 3, some 0o644, none, none⟩

/-- Where the new one is received. -/
def stagedFile : Str := str "/.f.rsdb-transfer-5-0"

/-- The calls of the push. -/
def replaceTrace : AgentTrace :=
  [⟨.buildManifest [str "/f"], .ok (.of [fileSource])⟩, ⟨.request (.fsStat (str "/f") none), .ok (.fsStat fileStat)⟩,
    ⟨.clock, some 5⟩, ⟨.push (.of [fileSource]) stagedFile, .ok ⟨1, 2, false, none, false⟩⟩,
    ⟨.request (.fsMove stagedFile (str "/f") true), .ok (.fsMoveResult ⟨stagedFile, str "/f", true⟩)⟩]

theorem exec_replace : Exec (runAgentTransferPush fileSides.codec replacesFile) replaceTrace
    (.returned ⟨1, 2, false, none, false⟩) :=
  .call _ (.call _ (.call _ (.call _ (.call _ (.pure _)))))

/-- The bytes are read in one go. -/
def readsHi : ReadRun := ⟨.ok (), [str "hi"], .ok (), by decide⟩

/-- What the daemon does when it is asked for the file. -/
def replaceStat : Act ControlResponse :=
  Daemon.responding (Daemon.handleFsStat Daemon.testFsEnv.sha256 Daemon.testFsEnv.reads Daemon.testFsEnv.mtimeUnixMs
    (str "/f") none) .fsStat

/-- What it does when the new one is pushed to the staged path. -/
def replacePush : Act ControlResponse :=
  Daemon.handlePushBatch clientRequestId stagedFile (LocalBatchManifest.of [fileSource]).roots
    (LocalBatchManifest.of [fileSource]).entries (streamed (LocalBatchManifest.of [fileSource]).shared fun _ => readsHi)

/-- What it does when that is moved to the file. -/
def replaceMove : Act ControlResponse :=
  Daemon.responding (Daemon.handleFsMove Daemon.testFsEnv.depth stagedFile (str "/f") true) .fsMoveResult

/-- The other side after the stat. -/
@[irreducible] def afterStat : Os := (run Os.step replaceStat (Edit.remoteFile (str "old"))).2

/-- After the push the new file is beside the old one. -/
@[irreducible] def afterPush : Os := (run Os.step replacePush afterStat).2

/-- After the move it is in its place. -/
@[irreducible] def afterMove : Os := (run Os.step replaceMove afterPush).2

theorem run_replaceStat : ∃ result, run Os.step replaceStat (Edit.remoteFile (str "old")) = (result, afterStat) ∧
    Daemon.fsAnswer fileSides.codec.response result = .fsStat fileStat := by
  unfold afterStat
  exact ⟨_, rfl, by decide +kernel⟩

theorem run_replacePush : ∃ response, run Os.step replacePush afterStat = (.ok response, afterPush) := by
  have hok : (run Os.step replacePush afterStat).1.isOk = true := by decide +kernel
  unfold afterPush
  exact Prog.outcome_of_isOk hok

theorem run_replaceMove : ∃ result, run Os.step replaceMove afterPush = (result, afterMove) ∧
    Daemon.fsAnswer fileSides.codec.response result = .fsMoveResult ⟨stagedFile, str "/f", true⟩ := by
  unfold afterMove
  exact ⟨_, rfl, by decide +kernel⟩

theorem listed_file : PushSources fileSides.localGlob fileSides.host [str "/f"] (.of [fileSource]) [fileSource] := ⟨rfl, rfl⟩

theorem good_file : fileSource.Good :=
  ⟨(plainTree_iff fileSource.ordered).mpr (by decide), by decide, by decide,
    textTree_of_preorder fileSource.ordered (by decide)⟩

theorem steady_file : fileSides.Steady (.of [fileSource]) fun _ => readsHi := by
  intro i file hi
  cases i with
  | zero =>
    obtain rfl := Option.some.inj hi
    exact ⟨_, _, _, rfl, rfl, rfl, rfl⟩
  | succ i => cases hi

theorem served_replace : Served fileSides replaceTrace (Edit.remoteFile (str "old")) afterMove := by
  obtain ⟨stat, hstat, hstatAnswer⟩ := run_replaceStat
  obtain ⟨response, hpush⟩ := run_replacePush
  obtain ⟨moved, hmove, hmoveAnswer⟩ := run_replaceMove
  refine .cons (SameTree.refl _) ⟨SameTree.refl _, fun manifest hmanifest => ⟨[fileSource], ?_⟩⟩ ?_
  · exact Except.ok.inj hmanifest ▸ listed_file
  refine .cons (SameTree.refl _) ⟨replaceStat, stat, rfl, hstat, hstatAnswer.symm⟩ ?_
  refine .cons (SameTree.refl _) (SameTree.refl _) ?_
  refine .cons (SameTree.refl _) ⟨_, response, steady_file, hpush⟩ ?_
  exact .cons (SameTree.refl _) ⟨replaceMove, moved, rfl, hmove, hmoveAnswer.symm⟩ (.nil (SameTree.refl _))

theorem begins_replace : Begins fileSides.codec replacesFile replaceTrace (.of [fileSource])
    [below (.ofStr (str "/")) [⟨str "f", isName_f⟩]] (replaceTrace.drop 2) :=
  ⟨[⟨.request (.fsStat (str "/f") none), .ok (.fsStat fileStat)⟩], rfl, .call _ (.pure _)⟩

/-- The root directory is where it is. -/
theorem rootsAt_root {os : Os} {mode : ℕ} (hview : os.view [] = some (.inr mode)) : RootsAt os (.ofStr (str "/")) [] where
  named := by decide
  text := by decide
  leads t ht := by
    have hroot : t.view [] = some (.inr mode) := by
      rw [ht.view [] fun hinside => ?_, hview]
      obtain ⟨y, hpre⟩ := hinside
      cases List.prefix_nil.mp hpre
    refine ⟨mode, ?_⟩
    show Os.walkWith t true (Os.walk t true 39) [] [] = _
    unfold Os.walkWith
    simp [hroot]

/-- One file is replaced by another. -/
theorem staged_push_atomic_file : ∃ done, PushedSo (Edit.remoteFile (str "old")) afterMove (.ofStr (str "/")) [] 0
      [(⟨str "f", isName_f⟩, fileSource)] replaceTrace done ∧
    done.length = 1 ∧ Outside (Area [] [⟨str "f", isName_f⟩]) (Edit.remoteFile (str "old")) afterMove := by
  have hgood : ∀ source ∈ [fileSource], source.Good := by
    intro source hsource
    rw [List.mem_singleton.mp hsource]
    exact good_file
  have hfresh : ∀ y, StagedBy (.ofStr (str "/")) 0 ([⟨str "f", isName_f⟩].zip [fileSource]) replaceTrace y →
      (Edit.remoteFile (str "old")).view ([] ++ [y]) = none ∧ y ∉ [⟨str "f", isName_f⟩] := by
    rintro y ⟨p, hp, nonce, single, answer, rfl, -⟩
    obtain rfl := List.mem_singleton.mp hp
    have hne := stagedName_ne ⟨str "f", isName_f⟩ 0 nonce
    refine ⟨?_, by simpa using hne⟩
    show DirTree.view (DirTree.dir 0o755 [(⟨str "f", isName_f⟩, DirTree.leaf (Leaf.file 0o644 (str "old")))])
      [stagedName ⟨str "f", isName_f⟩ 0 nonce] = none
    simp [DirTree.view, DirTree.sub_dir_cons, DirTree.child, hne.symm]
  obtain ⟨done, hso, hend⟩ := staged_push_atomic fileSides replacesFile (Or.inl rfl) exec_replace served_replace
    begins_replace listed_file (by decide) hgood (@rootsAt_root _ 0o755 rfl) rfl (List.nodup_singleton _) (by decide) hfresh
  obtain ⟨hlength, -, hout⟩ := hend _ rfl
  exact ⟨done, hso, hlength, hout⟩

end Agent

end Client

end Rsdb
