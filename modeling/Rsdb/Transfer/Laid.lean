/-
# The entries of a batch below a directory that is there

Sources go below a directory, each under its name, where nothing is yet or what
is there is what arrives (`Setting`). While the entries are received, the ones
that are done are laid out and the rest is as it was (`Laid`): the directories
above the next entry are done, and have their permission bits already. So the
bits of the sources decide whether an entry arrives (`Permits`), and the batch
is received exactly when they permit all of them (`receiveEntries_decides`).
-/
import Rsdb.Transfer.ReceivedBelow

namespace Rsdb

open Os (SameProcess Leads Keeps below Spot CanPlace Searchable DirsAbove Placed ownerWrite ownerSearch)

/-! ### Where an item goes -/

/-- The names of an item below the destination: the one of its source, and its own. -/
def Item.full (sources : List Source) (item : Item) : List Name :=
  (sources[item.rootIndex]?.bind Source.name?).toList ++ item.names

/-- The source of an item, and its name. -/
structure Item.Of (sources : List Source) (item : Item) (source : Source) (name : Name) : Prop where
  get : sources[item.rootIndex]? = some source
  named : source.name? = some name
  view : source.tree.view item.names = some item.obj

theorem Item.Of.full {sources : List Source} {item : Item} {source : Source} {name : Name}
    (h : item.Of sources source name) : item.full sources = name :: item.names := by
  rw [Item.full, h.get, Option.bind_some, h.named]
  rfl

theorem exists_of {sources : List Source} (hgood : ∀ s ∈ sources, s.Good) {item : Item}
    (h : item ∈ manifestItems sources) : ∃ source name, item.Of sources source name := by
  obtain ⟨i, source, hs, hitem⟩ := mem_itemsFrom.mp h
  obtain ⟨hindex, hview⟩ := Source.view_of_mem_items hitem
  rw [Nat.zero_add] at hindex
  obtain ⟨name, hname⟩ := Option.isSome_iff_exists.mp (hgood source (List.mem_of_getElem? hs)).named
  exact ⟨source, name, hindex ▸ hs, hname, hview⟩

/-- Every place of a source is an item. -/
theorem exists_item {sources : List Source} {i : ℕ} {source : Source} (hs : sources[i]? = some source) {l : Loc}
    {obj : Obj} (hview : source.tree.view l = some obj) :
    ∃ item ∈ manifestItems sources, item.rootIndex = i ∧ item.names = l ∧ item.obj = obj := by
  obtain ⟨item, hitem, hrest⟩ := Source.mem_items_of_view hview i
  exact ⟨item, mem_itemsFrom.mpr ⟨i, source, hs, by rwa [Nat.zero_add]⟩, hrest⟩

/-- Sources with the same name are the same. -/
theorem index_of_name {sources : List Source} (hnames : (sources.map Source.name?).Nodup) {i j : ℕ} {s t : Source}
    (hi : sources[i]? = some s) (hj : sources[j]? = some t) (h : s.name? = t.name?) : i = j := by
  refine (List.getElem?_inj (by simpa using (List.getElem?_eq_some_iff.mp hi).1) hnames).mp ?_
  rw [List.getElem?_map, List.getElem?_map, hi, hj, Option.map_some, Option.map_some, h]

theorem full_injective {sources : List Source} (hnames : (sources.map Source.name?).Nodup) {item item' : Item}
    {source source' : Source} {name name' : Name} (h : item.Of sources source name)
    (h' : item'.Of sources source' name') (heq : item.full sources = item'.full sources) :
    item.rootIndex = item'.rootIndex ∧ item.names = item'.names := by
  rw [h.full, h'.full, List.cons.injEq] at heq
  refine ⟨index_of_name hnames h.get h'.get ?_, heq.2⟩
  rw [h.named, h'.named, heq.1]

theorem nodup_full {sources : List Source} (hgood : ∀ s ∈ sources, s.Good)
    (hnames : (sources.map Source.name?).Nodup) : ((manifestItems sources).map (Item.full sources)).Nodup := by
  refine List.Nodup.map_on (fun a ha b hb heq => ?_) (List.Nodup.of_map _ (nodup_itemsFrom 0 sources))
  obtain ⟨s, n, hs⟩ := exists_of hgood ha
  obtain ⟨s', n', hs'⟩ := exists_of hgood hb
  obtain ⟨hindex, hn⟩ := full_injective hnames hs hs' heq
  exact List.inj_on_of_nodup_map (nodup_itemsFrom 0 sources) ha hb (by rw [hindex, hn])

/-- A directory is listed before what is in it. -/
theorem parentsFirst_items : ∀ (sources before : List Source), (∀ s ∈ sources, s.name?.isSome = true) →
    DirTree.ParentsFirst (fun k => k = [])
      ((itemsFrom before.length sources).map (Item.full (before ++ sources)))
  | [], _, _ => trivial
  | source :: sources, before, h => by
    obtain ⟨name, hname⟩ := Option.isSome_iff_exists.mp (h source List.mem_cons_self)
    have hget : (before ++ source :: sources)[before.length]? = some source := by simp
    have hitems : (source.items before.length).map (Item.full (before ++ source :: sources)) =
        source.tree.preorder.map fun p => [name] ++ p.1 := by
      rw [Source.items, itemsUnder, List.map_map]
      refine List.map_congr_left fun p _ => ?_
      show ((before ++ source :: sources)[before.length]?.bind Source.name?).toList ++ ([] ++ p.1) = _
      rw [hget, Option.bind_some, hname]
      rfl
    have hrest := parentsFirst_items sources (before ++ [source]) fun s hs => h s (List.mem_cons_of_mem _ hs)
    rw [List.length_append, List.length_singleton, List.append_assoc, List.singleton_append] at hrest
    rw [itemsFrom, List.map_append, hitems]
    refine DirTree.ParentsFirst.append (DirTree.parentsFirst_preorder source.tree [name] _ fun pre hpre hne => ?_)
      (hrest.mono fun k hk => Or.inl hk)
    rcases List.prefix_concat_iff.mp (show pre <+: [] ++ [name] from hpre) with heq | hpre
    · exact absurd heq hne
    · exact List.prefix_nil.mp hpre

/-- The directories above an item come before it. -/
theorem above_before {sources : List Source} (hgood : ∀ s ∈ sources, s.Good)
    (hnames : (sources.map Source.name?).Nodup) {done rest : List Item} {item : Item}
    (hitems : manifestItems sources = done ++ item :: rest) {source : Source} {name : Name}
    (h : item.Of sources source name) {pre : List Name} (hpre : pre <+: item.names) (hne : pre ≠ item.names) :
    ∃ above ∈ done, ∃ mode, above.full sources = name :: pre ∧ above.obj = .inr mode ∧
      source.tree.view pre = some (.inr mode) := by
  have hfirst := parentsFirst_items sources [] fun s hs => (hgood s hs).named
  rw [List.nil_append] at hfirst
  have hitems' : itemsFrom 0 sources = done ++ item :: rest := hitems
  rw [List.length_nil, hitems', List.map_append, List.map_cons] at hfirst
  have hbefore := hfirst.before (name :: pre) (by rw [h.full]; exact (List.prefix_cons_inj name).mpr hpre)
    (by rw [h.full]; exact fun heq => hne (List.cons.inj heq).2)
  obtain ⟨above, habove, hfull⟩ := List.mem_map.mp (hbefore.resolve_left (List.cons_ne_nil _ _))
  have hmem : above ∈ manifestItems sources := by rw [hitems]; exact List.mem_append_left _ habove
  obtain ⟨source', name', h'⟩ := exists_of hgood hmem
  have hcons := h'.full.symm.trans hfull
  rw [List.cons.injEq] at hcons
  have hindex := index_of_name hnames h'.get h.get (by rw [h'.named, h.named, hcons.1])
  have hsource : source' = source := Option.some.inj (h'.get.symm.trans (hindex ▸ h.get))
  obtain ⟨more, hmore⟩ := hpre
  have hdir : ∃ mode, source.tree.view pre = some (.inr mode) := by
    obtain ⟨n, more, rfl⟩ := List.exists_cons_of_ne_nil (show more ≠ [] by rintro rfl; simp at hmore; exact hne hmore)
    have hview := h.view
    rw [← hmore] at hview
    have hsub : source.tree.view ((pre ++ [n]) ++ more) = some item.obj := by simpa using hview
    obtain ⟨y, hy⟩ := DirTree.exists_view_of_append hsub
    exact DirTree.exists_dir_of_view hy
  obtain ⟨mode, hmode⟩ := hdir
  refine ⟨above, habove, mode, hfull, ?_, hmode⟩
  have hview := h'.view
  rw [hsource, hcons.2, hmode] at hview
  exact (Option.some.inj hview).symm

/-! ### What is laid out -/

/-- The sources can go below the directory: it can be changed, and where
something is already, it is what arrives. -/
structure Setting (os : Os) (base : Path) (dir : Loc) (sources : List Source) : Prop where
  leads : Leads os base dir
  room : ∃ mode, os.view dir = some (.inr mode) ∧ os.may mode ownerWrite = true ∧ os.may mode ownerSearch = true
  good : ∀ s ∈ sources, s.Good
  distinct : (sources.map Source.name?).Nodup
  same : ∀ (i : ℕ) (source : Source) (name : Name) (l : Loc) (obj old : Obj), sources[i]? = some source →
    source.name? = some name → source.tree.view l = some obj → os.view (dir ++ name :: l) = some old → old = obj.exact

/-- The items that are done are there; the rest is as it was. -/
structure Laid (os os' : Os) (dir : Loc) (sources : List Source) (done : List Item) : Prop
    extends SameProcess os os' where
  there : ∀ item ∈ done, os'.view (dir ++ item.full sources) = some item.arrives
  other : ∀ k, (∀ item ∈ done, k ≠ dir ++ item.full sources) → os'.view k = os.view k

theorem Laid.nil (os : Os) (dir : Loc) (sources : List Source) : Laid os os dir sources [] where
  toSameProcess := SameProcess.refl os
  there := by simp
  other _ _ := rfl

/-- One more item, at another place. -/
theorem Laid.snoc {os os1 os2 : Os} {dir : Loc} {sources : List Source} {done : List Item} {item : Item}
    (h : Laid os os1 dir sources done) (hplaced : Placed os1 os2 (dir ++ item.full sources) item.arrives)
    (hne : ∀ d ∈ done, d.full sources ≠ item.full sources) : Laid os os2 dir sources (done ++ [item]) where
  toSameProcess := h.toSameProcess.trans hplaced.toSameProcess
  there d hd := by
    rcases List.mem_append.mp hd with hd | hd
    · rw [hplaced.other fun heq => hne d hd (List.append_cancel_left heq)]
      exact h.there d hd
    · rw [List.mem_singleton.mp hd]
      exact hplaced.self
  other k hk := by
    obtain ⟨hdone, hitem⟩ := List.forall_mem_append.mp hk
    rw [hplaced.other (hitem item List.mem_cons_self)]
    exact h.other k hdone

section

variable {os os' : Os} {base : Path} {dir : Loc} {sources : List Source} {done rest : List Item} {item : Item}
  {source : Source} {name : Name}

/-- The path to the destination still leads there. -/
theorem Laid.keeps (h : Laid os os' dir sources done) (hset : Setting os base dir sources)
    (hdone : ∀ d ∈ done, d ∈ manifestItems sources) : Keeps os os' := by
  have hsame : ∀ k obj, os.view k = some obj → (∀ d ∈ done, k = dir ++ d.full sources → obj = d.arrives) := by
    intro k obj hk d hd heq
    obtain ⟨source, name, hof⟩ := exists_of hset.good (hdone d hd)
    rw [heq, hof.full] at hk
    exact hset.same d.rootIndex source name d.names d.obj obj hof.get hof.named hof.view hk
  have hview : ∀ k obj, os.view k = some obj → os'.view k = some obj := by
    intro k obj hk
    by_cases hlaid : ∃ d ∈ done, k = dir ++ d.full sources
    · obtain ⟨d, hd, heq⟩ := hlaid
      rw [hsame k obj hk d hd heq, heq]
      exact h.there d hd
    · rw [h.other k fun d hd heq => hlaid ⟨d, hd, heq⟩, hk]
  exact ⟨h.toSameProcess, fun k mode hk => hview k _ hk, fun k target hk => hview k _ hk⟩

variable (h : Laid os os' dir sources done) (hset : Setting os base dir sources)
  (hitems : manifestItems sources = done ++ item :: rest)

include hset hitems in
theorem not_done : ∀ d ∈ done, d.full sources ≠ item.full sources := by
  intro d hd heq
  have hnodup := nodup_full hset.good hset.distinct
  rw [hitems, List.map_append, List.nodup_append, List.map_cons] at hnodup
  exact hnodup.2.2 _ (List.mem_map_of_mem hd) _ List.mem_cons_self heq

include h hset hitems

/-- The place of the next item is as it was. -/
theorem Laid.next : os'.view (dir ++ item.full sources) = os.view (dir ++ item.full sources) :=
  h.other _ fun d hd heq => not_done hset hitems d hd (List.append_cancel_left heq).symm

/-- The destination is as it was. -/
theorem Laid.top : os'.view dir = os.view dir := by
  refine h.other _ fun d hd heq => ?_
  obtain ⟨source, name, hof⟩ := exists_of hset.good
    (show d ∈ manifestItems sources by rw [hitems]; exact List.mem_append_left _ hd)
  rw [hof.full] at heq
  simp at heq

/-- A directory above the next item has the permission bits of its source. -/
theorem Laid.above (hof : item.Of sources source name) {pre : List Name} (hpre : pre <+: item.names)
    (hne : pre ≠ item.names) : ∃ mode, source.tree.view pre = some (.inr mode) ∧
      os'.view (dir ++ name :: pre) = some (.inr (fileMode mode)) := by
  obtain ⟨d, hd, mode, hfull, hobj, hview⟩ := above_before hset.good hset.distinct hitems hof hpre hne
  refine ⟨mode, hview, ?_⟩
  rw [← hfull, h.there d hd, Item.arrives, hobj]
  rfl

theorem Laid.spot (hof : item.Of sources source name) : Spot os' base dir (item.full sources) where
  leads := hset.leads.keeps (h.keeps hset fun d hd => by rw [hitems]; exact List.mem_append_left _ hd)
  named := by rw [hof.full]; exact List.cons_ne_nil _ _
  above pre hpre hne := by
    rw [hof.full] at hpre hne
    cases pre with
    | nil =>
      obtain ⟨mode, hmode, -⟩ := hset.room
      exact ⟨mode, by rw [List.append_nil, h.top hset hitems, hmode]⟩
    | cons n pre =>
      obtain ⟨rfl, htail⟩ := List.cons_prefix_cons.mp hpre
      obtain ⟨mode, -, hview⟩ := h.above hset hitems hof htail fun heq => hne (heq ▸ rfl)
      exact ⟨_, hview⟩

end

/-! ### What the permission bits allow -/

/-- The bits of the directories above a place of a source allow it to be placed,
or written where it is there. -/
structure Permits (os : Os) (place : Loc) (source : Source) (l : Loc) : Prop where
  search : ∀ pre mode, pre <+: l → pre ≠ l → source.tree.view pre = some (.inr mode) →
    os.may (fileMode mode) ownerSearch = true
  change : os.view (place ++ l) = none → ∀ pre name mode, l = pre ++ [name] →
    source.tree.view pre = some (.inr mode) → os.may (fileMode mode) ownerWrite = true
  write : ∀ mode content, os.view (place ++ l) = some (.inl (.file mode content)) → os.may mode ownerWrite = true

section

variable {os os' : Os} {base : Path} {dir : Loc} {sources : List Source} {done rest : List Item} {item : Item}
  {source : Source} {name : Name}

theorem Laid.canPlace_iff (h : Laid os os' dir sources done) (hset : Setting os base dir sources)
    (hitems : manifestItems sources = done ++ item :: rest) (hof : item.Of sources source name) :
    CanPlace os' dir (item.full sources) ↔ Permits os (dir ++ [name]) source item.names := by
  have hplace : ∀ l, dir ++ name :: l = (dir ++ [name]) ++ l := by simp
  have hnext := h.next hset hitems
  have hmay := h.toSameProcess.may
  rw [hof.full, hplace] at hnext
  obtain ⟨top, htop, hwrite, hsearch⟩ := hset.room
  have htop' : os'.view dir = some (.inr top) := by rw [h.top hset hitems, htop]
  -- the directory the item is in, and its bits
  have hchange : os'.mayChange (dir ++ name :: item.names) = true ↔
      ∀ pre n mode, item.names = pre ++ [n] → source.tree.view pre = some (.inr mode) →
        os.may (fileMode mode) ownerWrite = true ∧ os.may (fileMode mode) ownerSearch = true := by
    rcases List.eq_nil_or_concat item.names with hnil | ⟨pre, n, hconcat⟩
    · rw [hnil, Os.mayChange, List.dropLast_concat, htop']
      simp [hmay, hwrite, hsearch]
    · rw [List.concat_eq_append] at hconcat
      obtain ⟨mode, hview, hlaid⟩ := h.above hset hitems hof
        (show pre <+: item.names by rw [hconcat]; exact List.prefix_append _ _)
        (by rw [hconcat]; simp)
      have hdrop : (dir ++ name :: (pre ++ [n])).dropLast = dir ++ name :: pre := by
        rw [← List.cons_append, ← List.append_assoc, List.dropLast_concat]
      rw [hconcat, Os.mayChange, hdrop, hlaid]
      simp only [hmay, Bool.and_eq_true]
      constructor
      · intro hboth pre' n' mode' heq hview'
        obtain ⟨rfl, -⟩ := List.append_inj' heq rfl
        rw [hview] at hview'
        cases hview'
        exact hboth
      · exact fun hall => hall pre n mode rfl hview
  rw [hof.full]
  constructor
  · intro hcan
    refine ⟨fun pre mode hpre hne hview => ?_, fun hnone pre n mode heq hview => ?_, fun mode content hv => ?_⟩
    · obtain ⟨mode', hview', hlaid⟩ := h.above hset hitems hof hpre hne
      rw [hview] at hview'
      cases hview'
      have hcons := hcan.search (name :: pre) ((List.prefix_cons_inj name).mpr hpre)
        (fun heq => hne (List.cons.inj heq).2) _ hlaid
      rwa [hmay] at hcons
    · have hch := hcan.change (by rw [hplace, hnext, hnone])
      exact (hchange.mp hch pre n mode heq hview).1
    · have hw := hcan.write mode content (by rw [hplace, hnext, hv])
      rwa [hmay] at hw
  · intro hp
    refine ⟨fun pre hpre hne mode hview => ?_, fun hnone => ?_, fun mode content hv => ?_⟩
    · cases pre with
      | nil =>
        rw [List.append_nil, htop'] at hview
        cases hview
        rw [hmay, hsearch]
      | cons n pre =>
        obtain ⟨rfl, htail⟩ := List.cons_prefix_cons.mp hpre
        have hne' : pre ≠ item.names := fun heq => hne (heq ▸ rfl)
        obtain ⟨mode', hview', hlaid⟩ := h.above hset hitems hof htail hne'
        rw [hlaid] at hview
        cases hview
        rw [hmay]
        exact hp.search pre mode' htail hne' hview'
    · rw [hplace, hnext] at hnone
      refine hchange.mpr fun pre n mode heq hview => ⟨hp.change hnone pre n mode heq hview, ?_⟩
      exact hp.search pre mode (by rw [heq]; exact List.prefix_append _ _) (by rw [heq]; simp) hview
    · rw [hplace, hnext] at hv
      rw [hmay]
      exact hp.write mode content hv

/-- The bits permit an item. -/
def Item.Permitted (os : Os) (dir : Loc) (sources : List Source) (item : Item) : Prop :=
  ∀ source name, item.Of sources source name → Permits os (dir ++ [name]) source item.names

/-- **The entries of a batch are received exactly when the bits permit each of
them**, and then all are there. -/
theorem Receiver.receiveEntries_decides (r : Receiver) (hexact : r.Exact) (hset : Setting os base dir sources)
    {rootPaths : List Path}
    (hroots : ∀ item ∈ manifestItems sources, ∃ root, rootPaths[item.entry.rootIndex]? = some root ∧
      item.target root = below base (item.full sources)) (left : Bytes) :
    ∀ {items : List Item} {readss : List (List Bytes)}, List.Forall₂ Item.ReadAs items readss →
      ∀ {done : List Item}, manifestItems sources = done ++ items → ∀ (n bytes : ℕ) {os' : Os},
      Laid os os' dir sources done →
      Decides (∀ item ∈ items, item.Permitted os dir sources)
        (fun out os'' => out = (n + items.length, bytes + (items.map fun i => i.entry.size).sum, left) ∧
          Laid os os'' dir sources (manifestItems sources))
        (r.receiveEntries rootPaths (items.map Item.entry) n bytes
          (chunksBytes r.requestId readss.flatten ++ left)) os'
  | [], [], .nil, done, hitems, n, bytes, os', h => by
    have hdone : Laid os os' dir sources (manifestItems sources) := by rwa [hitems, List.append_nil]
    exact ⟨fun _ => ⟨_, os', rfl, rfl, hdone⟩, fun hno => absurd (by simp) hno⟩
  | item :: items, reads :: readss, .cons hreads hrest, done, hitems, n, bytes, os', h => by
    have hmem : item ∈ manifestItems sources := by rw [hitems]; exact List.mem_append_right _ List.mem_cons_self
    obtain ⟨source, name, hof⟩ := exists_of hset.good hmem
    obtain ⟨root, hroot, htarget⟩ := hroots item hmem
    have hgood := hset.good source (List.mem_of_getElem? hof.get)
    have hplain : Obj.Plain item.obj := hgood.plain _ _ hof.view
    have htext := hgood.text _ _ hof.view
    have hinput : chunksBytes r.requestId (reads :: readss).flatten ++ left =
        chunksBytes r.requestId reads ++ (chunksBytes r.requestId readss.flatten ++ left) := by
      rw [List.flatten_cons, chunksBytes_append, List.append_assoc]
    have hsame : ∀ old, os'.view (dir ++ item.full sources) = some old → old = item.arrives := by
      intro old hold
      rw [h.next hset hitems, hof.full] at hold
      exact hset.same _ source name item.names item.obj old hof.get hof.named hof.view hold
    have hone := r.receiveEntry_decides hexact (h.spot hset hitems hof) hroot htarget hplain htext hsame hreads bytes
      (chunksBytes r.requestId readss.flatten ++ left)
    have hpermitted : item.Permitted os dir sources ↔ CanPlace os' dir (item.full sources) := by
      rw [h.canPlace_iff hset hitems hof]
      constructor
      · exact fun hp => hp source name hof
      · intro hp source' name' hof'
        have hs : source' = source := Option.some.inj (hof'.get.symm.trans hof.get)
        have hn : name' = name := by
          have hnamed := hof'.named
          rw [hs, hof.named] at hnamed
          exact (Option.some.inj hnamed).symm
        rw [hs, hn]
        exact hp
    rw [List.forall_mem_cons, hpermitted, hinput]
    refine hone.bind fun out os1 ⟨hout, hplaced⟩ => ?_
    subst hout
    have hnext := receiveEntries_decides r hexact hset hroots left hrest
      (show manifestItems sources = (done ++ [item]) ++ items by
        rw [hitems, List.append_assoc, List.singleton_append]) (n + 1) (bytes + item.entry.size)
      (h.snoc hplaced (not_done hset hitems))
    have hlen : n + 1 + items.length = n + (item :: items).length := by rw [List.length_cons]; omega
    have hsum : bytes + item.entry.size + (items.map fun i => i.entry.size).sum =
        bytes + ((item :: items).map fun i => i.entry.size).sum := by rw [List.map_cons, List.sum_cons]; omega
    rwa [hlen, hsum] at hnext

end

end Rsdb
