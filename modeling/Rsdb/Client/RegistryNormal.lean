/-
# The normal form of the registry

`normalize_registry` keeps the last entry for each address and makes the current
target the address of the primary one. What it keeps is `lastEntries`, a
definition that says so; the fold of the source comes to it whatever it has kept
before (`foldl_dedupPush`).

`normalize_registry_law` has the whole law: what is kept, in which order, which
target is the primary one before and after, and what a load finds that follows a
save. The registry file is taken at what `serde_json` reads from it.
-/
import Rsdb.Client.Registry

namespace Rsdb

namespace Client

/-! ### The entries that are kept -/

/-- The entries after which no other one has the same address. -/
def lastEntries : List StoredTarget → List StoredTarget
  | [] => []
  | target :: targets =>
    if target.addr ∈ targets.map StoredTarget.addr then lastEntries targets else target :: lastEntries targets

theorem lastEntries_sublist : ∀ targets : List StoredTarget, (lastEntries targets).Sublist targets
  | [] => List.Sublist.refl []
  | target :: targets => by
    unfold lastEntries
    split
    · exact (lastEntries_sublist targets).cons target
    · exact (lastEntries_sublist targets).cons_cons target

/-- Every address is kept. -/
theorem mem_addr_lastEntries {addr : Str} : ∀ {targets : List StoredTarget},
    addr ∈ (lastEntries targets).map StoredTarget.addr ↔ addr ∈ targets.map StoredTarget.addr
  | [] => Iff.rfl
  | target :: targets => by
    have ih : addr ∈ (lastEntries targets).map StoredTarget.addr ↔ addr ∈ targets.map StoredTarget.addr :=
      mem_addr_lastEntries
    unfold lastEntries
    by_cases hlater : target.addr ∈ targets.map StoredTarget.addr
    · rw [if_pos hlater, ih, List.map_cons, List.mem_cons]
      constructor
      · exact Or.inr
      · rintro (rfl | h)
        · exact hlater
        · exact h
    · rw [if_neg hlater, List.map_cons, List.map_cons, List.mem_cons, List.mem_cons, ih]

/-- The fold keeps what it has kept for other addresses, then the last entries. -/
theorem foldl_dedupPush : ∀ (targets deduped : List StoredTarget), (deduped.map StoredTarget.addr).Nodup →
    targets.foldl dedupPush deduped =
      (deduped.filter fun t => t.addr ∉ targets.map StoredTarget.addr) ++ lastEntries targets
  | [], deduped, _ => by simp [lastEntries]
  | target :: targets, deduped, h => by
    have ih := foldl_dedupPush targets (replaced deduped target) (replaced_distinct h target)
    have hkept : ((deduped.filter fun t => t.addr ≠ target.addr).filter
          fun t => t.addr ∉ targets.map StoredTarget.addr) =
        deduped.filter fun t => t.addr ∉ (target :: targets).map StoredTarget.addr := by
      rw [List.filter_filter]
      refine List.filter_congr fun t _ => ?_
      rw [Bool.and_comm, ← Bool.decide_and]
      simp only [List.map_cons, List.mem_cons, not_or, ne_eq]
    rw [List.foldl_cons, dedupPush_eq h, ih, replaced, List.filter_append, hkept, List.append_assoc, lastEntries]
    by_cases hlater : target.addr ∈ targets.map StoredTarget.addr
    · rw [if_pos hlater, List.filter_cons_of_neg (by simpa using hlater), List.filter_nil, List.nil_append]
    · rw [if_neg hlater, List.filter_cons_of_pos (by simpa using hlater), List.filter_nil, List.singleton_append]

theorem normalizeRegistry_targets (registry : Registry) :
    (normalizeRegistry registry).targets = lastEntries registry.targets := by
  show registry.targets.foldl dedupPush [] = _
  rw [foldl_dedupPush registry.targets [] (by simp), List.filter_nil, List.nil_append]

/-! ### The primary target -/

theorem findIdx?_lt {targets : List StoredTarget} {p : StoredTarget → Bool} {index : ℕ}
    (h : targets.findIdx? p = some index) : index < targets.length :=
  (List.findIdx?_eq_some_iff_getElem.mp h).1

/-- There is a primary target where there is a target. -/
theorem primaryTargetIndex_lt {registry : Registry} (h : registry.targets ≠ []) :
    ∃ index, primaryTargetIndex registry = some index ∧ index < registry.targets.length := by
  have hpos := List.length_pos_iff.mpr h
  have hlast : (if registry.targets.length = 0 then none else some (registry.targets.length - 1)) =
      some (registry.targets.length - 1) := if_neg hpos.ne'
  unfold primaryTargetIndex
  cases registry.currentTarget with
  | none => exact ⟨_, hlast, by omega⟩
  | some current =>
    cases haddr : registry.targets.findIdx? fun entry => entry.addr = current with
    | some index => exact ⟨index, by simp only [haddr], findIdx?_lt haddr⟩
    | none =>
      cases hname : registry.targets.findIdx? fun entry => entry.name = current with
      | some index => exact ⟨index, by simp only [haddr, hname], findIdx?_lt hname⟩
      | none =>
        refine ⟨registry.targets.length - 1, ?_, by omega⟩
        simp only [haddr, hname, hlast]

theorem exists_primaryTarget {registry : Registry} (h : registry.targets ≠ []) :
    ∃ target ∈ registry.targets, primaryTarget registry = some target := by
  obtain ⟨index, hindex, hlt⟩ := primaryTargetIndex_lt h
  refine ⟨registry.targets[index], List.getElem_mem hlt, ?_⟩
  rw [primaryTarget, hindex, Option.bind_some, List.getElem?_eq_getElem hlt]

/-- Without targets there is none. -/
theorem primaryTarget_of_nil {registry : Registry} (h : registry.targets = []) : primaryTarget registry = none := by
  rw [primaryTarget, h]
  cases primaryTargetIndex registry <;> rfl

/-- The current target becomes the primary one's address. -/
theorem normalizeRegistry_current (registry : Registry) :
    (normalizeRegistry registry).currentTarget = (primaryTarget registry).map StoredTarget.addr := by
  have htargets := normalizeRegistry_targets registry
  by_cases hnil : registry.targets = []
  · rw [primaryTarget_of_nil hnil]
    refine (normalizeRegistry_valid registry).empty ?_
    rw [htargets, hnil]
    rfl
  · obtain ⟨target, hmem, hprimary⟩ := exists_primaryTarget hnil
    have hkept : (registry.targets.foldl dedupPush []).any (fun t => t.addr = target.addr) = true := by
      show (normalizeRegistry registry).targets.any (fun t => t.addr = target.addr) = true
      rw [htargets]
      obtain ⟨t, ht, haddr⟩ := List.mem_map.mp (mem_addr_lastEntries.mpr (List.mem_map_of_mem hmem))
      exact List.any_eq_true.mpr ⟨t, ht, decide_eq_true haddr⟩
    simp only [normalizeRegistry, hprimary, Option.map_some, Option.filter_some, if_pos hkept]

/-! ### The law -/

/-- What the normal form of a registry is. -/
structure Normalizes (registry normal : Registry) : Prop where
  /-- The last entry for each address, in the order they were in. -/
  entries : normal.targets = lastEntries registry.targets
  order : normal.targets.Sublist registry.targets
  distinct : (normal.targets.map StoredTarget.addr).Nodup
  addresses : ∀ addr, addr ∈ normal.targets.map StoredTarget.addr ↔ addr ∈ registry.targets.map StoredTarget.addr
  primary : (primaryTarget normal).map StoredTarget.addr = (primaryTarget registry).map StoredTarget.addr
  current : normal.currentTarget = (primaryTarget registry).map StoredTarget.addr
  none_iff : normal.currentTarget = none ↔ registry.targets = []

theorem normalizeRegistry_normalizes (registry : Registry) : Normalizes registry (normalizeRegistry registry) where
  entries := normalizeRegistry_targets registry
  order := by
    rw [normalizeRegistry_targets]
    exact lastEntries_sublist registry.targets
  distinct := (normalizeRegistry_valid registry).distinct
  addresses addr := by
    rw [normalizeRegistry_targets]
    exact mem_addr_lastEntries
  primary := by
    have hagain := normalizeRegistry_current (normalizeRegistry registry)
    rw [(normalizeRegistry_valid registry).normalizeRegistry_eq] at hagain
    rw [← hagain, normalizeRegistry_current]
  current := normalizeRegistry_current registry
  none_iff := by
    rw [normalizeRegistry_current, Option.map_eq_none_iff]
    constructor
    · intro hnone
      by_contra hnil
      obtain ⟨target, -, hprimary⟩ := exists_primaryTarget hnil
      rw [hnone] at hprimary
      cases hprimary
    · exact primaryTarget_of_nil

/-- **The law of `normalize_registry`.** For every registry: normalising it again
changes nothing, it keeps each saved address once, with its last entry, in their
order, and the address of the primary target, which becomes the current target;
and what is loaded after a save is the normal form of what was saved. -/
theorem normalize_registry_law (registry : Registry) :
    normalizeRegistry (normalizeRegistry registry) = normalizeRegistry registry ∧
      Normalizes registry (normalizeRegistry registry) ∧
      loadRegistry (saveRegistry registry) = .ok (normalizeRegistry registry, saveRegistry registry) := by
  have hidem := (normalizeRegistry_valid registry).normalizeRegistry_eq
  refine ⟨hidem, normalizeRegistry_normalizes registry, ?_⟩
  rw [saveRegistry, loadRegistry, hidem]
  simp

end Client

end Rsdb
