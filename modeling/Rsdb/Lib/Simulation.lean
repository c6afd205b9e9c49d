/-
# Steps in turn, and a step-by-step simulation

`Steps step events s t` says that the events lead from `s` to `t`, each by a step. Where
every step of one system is matched by a step of another, from related states to related
ones, so is every run (`Steps.simulate`); where the relation is a function, the run is the
run between its values (`Steps.refines`).
-/
import Mathlib.Data.List.Basic

namespace Rsdb

/-- One step for each event, in order. -/
inductive Steps {E S : Type} (step : E → S → S → Prop) : List E → S → S → Prop where
  | nil (s : S) : Steps step [] s s
  | cons {event : E} {events : List E} {s t u : S} (h : step event s t) (hrest : Steps step events t u) :
    Steps step (event :: events) s u

namespace Steps

variable {E S T : Type} {step : E → S → S → Prop} {step' : E → T → T → Prop} {events : List E} {s u : S}

/-- Matched steps make a matched run. -/
theorem simulate {R : S → T → Prop}
    (hstep : ∀ event s t s', R s s' → step event s t → ∃ t', step' event s' t' ∧ R t t')
    (h : Steps step events s u) :
    ∀ {s' : T}, R s s' → ∃ u', Steps step' events s' u' ∧ R u u' := by
  induction h with
  | nil s => exact fun {s'} hR => ⟨s', .nil s', hR⟩
  | cons h _ ih =>
    intro s' hR
    obtain ⟨t', ht, hR'⟩ := hstep _ _ _ _ hR h
    obtain ⟨u', hu, hR''⟩ := ih hR'
    exact ⟨u', .cons ht hu, hR''⟩

/-- A run refines the run of what its states stand for, under an invariant. -/
theorem refines {I : S → Prop} {abs : S → T}
    (hstep : ∀ event s t, I s → step event s t → I t ∧ step' event (abs s) (abs t))
    (h : Steps step events s u) (hI : I s) :
    I u ∧ Steps step' events (abs s) (abs u) := by
  have hmatched : ∀ event s t s', (I s ∧ abs s = s') → step event s t →
      ∃ t', step' event s' t' ∧ I t ∧ abs t = t' := by
    rintro event s t s' ⟨hs, rfl⟩ ht
    obtain ⟨hIt, ht'⟩ := hstep event s t hs ht
    exact ⟨abs t, ht', hIt, rfl⟩
  obtain ⟨u', hu, hIu, rfl⟩ := h.simulate hmatched ⟨hI, rfl⟩
  exact ⟨hIu, hu⟩

end Steps

end Rsdb
