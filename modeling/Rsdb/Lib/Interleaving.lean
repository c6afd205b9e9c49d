/-
# Two programs that share a state

Two programs make their calls on one state, each call a single step, in the order
a schedule gives (`Interleaved`). A schedule that has all steps of one program
before those of the other is a run of the one and then of the other
(`interleaved_apart`).

A program that reads a register once and then writes it (`onePass`) may read
before the other one's last write, which then counts for nothing or undoes its
own: `interleaved_onePass` says what the register can hold in the end.
-/
import Rsdb.Lib.Prog

namespace Rsdb

namespace Prog

variable {C : Type} {A : C → Type} {ε α β S : Type}

/-- Which of two programs. -/
inductive Side where
  | left | right
  deriving DecidableEq

/-- It has returned or failed. -/
def Ended : Prog C A ε α → Prop
  | pure _ | fail _ => True
  | call _ _ => False

/-- The two programs from a state to their ends, and the state they leave. -/
inductive Interleaved (step : (c : C) → S → A c × S) : List Side → Prog C A ε α → Prog C A ε β → S → S → Prop where
  | ended {x : Prog C A ε α} {y : Prog C A ε β} {s : S} (hx : x.Ended) (hy : y.Ended) : Interleaved step [] x y s s
  | left {schedule : List Side} {c : C} {k : A c → Prog C A ε α} {y : Prog C A ε β} {s s' : S}
      (h : Interleaved step schedule (k (step c s).1) y (step c s).2 s') :
      Interleaved step (.left :: schedule) (.call c k) y s s'
  | right {schedule : List Side} {c : C} {x : Prog C A ε α} {k : A c → Prog C A ε β} {s s' : S}
      (h : Interleaved step schedule x (k (step c s).1) (step c s).2 s') :
      Interleaved step (.right :: schedule) x (.call c k) s s'

/-- The other one. -/
def Side.other : Side → Side
  | left => right
  | right => left

section

variable {step : (c : C) → S → A c × S} {schedule : List Side} {x : Prog C A ε α} {y : Prog C A ε β} {s s' : S}

theorem Interleaved.swap (h : Interleaved step schedule x y s s') :
    Interleaved step (schedule.map Side.other) y x s s' := by
  induction h with
  | ended hx hy => exact .ended hy hx
  | left _ ih => exact .right ih
  | right _ ih => exact .left ih

theorem run_of_ended (h : x.Ended) (s : S) : (run step x s).2 = s := by
  cases x with
  | pure a => rfl
  | fail e => rfl
  | call c k => exact h.elim

/-- Next to a program that has ended the other one runs alone. -/
theorem interleaved_ended (h : Interleaved step schedule x y s s') (hx : x.Ended) : s' = (run step y s).2 := by
  induction h with
  | ended _ hy => exact (run_of_ended hy _).symm
  | left => exact hx.elim
  | right _ ih => exact ih hx

/-- No step of one program between two steps of the other. -/
def Apart (schedule : List Side) : Prop :=
  ∃ first n m, schedule = List.replicate n first ++ List.replicate m first.other

theorem ended_of_interleaved_right {m : ℕ} (h : Interleaved step (List.replicate m .right) x y s s') : x.Ended := by
  induction m generalizing y s with
  | zero =>
    cases h with
    | ended hx _ => exact hx
  | succ m ih =>
    rw [List.replicate_succ] at h
    cases h with
    | right h => exact ih h

theorem interleaved_left_right {m : ℕ} : ∀ (n : ℕ) {x : Prog C A ε α} {s : S},
    Interleaved step (List.replicate n .left ++ List.replicate m .right) x y s s' →
      s' = (run step y (run step x s).2).2
  | 0, x, s, h => by
    have hx : x.Ended := ended_of_interleaved_right h
    rw [run_of_ended hx]
    exact interleaved_ended h hx
  | n + 1, x, s, h => by
    rw [List.replicate_succ, List.cons_append] at h
    cases h with
    | left h =>
      have ih := interleaved_left_right n h
      exact ih

/-- **Steps that do not mix are a sequence.** -/
theorem interleaved_apart (h : Interleaved step schedule x y s s') (hapart : Apart schedule) :
    s' = (run step y (run step x s).2).2 ∨ s' = (run step x (run step y s).2).2 := by
  obtain ⟨first, n, m, rfl⟩ := hapart
  cases first with
  | left => exact Or.inl (interleaved_left_right n h)
  | right =>
    have hswap := h.swap
    rw [List.map_append, List.map_replicate, List.map_replicate] at hswap
    exact Or.inr (interleaved_left_right n hswap)

end

/-! ### A register -/

section Register

variable {V : Type}

/-- A register is read and written. -/
inductive RegisterCall (V : Type) where
  | read
  | write (v : V)

/-- A read gives the value. -/
abbrev RegisterCall.Answer : RegisterCall V → Type
  | read => V
  | write _ => Unit

/-- What a call does to the value. -/
def registerStep : (c : RegisterCall V) → V → c.Answer × V
  | .read, v => (v, v)
  | .write w, _ => ((), w)

/-- A program over one register. -/
abbrev RegisterProg (V ε α : Type) := Prog (RegisterCall V) RegisterCall.Answer ε α

/-- One read. -/
def readRegister : RegisterProg V ε V := .call .read .pure

/-- One write. -/
def writeRegister (v : V) : RegisterProg V ε Unit := .call (.write v) .pure

/-- Some writes, and then the outcome. -/
def writeAll : List V → Except ε α → RegisterProg V ε α
  | [], outcome => ofExcept outcome
  | w :: ws, outcome => .call (.write w) fun _ => writeAll ws outcome

/-- One read, and what is made of it. -/
def onePass (plan : V → List V × Except ε α) : RegisterProg V ε α :=
  .call .read fun v => writeAll (plan v).1 (plan v).2

/-- The register after some writes. -/
def written : List V → V → V
  | [], v => v
  | w :: ws, _ => written ws w

/-- The register after a program that was alone. -/
def leaves (plan : V → List V × Except ε α) (v : V) : V := written (plan v).1 v

theorem written_append : ∀ (ws us : List V) (v : V), written (ws ++ us) v = written us (written ws v)
  | [], _, _ => rfl
  | w :: ws, us, _ => written_append ws us w

theorem written_of_ne_nil {ws : List V} (h : ws ≠ []) (v v' : V) : written ws v = written ws v' := by
  cases ws with
  | nil => exact absurd rfl h
  | cons w ws => rfl

theorem run_writeAll : ∀ (ws : List V) (outcome : Except ε α) (v : V),
    run registerStep (writeAll ws outcome) v = (outcome, written ws v)
  | [], outcome, v => run_ofExcept registerStep outcome v
  | _ :: ws, outcome, _ => run_writeAll ws outcome _

theorem run_onePass (plan : V → List V × Except ε α) (v : V) :
    run registerStep (onePass plan) v = ((plan v).2, leaves plan v) := run_writeAll _ _ v

/-- The last write of all counts. -/
theorem interleaved_writes {schedule : List Side} {ws us : List V} {r : Except ε α} {q : Except ε β} {v v' : V}
    (h : Interleaved registerStep schedule (writeAll ws r) (writeAll us q) v v') :
    (v' = written ws v ∧ (us ≠ [] → ws ≠ [])) ∨ (v' = written us v ∧ us ≠ []) := by
  induction schedule generalizing ws us v with
  | nil =>
    cases h with
    | ended hx hy =>
      cases ws with
      | cons w ws => exact hx.elim
      | nil =>
        cases us with
        | cons u us => exact hy.elim
        | nil => exact Or.inl ⟨rfl, id⟩
  | cons side schedule ih =>
    cases side with
    | left =>
      cases ws with
      | nil => cases r <;> cases h
      | cons w ws =>
        cases h with
        | left h =>
          rcases ih h with ⟨hv, -⟩ | ⟨hv, hus⟩
          · exact Or.inl ⟨hv, fun _ => List.cons_ne_nil w ws⟩
          · exact Or.inr ⟨hv.trans (written_of_ne_nil hus _ _), hus⟩
    | right =>
      cases us with
      | nil => cases q <;> cases h
      | cons u us =>
        cases h with
        | right h =>
          rcases ih h with ⟨hv, hws⟩ | ⟨hv, -⟩
          · by_cases hnil : ws = []
            · subst hnil
              have husnil : us = [] := by
                by_contra hus
                exact hws hus rfl
              exact Or.inr ⟨by rw [hv, husnil]; rfl, List.cons_ne_nil u us⟩
            · exact Or.inl ⟨hv.trans (written_of_ne_nil hnil _ _), fun _ => hnil⟩
          · exact Or.inr ⟨hv, List.cons_ne_nil u us⟩

/-- The other program reads between two of the writes. -/
theorem interleaved_writes_onePass {schedule : List Side} {ws : List V} {r : Except ε α}
    {plan : V → List V × Except ε β} {v v' : V}
    (h : Interleaved registerStep schedule (writeAll ws r) (onePass plan) v v') :
    ∃ pre suf, ws = pre ++ suf ∧
      ((v' = written suf (written pre v) ∧ ((plan (written pre v)).1 ≠ [] → suf ≠ [])) ∨
        (v' = leaves plan (written pre v) ∧ (plan (written pre v)).1 ≠ [])) := by
  induction schedule generalizing ws v with
  | nil =>
    cases h with
    | ended _ hy => exact hy.elim
  | cons side schedule ih =>
    cases side with
    | left =>
      cases ws with
      | nil => cases r <;> cases h
      | cons w ws =>
        cases h with
        | left h =>
          obtain ⟨pre, suf, rfl, hv⟩ := ih h
          exact ⟨w :: pre, suf, rfl, hv⟩
    | right =>
      cases h with
      | right h => exact ⟨[], ws, rfl, interleaved_writes h⟩

/-- What the register can hold when the first program has read first. -/
def Passes (first : V → List V × Except ε α) (second : V → List V × Except ε β) (v v' : V) : Prop :=
  v' = leaves second (leaves first v) ∨
    ∃ pre suf, (first v).1 = pre ++ suf ∧ suf ≠ [] ∧
      (v' = leaves first v ∨ (v' = leaves second (written pre v) ∧ (second (written pre v)).1 ≠ []))

theorem passes_of_writes {first : V → List V × Except ε α} {second : V → List V × Except ε β} {schedule : List Side}
    {v v' : V} (h : Interleaved registerStep schedule (writeAll (first v).1 (first v).2) (onePass second) v v') :
    Passes first second v v' := by
  obtain ⟨pre, suf, hsplit, hv⟩ := interleaved_writes_onePass h
  have hleaves : leaves first v = written suf (written pre v) := by rw [leaves, hsplit, written_append]
  by_cases hsuf : suf = []
  · subst hsuf
    have hpre : leaves first v = written pre v := hleaves
    refine Or.inl ?_
    rw [hpre]
    rcases hv with ⟨hv, hnone⟩ | ⟨hv, -⟩
    · have hsecond : (second (written pre v)).1 = [] := by
        by_contra hne
        exact hnone hne rfl
      rw [hv, leaves, hsecond]
    · exact hv
  · refine Or.inr ⟨pre, suf, hsplit, hsuf, ?_⟩
    rcases hv with ⟨hv, -⟩ | hv
    · exact Or.inl (hv.trans hleaves.symm)
    · exact Or.inr hv

/-- **What two programs leave that read a register once and then write it.** -/
theorem interleaved_onePass {p : V → List V × Except ε α} {q : V → List V × Except ε β} {schedule : List Side} {v v' : V}
    (h : Interleaved registerStep schedule (onePass p) (onePass q) v v') : Passes p q v v' ∨ Passes q p v v' := by
  cases h with
  | ended hx _ => exact hx.elim
  | left h => exact Or.inl (passes_of_writes h)
  | right h => exact Or.inr (passes_of_writes h.swap)

end Register

end Prog

end Rsdb
