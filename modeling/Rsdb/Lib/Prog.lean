/-
# Programs that call an environment

A program either returns, fails, or makes one call and goes on with the answer.
`run` gives it an environment that is a function of a state, `wp` is the weakest
precondition of a run that may return or fail, `All` says that every call
satisfies a predicate whatever the answers are, and `Returns` what a program can
return under some answers.

All are compositional: `run_bind` and `run_bind_ok` for sequencing under `run`,
`wp_bind` under `wp`, and `all_bind` for sequencing under `All`, with
`returns_bind`.
-/
import Mathlib.Data.List.Basic

namespace Rsdb

theorem ok_of_bind {ε α β : Type} {x : Except ε α} {f : α → Except ε β} {b : β} (h : (x >>= f) = .ok b) :
    ∃ a, x = .ok a ∧ f a = .ok b := by
  cases x with
  | error err => cases h
  | ok a => exact ⟨a, rfl, h⟩

theorem ok_of_map {ε α β : Type} {x : Except ε α} {f : α → β} {b : β} (h : x.map f = .ok b) :
    ∃ a, x = .ok a ∧ f a = b := by
  cases x with
  | error err => cases h
  | ok a => exact ⟨a, rfl, Except.ok.inj h⟩

/-- Programs over calls `C` with answers `A`, errors `ε` and results `α`. -/
inductive Prog (C : Type) (A : C → Type) (ε α : Type) where
  | pure (a : α)
  | fail (e : ε)
  | call (c : C) (k : A c → Prog C A ε α)

namespace Prog

variable {C : Type} {A : C → Type} {ε ε' α β γ : Type}

/-- One program after the other, which starts with the result of the first. -/
protected def bind : Prog C A ε α → (α → Prog C A ε β) → Prog C A ε β
  | pure a, f => f a
  | fail e, _ => fail e
  | call c k, f => call c fun r => (k r).bind f

instance : Monad (Prog C A ε) where
  pure := pure
  bind := Prog.bind

/-- One call, and its answer. -/
def ask (c : C) : Prog C A ε (A c) := call c pure

/-- The outcome of a program as a value. -/
def attempt : Prog C A ε α → Prog C A ε' (Except ε α)
  | pure a => pure (.ok a)
  | fail e => pure (.error e)
  | call c k => call c fun r => (k r).attempt

/-- `e?`: an outcome as a program. -/
def ofExcept : Except ε α → Prog C A ε α
  | .ok a => pure a
  | .error e => fail e

@[simp] theorem pure_eq (a : α) : (Pure.pure a : Prog C A ε α) = .pure a := rfl
@[simp] theorem pure_bind (a : α) (f : α → Prog C A ε β) : (Prog.pure a >>= f) = f a := rfl
@[simp] theorem fail_bind (e : ε) (f : α → Prog C A ε β) : (Prog.fail e >>= f) = .fail e := rfl
@[simp] theorem call_bind (c : C) (k : A c → Prog C A ε α) (f : α → Prog C A ε β) :
    (Prog.call c k >>= f) = .call c fun r => k r >>= f := rfl
@[simp] theorem ask_bind (c : C) (f : A c → Prog C A ε β) : (ask c >>= f) = .call c f := rfl

@[simp] theorem ofExcept_ok (a : α) : (ofExcept (.ok a) : Prog C A ε α) = .pure a := rfl
@[simp] theorem ofExcept_error (e : ε) : (ofExcept (.error e) : Prog C A ε α) = .fail e := rfl

theorem bind_assoc (x : Prog C A ε α) (f : α → Prog C A ε β) (g : β → Prog C A ε γ) :
    (x >>= f) >>= g = x >>= fun a => f a >>= g := by
  induction x with
  | pure a => rfl
  | fail e => rfl
  | call c k ih => simp only [call_bind, ih]

/-! ### Runs -/

section Run

variable {S : Type} (step : (c : C) → S → A c × S)

/-- The outcome in an environment, and the state it is left in. -/
def run : Prog C A ε α → S → Except ε α × S
  | pure a, s => (.ok a, s)
  | fail e, s => (.error e, s)
  | call c k, s => run (k (step c s).1) (step c s).2

@[simp] theorem run_pure (a : α) (s : S) : run step (.pure a : Prog C A ε α) s = (.ok a, s) := rfl
@[simp] theorem run_fail (e : ε) (s : S) : run step (.fail e : Prog C A ε α) s = (.error e, s) := rfl
theorem run_call (c : C) (k : A c → Prog C A ε α) (s : S) :
    run step (.call c k) s = run step (k (step c s).1) (step c s).2 := rfl

theorem run_ask (c : C) (s : S) : run step (ask c : Prog C A ε (A c)) s = (.ok (step c s).1, (step c s).2) := rfl

theorem run_bind (x : Prog C A ε α) (f : α → Prog C A ε β) (s : S) :
    run step (x >>= f) s =
      match run step x s with
      | (.ok a, s) => run step (f a) s
      | (.error e, s) => (.error e, s) := by
  induction x generalizing s with
  | pure a => rfl
  | fail e => rfl
  | call c k ih => rw [call_bind, run_call, run_call, ih]

/-- A sequence that returns. -/
theorem run_bind_ok {x : Prog C A ε α} {f : α → Prog C A ε β} {s s' : S} {b : β} :
    run step (x >>= f) s = (.ok b, s') ↔
      ∃ a t, run step x s = (.ok a, t) ∧ run step (f a) t = (.ok b, s') := by
  rw [run_bind]
  rcases h : run step x s with ⟨r, t⟩
  cases r with
  | error e => simp
  | ok a => simp

theorem run_attempt (x : Prog C A ε α) (s : S) :
    run step (attempt x : Prog C A ε' (Except ε α)) s = (.ok (run step x s).1, (run step x s).2) := by
  induction x generalizing s with
  | pure a => rfl
  | fail e => rfl
  | call c k ih => exact ih _ _

@[simp] theorem run_ofExcept (r : Except ε α) (s : S) :
    run step (ofExcept r : Prog C A ε α) s = (r, s) := by cases r <;> rfl

theorem outcome_of_ok {β : Type} : ∀ {outcome : Except ε α × β} {a : α}, outcome.1 = .ok a →
    outcome = (.ok a, outcome.2)
  | (_, _), _, h => Prod.ext h rfl

theorem outcome_of_isOk {β : Type} : ∀ {outcome : Except ε α × β}, outcome.1.isOk = true →
    ∃ a, outcome = (.ok a, outcome.2)
  | (.ok a, _), _ => ⟨a, rfl⟩

/-! ### Weakest preconditions -/

/-- Run from `s`, the program returns `a` in a state with `P a`, or fails with
`e` in a state with `E e`. -/
def wp (P : α → S → Prop) (E : ε → S → Prop) : Prog C A ε α → S → Prop
  | pure a, s => P a s
  | fail e, s => E e s
  | call c k, s => wp P E (k (step c s).1) (step c s).2

variable {step} {P P' : α → S → Prop} {E : ε → S → Prop}

@[simp] theorem wp_pure {a : α} {s : S} : wp step P E (.pure a : Prog C A ε α) s ↔ P a s := Iff.rfl
@[simp] theorem wp_fail {e : ε} {s : S} : wp step P E (.fail e : Prog C A ε α) s ↔ E e s := Iff.rfl
theorem wp_call {c : C} {k : A c → Prog C A ε α} {s : S} :
    wp step P E (.call c k) s ↔ wp step P E (k (step c s).1) (step c s).2 := Iff.rfl

theorem wp_bind {x : Prog C A ε α} {f : α → Prog C A ε β} {P : β → S → Prop} {s : S} :
    wp step P E (x >>= f) s ↔ wp step (fun a => wp step P E (f a)) E x s := by
  induction x generalizing s with
  | pure a => exact Iff.rfl
  | fail e => exact Iff.rfl
  | call c k ih => exact ih _

theorem wp_mono (h : ∀ a s, P a s → P' a s) : ∀ {x : Prog C A ε α} {s : S},
    wp step P E x s → wp step P' E x s
  | .pure _, _, hx => h _ _ hx
  | .fail _, _, hx => hx
  | .call c k, s, hx => wp_mono h (x := k (step c s).1) hx

@[simp] theorem wp_ofExcept {r : Except ε α} {s : S} : wp step P E (ofExcept r : Prog C A ε α) s ↔
    (∀ a, r = .ok a → P a s) ∧ ∀ e, r = .error e → E e s := by cases r <;> simp

/-- An attempt returns the outcome. -/
theorem wp_attempt {ε' : Type} {E' : ε' → S → Prop} {P : Except ε α → S → Prop} : ∀ {x : Prog C A ε α} {s : S},
    wp step P E' (attempt x : Prog C A ε' (Except ε α)) s ↔
      wp step (fun a => P (.ok a)) (fun e => P (.error e)) x s
  | .pure _, _ => Iff.rfl
  | .fail _, _ => Iff.rfl
  | .call c k, s => wp_attempt (x := k (step c s).1)

/-- What a weakest precondition says of the run. -/
theorem wp_iff_run {x : Prog C A ε α} {s : S} : wp step P E x s ↔
    (∀ a t, run step x s = (.ok a, t) → P a t) ∧ ∀ e t, run step x s = (.error e, t) → E e t := by
  induction x generalizing s with
  | pure a => simp
  | fail e => simp
  | call c k ih => exact ih _

/-! ### States on the way -/

variable (step) in
/-- The states a run goes through, its first one and its last one among them. -/
inductive Reaches : Prog C A ε α → S → S → Prop where
  | start (x : Prog C A ε α) (s : S) : Reaches x s s
  | call {c : C} {k : A c → Prog C A ε α} {s t : S} (h : Reaches (k (step c s).1) (step c s).2 t) :
    Reaches (.call c k) s t

variable (step) in
/-- `I` in every state on the way, and `P a` if the run returns `a`. -/
def Throughout (I : S → Prop) (P : α → S → Prop) : Prog C A ε α → S → Prop
  | pure a, s => I s ∧ P a s
  | fail _, s => I s
  | call c k, s => I s ∧ Throughout I P (k (step c s).1) (step c s).2

variable {I : S → Prop}

theorem throughout_call {c : C} {k : A c → Prog C A ε α} {s : S} :
    Throughout step I P (.call c k) s ↔ I s ∧ Throughout step I P (k (step c s).1) (step c s).2 := Iff.rfl

theorem throughout_bind {x : Prog C A ε α} {f : α → Prog C A ε β} {P : β → S → Prop} {s : S}
    (h : Throughout step I (fun a => Throughout step I P (f a)) x s) : Throughout step I P (x >>= f) s := by
  induction x generalizing s with
  | pure a => exact h.2
  | fail e => exact h
  | call c k ih => exact ⟨h.1, ih _ h.2⟩

theorem throughout_mono (hP : ∀ a s, I s → P a s → P' a s) : ∀ {x : Prog C A ε α} {s : S},
    Throughout step I P x s → Throughout step I P' x s
  | .pure _, _, h => ⟨h.1, hP _ _ h.1 h.2⟩
  | .fail _, _, h => h
  | .call c k, s, h => ⟨h.1, throughout_mono hP (x := k (step c s).1) h.2⟩

theorem Throughout.weaken {I' : S → Prop} (hI : ∀ s, I s → I' s) : ∀ {x : Prog C A ε α} {s : S},
    Throughout step I P x s → Throughout step I' P x s
  | .pure _, _, h => ⟨hI _ h.1, h.2⟩
  | .fail _, _, h => hI _ h
  | .call c k, s, h => ⟨hI _ h.1, Throughout.weaken hI (x := k (step c s).1) h.2⟩

theorem throughout_attempt : ∀ {x : Prog C A ε α} {s : S}, Throughout step I P x s →
    Throughout step I (fun r t => ∀ a, r = .ok a → P a t) (x.attempt : Prog C A ε' (Except ε α)) s
  | .pure _, _, h => ⟨h.1, fun _ heq => Except.ok.inj heq ▸ h.2⟩
  | .fail _, _, h => ⟨h, fun _ heq => by cases heq⟩
  | .call c k, s, h => ⟨h.1, throughout_attempt (x := k (step c s).1) h.2⟩

theorem Throughout.returned : ∀ {x : Prog C A ε α} {s t : S} {a : α}, Throughout step I P x s →
    run step x s = (.ok a, t) → P a t
  | .pure _, _, _, _, h, hrun => by
    obtain ⟨ha, rfl⟩ := Prod.mk.inj hrun
    exact Except.ok.inj ha ▸ h.2
  | .fail _, _, _, _, _, hrun => by cases hrun
  | .call c k, s, _, _, h, hrun => Throughout.returned (x := k (step c s).1) h.2 hrun

/-- What is returned is what the run returns. -/
theorem Throughout.withRun : ∀ {x : Prog C A ε α} {s : S}, Throughout step I P x s →
    Throughout step I (fun a t => P a t ∧ run step x s = (.ok a, t)) x s
  | .pure _, _, h => ⟨h.1, h.2, rfl⟩
  | .fail _, _, h => h
  | .call c k, s, h => ⟨h.1, Throughout.withRun (x := k (step c s).1) h.2⟩

theorem Throughout.reaches {x : Prog C A ε α} {s t : S} (h : Throughout step I P x s) (hreaches : Reaches step x s t) :
    I t := by
  induction hreaches with
  | start x s =>
    cases x with
    | pure a => exact h.1
    | fail e => exact h
    | call c k => exact h.1
  | call _ ih => exact ih h.2

theorem reaches_run (x : Prog C A ε α) (s : S) : Reaches step x s (run step x s).2 := by
  induction x generalizing s with
  | pure a => exact .start _ s
  | fail e => exact .start _ s
  | call c k ih => exact .call (ih _ _)

end Run

/-! ### Every execution -/

/-- Every call, under any answers. -/
def All (P : C → Prop) : Prog C A ε α → Prop
  | pure _ => True
  | fail _ => True
  | call c k => P c ∧ ∀ r, All P (k r)

/-- Some answers make the program return `a`. -/
def Returns : Prog C A ε α → α → Prop
  | pure b, a => b = a
  | fail _, _ => False
  | call _ k, a => ∃ r, Returns (k r) a

variable {P : C → Prop}

@[simp] theorem all_pure (a : α) : All P (.pure a : Prog C A ε α) := trivial
@[simp] theorem all_fail (e : ε) : All P (.fail e : Prog C A ε α) := trivial
theorem all_call {c : C} {k : A c → Prog C A ε α} : All P (.call c k) ↔ P c ∧ ∀ r, All P (k r) := Iff.rfl
@[simp] theorem returns_pure {a b : α} : Returns (.pure b : Prog C A ε α) a ↔ b = a := Iff.rfl
@[simp] theorem returns_fail {e : ε} {a : α} : Returns (.fail e : Prog C A ε α) a ↔ False := Iff.rfl
theorem returns_call {c : C} {k : A c → Prog C A ε α} {a : α} :
    Returns (.call c k) a ↔ ∃ r, Returns (k r) a := Iff.rfl

theorem all_ask_bind {c : C} {f : A c → Prog C A ε β} : All P (ask c >>= f) ↔ P c ∧ ∀ r, All P (f r) := Iff.rfl
theorem returns_ask_bind {c : C} {f : A c → Prog C A ε β} {b : β} :
    Returns (ask c >>= f) b ↔ ∃ r, Returns (f r) b := Iff.rfl

theorem all_bind {x : Prog C A ε α} {f : α → Prog C A ε β} :
    All P (x >>= f) ↔ All P x ∧ ∀ a, Returns x a → All P (f a) := by
  induction x with
  | pure a => simp
  | fail e => simp
  | call c k ih =>
    simp only [call_bind, all_call, ih, returns_call]
    constructor
    · rintro ⟨hc, hk⟩
      exact ⟨⟨hc, fun r => (hk r).1⟩, fun a ⟨r, hr⟩ => (hk r).2 a hr⟩
    · rintro ⟨⟨hc, hk⟩, hf⟩
      exact ⟨hc, fun r => ⟨hk r, fun a hr => hf a ⟨r, hr⟩⟩⟩

theorem returns_bind {x : Prog C A ε α} {f : α → Prog C A ε β} {b : β} :
    Returns (x >>= f) b ↔ ∃ a, Returns x a ∧ Returns (f a) b := by
  induction x with
  | pure a => simp
  | fail e => simp
  | call c k ih =>
    simp only [call_bind, returns_call, ih]
    constructor
    · rintro ⟨r, a, hr, hf⟩
      exact ⟨a, ⟨r, hr⟩, hf⟩
    · rintro ⟨a, ⟨r, hr⟩, hf⟩
      exact ⟨r, a, hr, hf⟩

@[simp] theorem all_ofExcept (r : Except ε α) : All P (ofExcept r : Prog C A ε α) := by cases r <;> trivial

theorem all_attempt : ∀ {x : Prog C A ε α}, All P x → All P (attempt x : Prog C A ε' (Except ε α))
  | .pure _, _ => trivial
  | .fail _, _ => trivial
  | .call _ _, h => ⟨h.1, fun r => all_attempt (h.2 r)⟩

theorem All.mono {Q : C → Prop} (h : ∀ c, P c → Q c) : ∀ {x : Prog C A ε α}, All P x → All Q x
  | .pure _, _ => trivial
  | .fail _, _ => trivial
  | .call _ _, hx => ⟨h _ hx.1, fun r => All.mono h (hx.2 r)⟩

end Prog

end Rsdb
