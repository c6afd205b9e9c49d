/-
# Calls that fail

`Faulty.step` answers calls as `Os.step` does, but any call may fail instead: the
failures come from a list, one entry a call. A call that fails changes nothing,
except that a write may have written the first part of its data. An `unlink` is
spared.

What one call does is `step_cases`; the rule for a program that fails if the call
does is `wp_asked`.
-/
import Rsdb.Os.Removal

namespace Rsdb

open Prog (run wp)

/-- A failure of a call, and how much a write has written before it. -/
structure Fault where
  error : IoError
  written : ℕ

/-- A filesystem, the failures of the next calls, and whether one has failed. -/
structure Faulty where
  os : Os
  faults : List (Option Fault)
  failed : Bool

namespace Faulty

/-- The call succeeds, or fails by itself. -/
def answer (s : Faulty) (c : Call) : c.Answer × Faulty :=
  ((s.os.step c).1, { s with os := (s.os.step c).2, failed := s.failed || !(s.os.step c).1.isOk })

/-- What a call that is made to fail does all the same. -/
def partly (fault : Fault) (os : Os) : Call → Os
  | .write fd data => (os.step (.write fd (data.take fault.written))).2
  | _ => os

/-- The next entry of the list decides. -/
def fallible (c : Call) (s : Faulty) : c.Answer × Faulty :=
  match s.faults with
  | some fault :: faults => (.error fault.error, ⟨partly fault s.os c, faults, true⟩)
  | none :: faults => { s with faults := faults }.answer c
  | [] => s.answer c

/-- A call is made, and may fail instead; a removal does what it does. -/
def step : (c : Call) → Faulty → c.Answer × Faulty
  | .unlink p, s => ((s.os.step (.unlink p)).1, { s with os := (s.os.step (.unlink p)).2 })
  | c, s => s.fallible c

end Faulty

/-! ### One call -/

namespace Os

theorem answer_error {α : Type} {os : Os} {e : IoError} : ∀ {r : Except IoErrorKind (α × Os)},
    (os.answer r).1 = .error e → (os.answer r).2 = os
  | .error _, _ => rfl

theorem done_error {os : Os} {e : IoError} : ∀ {r : Except IoErrorKind Os},
    (os.done r).1 = .error e → (os.done r).2 = os
  | .error _, _ => rfl

/-- A call that fails by itself changes nothing. -/
theorem step_error {os : Os} {c : Call} {e : IoError} (h : (os.step c).1 = .error e) : (os.step c).2 = os := by
  cases c with
  | stat _ | lstat _ | openWrite _ _ | createNew _ _ | openRead _ | read _ _ | readDir _ | openDir _ _ | listDir _ =>
    exact answer_error h
  | mkdir _ | write _ _ | chmod _ _ | rename _ _ | unlink _ | rmdir _ | unlinkAt _ _ | rmdirAt _ _ =>
    exact done_error h

end Os

namespace Faulty

theorem answer_cases (s : Faulty) (c : Call) :
    (∃ a, s.os.step c = (.ok a, (s.answer c).2.os) ∧ (s.answer c).1 = .ok a ∧ (s.answer c).2.failed = s.failed) ∨
      ∃ e, (s.answer c).1 = .error e ∧ (s.answer c).2.failed = true ∧ (s.answer c).2.os = s.os := by
  unfold answer
  cases hanswer : (s.os.step c).1 with
  | ok a => exact Or.inl ⟨a, Prod.ext hanswer rfl, rfl, Bool.or_false _⟩
  | error e => exact Or.inr ⟨e, rfl, Bool.or_true _, Os.step_error hanswer⟩

/-- A call that is not spared does what it does, or fails. -/
theorem step_cases {c : Call} (hc : ∀ p, c ≠ .unlink p) (s : Faulty) :
    (∃ a, s.os.step c = (.ok a, (step c s).2.os) ∧ (step c s).1 = .ok a ∧ (step c s).2.failed = s.failed) ∨
      ∃ e, (step c s).1 = .error e ∧ (step c s).2.failed = true ∧
        ((step c s).2.os = s.os ∨ ∃ fault, (step c s).2.os = partly fault s.os c) := by
  have hfallible : step c s = s.fallible c := by
    cases c with
    | unlink p => exact absurd rfl (hc p)
    | _ => rfl
  rw [hfallible]
  unfold fallible
  match s.faults with
  | some fault :: faults => exact Or.inr ⟨fault.error, rfl, rfl, Or.inr ⟨fault, rfl⟩⟩
  | none :: faults =>
    rcases answer_cases { s with faults := faults } c with hok | ⟨e, herror, hfailed, hos⟩
    · exact Or.inl hok
    · exact Or.inr ⟨e, herror, hfailed, Or.inl hos⟩
  | [] =>
    rcases answer_cases s c with hok | ⟨e, herror, hfailed, hos⟩
    · exact Or.inl hok
    · exact Or.inr ⟨e, herror, hfailed, Or.inl hos⟩

/-- A program that asks and fails if the call does: what comes after a call that
succeeds, and what is left by one that fails. -/
theorem wp_asked {α : Type} {c : Call} (hc : ∀ p, c ≠ .unlink p) {next : c.Answer → Act α} {P : α → Faulty → Prop}
    {Q : Os → Prop} {s : Faulty} (hfails : ∀ e, ∃ err, next (.error e) = .fail err)
    (hok : ∀ a s', s.os.step c = (.ok a, s'.os) → s'.failed = s.failed →
      wp step P (fun _ s => s.failed = true ∧ Q s.os) (next (.ok a)) s')
    (hsame : Q s.os) (hpartly : ∀ fault, Q (partly fault s.os c)) :
    wp step P (fun _ s => s.failed = true ∧ Q s.os) (Prog.ask c >>= next) s := by
  show wp step P _ (next (step c s).1) (step c s).2
  rcases step_cases hc s with ⟨a, hstep, hanswer, hfailed⟩ | ⟨e, hanswer, hfailed, hos⟩
  · rw [hanswer]
    exact hok a _ hstep hfailed
  · obtain ⟨err, hfail⟩ := hfails e
    rw [hanswer, hfail]
    refine ⟨hfailed, ?_⟩
    rcases hos with hos | ⟨fault, hos⟩
    · exact hos ▸ hsame
    · exact hos ▸ hpartly fault

end Faulty

end Rsdb
