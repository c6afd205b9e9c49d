/-
# Executions of a program, wherever they stop

`Exec x trace stop` says that the calls and answers of `trace` bring the program
`x` to `stop`: it has returned, it has failed, or it waits for the answer to its
next call. The answers are any. A future that is dropped while it waits is an
execution that stops there.

`exec_bind` splits an execution of a sequence; `Always` is a property of all
executions, with `always_bind` as the rule for a sequence.
-/
import Rsdb.Lib.Prog

namespace Rsdb

namespace Prog

variable {C : Type} {A : C → Type} {ε α β : Type}

/-- Where an execution stops. -/
inductive Stop (ε α : Type) where
  | returned (a : α)
  | failed (e : ε)
  | waiting

/-- Where a program that has ended stops. -/
def Stop.ofExcept : Except ε α → Stop ε α
  | .ok a => .returned a
  | .error e => .failed e

/-- Calls with their answers. -/
abbrev Trace (A : C → Type) := List ((c : C) × A c)

/-- A run of a program: the calls it has made with their answers, and where it stops. -/
inductive Exec : Prog C A ε α → Trace A → Stop ε α → Prop where
  | pure (a : α) : Exec (.pure a) [] (.returned a)
  | fail (e : ε) : Exec (.fail e) [] (.failed e)
  | waiting (c : C) (k : A c → Prog C A ε α) : Exec (.call c k) [] .waiting
  | call {c : C} {k : A c → Prog C A ε α} {trace : Trace A} {stop : Stop ε α} (r : A c) :
      Exec (k r) trace stop → Exec (.call c k) (⟨c, r⟩ :: trace) stop

theorem exec_pure_iff {a : α} {trace : Trace A} {stop : Stop ε α} :
    Exec (.pure a) trace stop ↔ trace = [] ∧ stop = .returned a := by
  constructor
  · rintro ⟨⟩
    exact ⟨rfl, rfl⟩
  · rintro ⟨rfl, rfl⟩
    exact .pure a

theorem exec_fail_iff {e : ε} {trace : Trace A} {stop : Stop ε α} :
    Exec (.fail e) trace stop ↔ trace = [] ∧ stop = .failed e := by
  constructor
  · rintro ⟨⟩
    exact ⟨rfl, rfl⟩
  · rintro ⟨rfl, rfl⟩
    exact .fail e

theorem exec_call_iff {c : C} {k : A c → Prog C A ε α} {trace : Trace A} {stop : Stop ε α} :
    Exec (.call c k) trace stop ↔
      (trace = [] ∧ stop = .waiting) ∨ ∃ r rest, trace = ⟨c, r⟩ :: rest ∧ Exec (k r) rest stop := by
  constructor
  · intro h
    cases h with
    | waiting => exact Or.inl ⟨rfl, rfl⟩
    | call r h => exact Or.inr ⟨r, _, rfl, h⟩
  · rintro (⟨rfl, rfl⟩ | ⟨r, rest, rfl, h⟩)
    · exact .waiting c k
    · exact .call r h

/-- An execution of a sequence stops in its first part, or goes through it. -/
theorem exec_bind {x : Prog C A ε α} {f : α → Prog C A ε β} {trace : Trace A} {stop : Stop ε β}
    (h : Exec (x >>= f) trace stop) :
    (Exec x trace .waiting ∧ stop = .waiting) ∨ (∃ e, Exec x trace (.failed e) ∧ stop = .failed e) ∨
      ∃ a first rest, trace = first ++ rest ∧ Exec x first (.returned a) ∧ Exec (f a) rest stop := by
  induction x generalizing trace with
  | pure a => exact Or.inr (Or.inr ⟨a, [], trace, rfl, .pure a, h⟩)
  | fail e =>
    obtain ⟨rfl, rfl⟩ := exec_fail_iff.mp h
    exact Or.inr (Or.inl ⟨e, .fail e, rfl⟩)
  | call c k ih =>
    rw [call_bind] at h
    rcases exec_call_iff.mp h with ⟨rfl, rfl⟩ | ⟨r, rest, rfl, hnext⟩
    · exact Or.inl ⟨.waiting c k, rfl⟩
    · rcases ih r hnext with ⟨hx, rfl⟩ | ⟨e, hx, rfl⟩ | ⟨a, first, rest', rfl, hx, hf⟩
      · exact Or.inl ⟨.call r hx, rfl⟩
      · exact Or.inr (Or.inl ⟨e, .call r hx, rfl⟩)
      · exact Or.inr (Or.inr ⟨a, ⟨c, r⟩ :: first, rest', rfl, .call r hx, hf⟩)

theorem exec_pure_returned {a b : α} {trace : Trace A} (h : Exec (ε := ε) (.pure a) trace (.returned b)) :
    trace = [] ∧ b = a := by
  obtain ⟨htrace, hb⟩ := exec_pure_iff.mp h
  exact ⟨htrace, Stop.returned.inj hb⟩

theorem exec_call_returned {c : C} {k : A c → Prog C A ε α} {trace : Trace A} {a : α}
    (h : Exec (.call c k) trace (.returned a)) : ∃ r rest, trace = ⟨c, r⟩ :: rest ∧ Exec (k r) rest (.returned a) := by
  rcases exec_call_iff.mp h with ⟨_, hstop⟩ | hcall
  · cases hstop
  · exact hcall

theorem exec_ask_returned {c : C} {f : A c → Prog C A ε β} {trace : Trace A} {b : β}
    (h : Exec (ask c >>= f) trace (.returned b)) : ∃ r rest, trace = ⟨c, r⟩ :: rest ∧ Exec (f r) rest (.returned b) :=
  exec_call_returned h

theorem exec_bind_returned {x : Prog C A ε α} {f : α → Prog C A ε β} {trace : Trace A} {b : β}
    (h : Exec (x >>= f) trace (.returned b)) :
    ∃ a first rest, trace = first ++ rest ∧ Exec x first (.returned a) ∧ Exec (f a) rest (.returned b) := by
  rcases exec_bind h with ⟨_, hstop⟩ | ⟨_, _, hstop⟩ | hbind
  · cases hstop
  · cases hstop
  · exact hbind

theorem Exec.bind {x : Prog C A ε α} {f : α → Prog C A ε β} {first rest : Trace A} {a : α} {stop : Stop ε β}
    (hx : Exec x first (.returned a)) (hf : Exec (f a) rest stop) : Exec (x >>= f) (first ++ rest) stop := by
  generalize hreturned : Stop.returned a = s at hx
  induction hx with
  | pure b =>
    obtain rfl : a = b := by simpa using hreturned
    exact hf
  | fail e => cases hreturned
  | waiting c k => cases hreturned
  | call r _ ih => exact .call r (ih hreturned)

theorem exec_ofExcept_iff {r : Except ε α} {trace : Trace A} {stop : Stop ε α} :
    Exec (ofExcept r) trace stop ↔ trace = [] ∧ stop = .ofExcept r := by
  cases r with
  | error e => exact exec_fail_iff
  | ok a => exact exec_pure_iff

/-- An attempt stops where the program does, and returns its outcome. -/
theorem exec_attempt {ε' : Type} : ∀ {x : Prog C A ε α} {trace : Trace A} {stop : Stop ε' (Except ε α)},
    Exec x.attempt trace stop →
      (Exec x trace .waiting ∧ stop = .waiting) ∨ ∃ r, Exec x trace (.ofExcept r) ∧ stop = .returned r
  | .pure a, _, _, h => by
    obtain ⟨rfl, rfl⟩ := exec_pure_iff.mp h
    exact Or.inr ⟨.ok a, .pure a, rfl⟩
  | .fail e, _, _, h => by
    obtain ⟨rfl, rfl⟩ := exec_pure_iff.mp h
    exact Or.inr ⟨.error e, .fail e, rfl⟩
  | .call c k, _, _, h => by
    rcases exec_call_iff.mp h with ⟨rfl, rfl⟩ | ⟨r, rest, rfl, hnext⟩
    · exact Or.inl ⟨.waiting c k, rfl⟩
    · rcases exec_attempt hnext with ⟨hx, rfl⟩ | ⟨outcome, hx, rfl⟩
      · exact Or.inl ⟨.call r hx, rfl⟩
      · exact Or.inr ⟨outcome, .call r hx, rfl⟩

/-- Every call of an execution satisfies what all calls of the program do. -/
theorem Exec.forall_mem {P : C → Prop} {x : Prog C A ε α} {trace : Trace A} {stop : Stop ε α} (h : Exec x trace stop)
    (hall : All P x) : ∀ c ∈ trace, P c.1 := by
  induction h with
  | pure | fail | waiting => exact fun c hc => by cases hc
  | call r _ ih => exact List.forall_mem_cons.mpr ⟨hall.1, ih (hall.2 r)⟩

/-- Answers bring a program to its end in one way. -/
theorem Exec.returned_unique {x : Prog C A ε α} {first first' rest rest' : Trace A} {a a' : α}
    (h : Exec x first (.returned a)) (h' : Exec x first' (.returned a')) (heq : first ++ rest = first' ++ rest') :
    first = first' ∧ a = a' ∧ rest = rest' := by
  induction x generalizing first first' with
  | pure b =>
    obtain ⟨rfl, rfl⟩ := exec_pure_returned h
    obtain ⟨rfl, rfl⟩ := exec_pure_returned h'
    exact ⟨rfl, rfl, heq⟩
  | fail e => cases h
  | call c k ih =>
    obtain ⟨r, tail, rfl, hnext⟩ := exec_call_returned h
    obtain ⟨r', tail', rfl, hnext'⟩ := exec_call_returned h'
    obtain ⟨hcall, htail⟩ := List.cons.inj heq
    obtain rfl := eq_of_heq (Sigma.mk.inj hcall).2
    obtain ⟨rfl, hrest⟩ := ih r hnext hnext' htail
    exact ⟨rfl, hrest⟩

/-- The execution in which every call is answered by `oracle`. -/
def follow (oracle : (c : C) → A c) : Prog C A ε α → Trace A × Stop ε α
  | .pure a => ([], .returned a)
  | .fail e => ([], .failed e)
  | .call c k => (⟨c, oracle c⟩ :: (follow oracle (k (oracle c))).1, (follow oracle (k (oracle c))).2)

theorem exec_follow (oracle : (c : C) → A c) : ∀ x : Prog C A ε α, Exec x (follow oracle x).1 (follow oracle x).2
  | .pure a => .pure a
  | .fail e => .fail e
  | .call c k => .call (oracle c) (exec_follow oracle (k (oracle c)))

/-- A property of every execution. -/
def Always (P : Trace A → Stop ε α → Prop) (x : Prog C A ε α) : Prop :=
  ∀ trace stop, Exec x trace stop → P trace stop

theorem always_pure {P : Trace A → Stop ε α → Prop} {a : α} (h : P [] (.returned a)) :
    Always P (.pure a : Prog C A ε α) := by
  intro trace stop hexec
  obtain ⟨rfl, rfl⟩ := exec_pure_iff.mp hexec
  exact h

theorem always_fail {P : Trace A → Stop ε α → Prop} {e : ε} (h : P [] (.failed e)) :
    Always P (.fail e : Prog C A ε α) := by
  intro trace stop hexec
  obtain ⟨rfl, rfl⟩ := exec_fail_iff.mp hexec
  exact h

theorem always_call {P : Trace A → Stop ε α → Prop} {c : C} {k : A c → Prog C A ε α} (hwaiting : P [] .waiting)
    (hcall : ∀ r, Always (fun trace stop => P (⟨c, r⟩ :: trace) stop) (k r)) : Always P (.call c k) := by
  intro trace stop hexec
  rcases exec_call_iff.mp hexec with ⟨rfl, rfl⟩ | ⟨r, rest, rfl, h⟩
  · exact hwaiting
  · exact hcall r rest stop h

/-- The rule for a sequence: `Q` of the first part carries over. -/
theorem always_bind {Q : Trace A → Stop ε α → Prop} {P : Trace A → Stop ε β → Prop} {x : Prog C A ε α}
    {f : α → Prog C A ε β} (hx : Always Q x) (hwaiting : ∀ trace, Q trace .waiting → P trace .waiting)
    (hfailed : ∀ trace e, Q trace (.failed e) → P trace (.failed e))
    (hreturned : ∀ first a, Q first (.returned a) → Always (fun rest stop => P (first ++ rest) stop) (f a)) :
    Always P (x >>= f) := by
  intro trace stop h
  rcases exec_bind h with ⟨hcut, rfl⟩ | ⟨e, hcut, rfl⟩ | ⟨a, first, rest, rfl, hfirst, hrest⟩
  · exact hwaiting trace (hx _ _ hcut)
  · exact hfailed trace e (hx _ _ hcut)
  · exact hreturned first a (hx _ _ hfirst) rest stop hrest

theorem Always.mono {P Q : Trace A → Stop ε α → Prop} {x : Prog C A ε α} (h : Always P x)
    (hPQ : ∀ trace stop, P trace stop → Q trace stop) : Always Q x :=
  fun trace stop hexec => hPQ trace stop (h trace stop hexec)

end Prog

end Rsdb
