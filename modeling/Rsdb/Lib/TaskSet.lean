/-
# Tasks that send into one channel

Some tasks run at once, each takes what comes to it alone and sends what it makes
of it into a channel that they share. One reader takes from the channel, and is
told when it is closed: it is empty and every task has ended, since a task has a
sender until then. The reader also joins the tasks, in any order.

Nothing is lost on the way and nothing comes twice: what has been read and what is
still in the channel is what the tasks make of what has come to each
(`Account.sent`), for any order of the steps.
-/
import Mathlib.Algebra.BigOperators.Group.Finset.Basic
import Mathlib.Algebra.GroupWithZero.Nat
import Mathlib.Data.Multiset.AddSub

namespace Rsdb

/-- A task at work, one that has ended and has not been joined, one that has. -/
inductive Task (W R : Type) where
  | working (w : W)
  | ended (r : R)
  | joined

/-- The tasks and what is in the channel. -/
structure TaskSet (W O R : Type) where
  tasks : List (Task W R)
  queue : List O

/-- What a task does by itself. -/
inductive Work (I R : Type) where
  | input (i : ℕ) (a : I)
  | ends (i : ℕ) (r : R)

/-- What comes to one of the tasks. -/
def Work.inputTo {I R : Type} (i : ℕ) : Work I R → Option I
  | input j a => if j = i then some a else none
  | ends _ _ => none

/-- What has come to a task. -/
def inputsTo {I R : Type} (i : ℕ) (works : List (Work I R)) : List I := works.filterMap (Work.inputTo i)

namespace TaskSet

variable {W I O R : Type}

/-- The tasks when they have been started. -/
def spawned (ws : List W) : TaskSet W O R := ⟨ws.map .working, []⟩

/-- Every task has ended, so that nothing more comes. -/
def closed (s : TaskSet W O R) : Bool :=
  s.tasks.all fun
    | .working _ => false
    | _ => true

/-- Every task has been joined. -/
def isEmpty (s : TaskSet W O R) : Bool :=
  s.tasks.all fun
    | .joined => true
    | _ => false

/-- One task changes. -/
def set (s : TaskSet W O R) (i : ℕ) (t : Task W R) : TaskSet W O R := { s with tasks := s.tasks.set i t }

/-- A task takes a step. -/
def work (turn : W → I → W × List O) (s : TaskSet W O R) : Work I R → Option (TaskSet W O R)
  | .input i a =>
    match s.tasks[i]? with
    | some (.working w) => some ⟨s.tasks.set i (.working (turn w a).1), s.queue ++ (turn w a).2⟩
    | _ => none
  | .ends i r =>
    match s.tasks[i]? with
    | some (.working _) => some (s.set i (.ended r))
    | _ => none

/-- What is read, `none` from a channel that is closed. There is nothing to read
as long as the reader has to wait. -/
def recv (s : TaskSet W O R) : Option (Option O × TaskSet W O R) :=
  match s.queue with
  | o :: rest => some (some o, { s with queue := rest })
  | [] => if s.closed then some (none, s) else none

/-- The task is the next one to be joined. -/
def join (s : TaskSet W O R) (i : ℕ) : Option (R × TaskSet W O R) :=
  match s.tasks[i]? with
  | some (.ended r) => some (r, s.set i .joined)
  | _ => none

section

variable (turn : W → I → W × List O)

/-- What a task sends in all. -/
def outputs : W → List I → List O
  | _, [] => []
  | w, a :: as => (turn w a).2 ++ outputs (turn w a).1 as

/-- A task behind its inputs. -/
def stateAfter (w : W) (as : List I) : W := as.foldl (fun w a => (turn w a).1) w

theorem outputs_concat : ∀ (w : W) (as : List I) (a : I),
    outputs turn w (as ++ [a]) = outputs turn w as ++ (turn (stateAfter turn w as) a).2
  | w, [], a => by simp [outputs, stateAfter]
  | w, b :: as, a => by
    rw [List.cons_append, outputs, outputs, outputs_concat, List.append_assoc]
    rfl

theorem stateAfter_concat (w : W) (as : List I) (a : I) :
    stateAfter turn w (as ++ [a]) = (turn (stateAfter turn w as) a).1 := by
  rw [stateAfter, stateAfter, List.foldl_append]
  rfl

/-- What a task sends when this has been done. -/
def outputsOf (ws : List W) (works : List (Work I R)) (i : ℕ) : List O :=
  match ws[i]? with
  | some w => outputs turn w (inputsTo i works)
  | none => []

/-- Where the tasks are when this has been done and that has been read. -/
structure Account (ws : List W) (works : List (Work I R)) (received : List O) (s : TaskSet W O R) : Prop where
  length : s.tasks.length = ws.length
  working : ∀ i w, s.tasks[i]? = some (.working w) →
    ∃ w₀, ws[i]? = some w₀ ∧ w = stateAfter turn w₀ (inputsTo i works)
  sent : ((received ++ s.queue : List O) : Multiset O) =
    ∑ i ∈ Finset.range ws.length, (outputsOf turn ws works i : Multiset O)

end

/-! ### What each step does -/

section

variable {turn : W → I → W × List O} {ws : List W} {works : List (Work I R)} {received : List O} {s s' : TaskSet W O R}

theorem account_spawned (ws : List W) :
    Account turn ws ([] : List (Work I R)) [] (spawned ws) where
  length := by simp [spawned]
  working i w h := by
    rw [spawned, List.getElem?_map] at h
    cases hw : ws[i]? with
    | none =>
      rw [hw] at h
      cases h
    | some w₀ =>
      rw [hw] at h
      obtain rfl : w₀ = w := by simpa using h
      exact ⟨w₀, rfl, rfl⟩
  sent := by
    have hnone : ∀ i ∈ Finset.range ws.length, (outputsOf turn ws ([] : List (Work I R)) i : Multiset O) = 0 := by
      intro i _
      unfold outputsOf
      split
      · rfl
      · rfl
    rw [Finset.sum_eq_zero hnone]
    rfl

theorem work_input {i : ℕ} {a : I} (h : s.work turn (.input i a) = some s') :
    ∃ w, s.tasks[i]? = some (.working w) ∧
      s' = ⟨s.tasks.set i (.working (turn w a).1), s.queue ++ (turn w a).2⟩ := by
  unfold work at h
  dsimp only at h
  split at h
  · exact ⟨_, ‹_›, (Option.some.inj h).symm⟩
  · cases h

theorem work_ends {i : ℕ} {r : R} (h : s.work turn (.ends i r) = some s') :
    ∃ w, s.tasks[i]? = some (.working w) ∧ s' = s.set i (.ended r) := by
  unfold work at h
  dsimp only at h
  split at h
  · exact ⟨_, ‹_›, (Option.some.inj h).symm⟩
  · cases h

theorem join_eq_some {i : ℕ} {r : R} (h : s.join i = some (r, s')) :
    s.tasks[i]? = some (.ended r) ∧ s' = s.set i .joined := by
  unfold join at h
  split at h
  · rename_i hi
    obtain ⟨rfl, rfl⟩ := Prod.mk.inj (Option.some.inj h)
    exact ⟨hi, rfl⟩
  · cases h

theorem recv_some {o : O} (h : s.recv = some (some o, s')) : s.queue = o :: s'.queue ∧ s'.tasks = s.tasks := by
  unfold recv at h
  split at h
  · rename_i hqueue
    obtain ⟨ho, rfl⟩ := Prod.mk.inj (Option.some.inj h)
    obtain rfl := Option.some.inj ho
    exact ⟨hqueue, rfl⟩
  · split at h
    · cases h
    · cases h

theorem recv_none (h : s.recv = some (none, s')) : s' = s ∧ s.queue = [] := by
  unfold recv at h
  split at h
  · cases h
  · split at h
    · exact ⟨(Prod.mk.inj (Option.some.inj h)).2.symm, ‹_›⟩
    · cases h

/-- Where one task is at work no more, the others are where they were. -/
theorem Account.set (h : Account turn ws works received s) (i : ℕ) {t : Task W R} (ht : ∀ w, t ≠ .working w) :
    Account turn ws works received (s.set i t) where
  length := by rw [TaskSet.set, List.length_set, h.length]
  working j w hj := by
    rw [TaskSet.set, List.getElem?_set] at hj
    split at hj
    · split at hj
      · exact absurd (Option.some.inj hj) (ht w)
      · cases hj
    · exact h.working j w hj
  sent := h.sent

theorem inputsTo_ends (i j : ℕ) (r : R) :
    inputsTo i (works ++ [Work.ends j r]) = inputsTo i works := by
  rw [inputsTo, List.filterMap_append]
  simp [inputsTo, Work.inputTo]

theorem inputsTo_self (i : ℕ) (a : I) :
    inputsTo i (works ++ [Work.input i a]) = inputsTo i works ++ [a] := by
  rw [inputsTo, List.filterMap_append]
  simp [inputsTo, Work.inputTo]

theorem inputsTo_ne {i j : ℕ} (h : j ≠ i) (a : I) :
    inputsTo i (works ++ [Work.input j a]) = inputsTo i works := by
  rw [inputsTo, List.filterMap_append]
  simp [inputsTo, Work.inputTo, h]

theorem Account.ends {i : ℕ} {r : R} (h : Account turn ws works received s)
    (hwork : s.work turn (.ends i r) = some s') : Account turn ws (works ++ [.ends i r]) received s' := by
  obtain ⟨w, -, rfl⟩ := work_ends hwork
  have hset : Account turn ws works received (s.set i (.ended r)) := h.set i fun _ ht => nomatch ht
  refine ⟨hset.length, fun j w hj => ?_, ?_⟩
  · rw [inputsTo_ends]
    exact hset.working j w hj
  · rw [hset.sent]
    unfold outputsOf
    simp only [inputsTo_ends]

theorem Account.input {i : ℕ} {a : I} (h : Account turn ws works received s)
    (hwork : s.work turn (.input i a) = some s') : Account turn ws (works ++ [.input i a]) received s' := by
  obtain ⟨w, hi, rfl⟩ := work_input hwork
  obtain ⟨w₀, hw₀, hw⟩ := h.working i w hi
  have hlt : i < ws.length := (List.getElem?_eq_some_iff.mp hw₀).1
  refine ⟨?_, fun j v hj => ?_, ?_⟩
  · rw [List.length_set, h.length]
  · by_cases hij : i = j
    · subst hij
      rw [List.getElem?_set_self (by rw [h.length]; exact hlt)] at hj
      obtain rfl : (turn w a).1 = v := by simpa using hj
      refine ⟨w₀, hw₀, ?_⟩
      rw [inputsTo_self, stateAfter_concat, ← hw]
    · rw [List.getElem?_set_ne hij] at hj
      rw [inputsTo_ne hij]
      exact h.working j v hj
  · -- one of the sums has grown by what has been sent
    have hself : outputsOf turn ws (works ++ [.input i a]) i = outputsOf turn ws works i ++ (turn w a).2 := by
      unfold outputsOf
      rw [hw₀]
      dsimp only
      rw [inputsTo_self, outputs_concat, ← hw]
    have hother : ∀ j ∈ (Finset.range ws.length).erase i,
        (outputsOf turn ws (works ++ [.input i a]) j : Multiset O) = outputsOf turn ws works j := by
      intro j hj
      unfold outputsOf
      rw [inputsTo_ne (Finset.ne_of_mem_erase hj).symm]
    have hmem : i ∈ Finset.range ws.length := Finset.mem_range.mpr hlt
    calc ((received ++ (s.queue ++ (turn w a).2) : List O) : Multiset O)
        = (received ++ s.queue : List O) + ((turn w a).2 : Multiset O) := by
          rw [← List.append_assoc, ← Multiset.coe_add]
      _ = ∑ j ∈ Finset.range ws.length, (outputsOf turn ws works j : Multiset O) + ((turn w a).2 : Multiset O) := by
          rw [h.sent]
      _ = ∑ j ∈ Finset.range ws.length, (outputsOf turn ws (works ++ [.input i a]) j : Multiset O) := by
          rw [← Finset.sum_erase_add _ _ hmem, ← Finset.sum_erase_add _ _ hmem, Finset.sum_congr rfl hother, hself,
            ← Multiset.coe_add, add_assoc]

/-- **One thing that a task does by itself.** -/
theorem Account.work {w : Work I R} (h : Account turn ws works received s) (hwork : s.work turn w = some s') :
    Account turn ws (works ++ [w]) received s' := by
  cases w with
  | input i a => exact h.input hwork
  | ends i r => exact h.ends hwork

theorem Account.recv {o : O} (h : Account turn ws works received s) (hrecv : s.recv = some (some o, s')) :
    Account turn ws works (received ++ [o]) s' := by
  obtain ⟨hqueue, htasks⟩ := recv_some hrecv
  refine ⟨by rw [htasks, h.length], fun i w hi => h.working i w (by rw [← htasks, hi]), ?_⟩
  rw [← h.sent, hqueue, List.append_assoc]
  rfl

theorem Account.join {i : ℕ} {r : R} (h : Account turn ws works received s) (hjoin : s.join i = some (r, s')) :
    Account turn ws works received s' := by
  obtain ⟨-, rfl⟩ := join_eq_some hjoin
  exact h.set i fun _ ht => nomatch ht

/-- **From an empty channel everything has been read.** -/
theorem Account.mem_received (h : Account turn ws works received s) (hqueue : s.queue = []) (o : O) :
    o ∈ received ↔ ∃ (i : ℕ) (w : W), ws[i]? = some w ∧ o ∈ outputs turn w (inputsTo i works) := by
  have hsent := h.sent
  rw [hqueue, List.append_nil] at hsent
  rw [← Multiset.mem_coe, hsent, Multiset.mem_sum]
  constructor
  · rintro ⟨i, -, ho⟩
    rw [Multiset.mem_coe, outputsOf] at ho
    split at ho
    · exact ⟨i, _, ‹_›, ho⟩
    · cases ho
  · rintro ⟨i, w, hw, ho⟩
    refine ⟨i, Finset.mem_range.mpr (List.getElem?_eq_some_iff.mp hw).1, ?_⟩
    rw [Multiset.mem_coe, outputsOf, hw]
    exact ho

end

/-! ### The reader comes to the end -/

/-- The steps a task has ahead of it, without what comes to it. -/
def turnsLeft : Task W R → ℕ
  | .working _ => 2
  | .ended _ => 1
  | .joined => 0

/-- The steps that are ahead, with what is in the queue. -/
def left (s : TaskSet W O R) : ℕ := (s.tasks.map turnsLeft).sum + s.queue.length

theorem sum_turnsLeft_set : ∀ (tasks : List (Task W R)) (i : ℕ) {t : Task W R} (t' : Task W R), tasks[i]? = some t →
    ((tasks.set i t').map turnsLeft).sum + turnsLeft t = (tasks.map turnsLeft).sum + turnsLeft t'
  | [], _, _, _, h => absurd h (by simp)
  | u :: us, 0, t, t', h => by
    obtain rfl : u = t := by simpa using h
    simp only [List.set_cons_zero, List.map_cons, List.sum_cons]
    omega
  | u :: us, i + 1, t, t', h => by
    have ih := sum_turnsLeft_set us i t' h
    simp only [List.set_cons_succ, List.map_cons, List.sum_cons]
    omega

section

variable {turn : W → I → W × List O} {s s' : TaskSet W O R}

theorem left_set {i : ℕ} {t t' : Task W R} (h : s.tasks[i]? = some t) (hlt : turnsLeft t' < turnsLeft t) :
    (s.set i t').left < s.left := by
  have hsum := sum_turnsLeft_set s.tasks i t' h
  unfold left TaskSet.set
  dsimp only
  omega

theorem left_recv {o : O} (h : s.recv = some (some o, s')) : s'.left < s.left := by
  obtain ⟨hqueue, htasks⟩ := recv_some h
  rw [left, left, htasks, hqueue, List.length_cons]
  omega

/-- As long as there is a step ahead, one of the steps can be taken. -/
theorem exists_turn (turn : W → I → W × List O) (r : R) (s : TaskSet W O R) :
    (s.isEmpty = true ∧ s.queue = [] ∧ s.recv = some (none, s)) ∨
      (∃ i s', s.work turn (.ends i r) = some s' ∧ s'.left < s.left) ∨
      (∃ i r' s', s.tasks[i]? = some (.ended r') ∧ s.join i = some (r', s') ∧ s'.left < s.left) ∨
      ∃ o s', s.recv = some (some o, s') ∧ s'.left < s.left := by
  by_cases hempty : s.isEmpty = true
  · cases hqueue : s.queue with
    | nil =>
      refine Or.inl ⟨hempty, rfl, ?_⟩
      have hclosed : s.closed = true := by
        rw [isEmpty, List.all_eq_true] at hempty
        rw [closed, List.all_eq_true]
        intro t ht
        have hjoined := hempty t ht
        cases t with
        | working w => cases hjoined
        | ended r => rfl
        | joined => rfl
      rw [recv, hqueue, hclosed]
      rfl
    | cons o rest =>
      have hrecv : s.recv = some (some o, { s with queue := rest }) := by rw [recv, hqueue]
      exact Or.inr (Or.inr (Or.inr ⟨o, _, hrecv, left_recv hrecv⟩))
  · rw [isEmpty, List.all_eq_true, not_forall] at hempty
    obtain ⟨t, hempty⟩ := hempty
    obtain ⟨ht, hjoined⟩ := Classical.not_imp.mp hempty
    obtain ⟨i, hi⟩ := List.getElem?_of_mem ht
    cases t with
    | working w =>
      have hwork : s.work turn (.ends i r) = some (s.set i (.ended r)) := by
        unfold work
        dsimp only
        rw [hi]
      exact Or.inr (Or.inl ⟨i, _, hwork, left_set hi (Nat.lt_succ_self _)⟩)
    | ended r' =>
      have hjoin : s.join i = some (r', s.set i .joined) := by rw [join, hi]
      exact Or.inr (Or.inr (Or.inl ⟨i, r', _, hi, hjoin, left_set hi (Nat.lt_succ_self _)⟩))
    | joined => exact absurd rfl hjoined

end

end TaskSet

end Rsdb
