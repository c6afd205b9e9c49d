/-
# Two programs of which one waits for the other

`Together` is `Interleaved` with the calls in the order in which they are made, and
with what both programs return. Some calls are looks, from which on a program relies
on what it has seen. The calls are `Exclusive` if a program that has looked makes all
its further calls before the other one makes any.

Then there is one order of the two that explains the outcomes: after some calls that
are no looks the one runs to its end and then the other one does. What those calls
keep is true there (`together_exclusive`).
-/
import Rsdb.Lib.Interleaving

namespace Rsdb

namespace Prog

variable {C : Type} {A : C → Type} {ε α β S : Type}

/-- The two programs from a state to their outcomes, the calls they make, and the
state they leave. -/
inductive Together (step : (c : C) → S → A c × S) :
    List (Side × C) → Prog C A ε α → Prog C A ε β → S → Except ε α → Except ε β → S → Prop where
  | ended {x : Prog C A ε α} {y : Prog C A ε β} {s : S} {r : Except ε α} {q : Except ε β} (hx : x = ofExcept r)
      (hy : y = ofExcept q) : Together step [] x y s r q s
  | left {trace : List (Side × C)} {c : C} {k : A c → Prog C A ε α} {y : Prog C A ε β} {s s' : S} {r : Except ε α}
      {q : Except ε β} (h : Together step trace (k (step c s).1) y (step c s).2 r q s') :
      Together step ((.left, c) :: trace) (.call c k) y s r q s'
  | right {trace : List (Side × C)} {c : C} {x : Prog C A ε α} {k : A c → Prog C A ε β} {s s' : S} {r : Except ε α}
      {q : Except ε β} (h : Together step trace x (k (step c s).1) (step c s).2 r q s') :
      Together step ((.right, c) :: trace) x (.call c k) s r q s'

/-- What a schedule makes of two programs, if both are at their ends then. -/
def interleave (step : (c : C) → S → A c × S) :
    List Side → Prog C A ε α → Prog C A ε β → S → Option (Except ε α × Except ε β × S)
  | [], .pure a, .pure b, s => some (.ok a, .ok b, s)
  | [], .pure a, .fail e, s => some (.ok a, .error e, s)
  | [], .fail e, .pure b, s => some (.error e, .ok b, s)
  | [], .fail e, .fail e', s => some (.error e, .error e', s)
  | .left :: schedule, .call c k, y, s => interleave step schedule (k (step c s).1) y (step c s).2
  | .right :: schedule, x, .call c k, s => interleave step schedule x (k (step c s).1) (step c s).2
  | _, _, _, _ => none

section

variable {step : (c : C) → S → A c × S}

theorem together_of_interleave : ∀ {schedule : List Side} {x : Prog C A ε α} {y : Prog C A ε β} {s s' : S}
    {r : Except ε α} {q : Except ε β}, interleave step schedule x y s = some (r, q, s') →
      ∃ trace, trace.map Prod.fst = schedule ∧ Together step trace x y s r q s' := by
  intro schedule x y s s' r q h
  induction schedule generalizing x y s with
  | nil =>
    cases x with
    | call c k => cases y <;> cases h
    | pure a =>
      cases y with
      | call c k => cases h
      | pure b =>
        cases h
        exact ⟨[], rfl, .ended rfl rfl⟩
      | fail e =>
        cases h
        exact ⟨[], rfl, .ended rfl rfl⟩
    | fail e =>
      cases y with
      | call c k => cases h
      | pure b =>
        cases h
        exact ⟨[], rfl, .ended rfl rfl⟩
      | fail e =>
        cases h
        exact ⟨[], rfl, .ended rfl rfl⟩
  | cons side schedule ih =>
    cases side with
    | left =>
      cases x with
      | pure a => cases h
      | fail e => cases h
      | call c k =>
        obtain ⟨trace, hmap, htogether⟩ := ih h
        exact ⟨(.left, c) :: trace, by rw [List.map_cons, hmap], .left htogether⟩
    | right =>
      cases y with
      | pure b => cases x <;> cases h
      | fail e => cases x <;> cases h
      | call c k =>
        have hrest : interleave step schedule x (k (step c s).1) (step c s).2 = some (r, q, s') := by
          cases x <;> exact h
        obtain ⟨trace, hmap, htogether⟩ := ih hrest
        exact ⟨(.right, c) :: trace, by rw [List.map_cons, hmap], .right htogether⟩

variable {trace : List (Side × C)} {x : Prog C A ε α} {y : Prog C A ε β} {s s' : S} {r : Except ε α} {q : Except ε β}

theorem Together.swap (h : Together step trace x y s r q s') :
    Together step (trace.map fun e => (e.1.other, e.2)) y x s q r s' := by
  induction h with
  | ended hx hy => exact .ended hy hx
  | left _ ih => exact .right ih
  | right _ ih => exact .left ih

/-- The first call is the next one of its side. -/
theorem Together.of_left {c : C} (h : Together step ((.left, c) :: trace) x y s r q s') :
    ∃ k, x = .call c k ∧ Together step trace (k (step c s).1) y (step c s).2 r q s' := by
  cases h with
  | left h => exact ⟨_, rfl, h⟩

/-! ### One after the other -/

/-- With calls of the second program only, the first one has ended. -/
theorem Together.of_right (h : Together step trace x y s r q s') (hright : ∀ e ∈ trace, e.1 = .right) :
    x = ofExcept r ∧ run step y s = (q, s') := by
  induction h with
  | ended hx hy => exact ⟨hx, by rw [hy, run_ofExcept]⟩
  | left => cases hright _ List.mem_cons_self
  | right _ ih => exact ih fun e he => hright e (List.mem_cons_of_mem _ he)

/-- With all calls of the first program before those of the second, each runs alone. -/
theorem Together.of_left_right {mine theirs : List (Side × C)} (h : Together step (mine ++ theirs) x y s r q s')
    (hmine : ∀ e ∈ mine, e.1 = .left) (htheirs : ∀ e ∈ theirs, e.1 = .right) :
    ∃ s₁, run step x s = (r, s₁) ∧ run step y s₁ = (q, s') := by
  induction mine generalizing x s with
  | nil =>
    obtain ⟨rfl, hy⟩ := h.of_right htheirs
    exact ⟨s, run_ofExcept step r s, hy⟩
  | cons e mine ih =>
    rw [List.cons_append] at h
    have hside : e.1 = .left := hmine _ List.mem_cons_self
    cases h with
    | left h =>
      obtain ⟨s₁, hx, hy⟩ := ih h fun e he => hmine e (List.mem_cons_of_mem _ he)
      exact ⟨s₁, hx, hy⟩
    | right => cases hside

/-! ### Keeping the other one out -/

/-- A program that has made a look makes all its further calls before the other one
makes any. -/
def Exclusive (look : C → Prop) (trace : List (Side × C)) : Prop :=
  ∀ before side c after, trace = before ++ (side, c) :: after → look c →
    ∃ mine theirs, after = mine ++ theirs ∧ (∀ e ∈ mine, e.1 = side) ∧ ∀ e ∈ theirs, e.1 = side.other

variable {look : C → Prop}

theorem Exclusive.tail {e : Side × C} (h : Exclusive look (e :: trace)) : Exclusive look trace :=
  fun before side c after heq => h (e :: before) side c after (by rw [heq, List.cons_append])

theorem Exclusive.cons {e : Side × C} (he : ¬ look e.2) (h : Exclusive look trace) : Exclusive look (e :: trace) := by
  intro before side c after heq hlook
  cases before with
  | nil =>
    obtain ⟨rfl, -⟩ := List.cons.inj heq
    exact absurd hlook he
  | cons e' before =>
    obtain ⟨rfl, htail⟩ := List.cons.inj heq
    exact h before side c after htail hlook

theorem Exclusive.swap (h : Exclusive look trace) : Exclusive look (trace.map fun e => (e.1.other, e.2)) := by
  intro before side c after heq hlook
  obtain ⟨before', rest, rfl, rfl, hrest⟩ := List.map_eq_append_iff.mp heq
  obtain ⟨⟨side', c'⟩, after', rfl, hhead, rfl⟩ := List.map_eq_cons_iff.mp hrest
  obtain ⟨rfl, rfl⟩ := Prod.mk.inj hhead
  obtain ⟨mine, theirs, rfl, hmine, htheirs⟩ := h before' side' c' after' rfl hlook
  refine ⟨_, _, List.map_append, fun e he => ?_, fun e he => ?_⟩
  · obtain ⟨e', he', rfl⟩ := List.mem_map.mp he
    exact congrArg Side.other (hmine e' he')
  · obtain ⟨e', he', rfl⟩ := List.mem_map.mp he
    exact congrArg Side.other (htheirs e' he')

/-- Steps that do not mix are exclusive, whatever a look is. -/
theorem Apart.exclusive (h : Apart (trace.map Prod.fst)) : Exclusive look trace := by
  obtain ⟨first, n, m, hsides⟩ := h
  rintro before side c after rfl -
  rw [List.map_append, List.map_cons] at hsides
  have hlast : ∀ {pre : List Side}, List.replicate m first.other = pre ++ side :: after.map Prod.fst →
      ∀ e ∈ after, e.1 = side := by
    intro pre hsplit e he
    have hside : side = first.other := List.eq_of_mem_replicate (n := m) (by rw [hsplit]; simp)
    have hmem : e.1 ∈ List.replicate m first.other := by
      rw [hsplit]
      exact List.mem_append_right _ (List.mem_cons_of_mem _ (List.mem_map_of_mem he))
    rw [hside, List.eq_of_mem_replicate hmem]
  rcases List.append_eq_append_iff.mp hsides with ⟨rest, hfirst, hrest⟩ | ⟨rest, -, hrest⟩
  · cases rest with
    | nil => exact ⟨after, [], (List.append_nil _).symm, @hlast [] hrest.symm, by simp⟩
    | cons side' rest =>
      rw [List.cons_append] at hrest
      obtain ⟨rfl, hafter⟩ := List.cons.inj hrest
      obtain ⟨mine, theirs, rfl, hmine, htheirs⟩ := List.map_eq_append_iff.mp hafter
      have hfirsts : ∀ side'' ∈ side :: rest, side'' = first := fun side'' hmem =>
        List.eq_of_mem_replicate (n := n) (by rw [hfirst]; exact List.mem_append_right _ hmem)
      obtain rfl := hfirsts side List.mem_cons_self
      refine ⟨mine, theirs, rfl, fun e he => ?_, fun e he => ?_⟩
      · exact hfirsts e.1 (List.mem_cons_of_mem _ (hmine ▸ List.mem_map_of_mem he))
      · exact List.eq_of_mem_replicate (htheirs ▸ List.mem_map_of_mem (f := Prod.fst) he)
  · exact ⟨after, [], (List.append_nil _).symm, hlast hrest, by simp⟩

/-- **A look keeps the other program out.** What is true at the start, and is kept by
each call that is no look, is true where the one program runs to its end and then the
other one does. -/
theorem together_exclusive {P : Prog C A ε α → Prog C A ε β → S → Prop}
    (hleft : ∀ {c : C} {k : A c → Prog C A ε α} {y : Prog C A ε β} {s : S}, P (.call c k) y s → ¬ look c →
      P (k (step c s).1) y (step c s).2)
    (hright : ∀ {c : C} {x : Prog C A ε α} {k : A c → Prog C A ε β} {s : S}, P x (.call c k) s → ¬ look c →
      P x (k (step c s).1) (step c s).2)
    (h : Together step trace x y s r q s') (hexclusive : Exclusive look trace) (hstart : P x y s) :
    ∃ x' y' s₀ s₁, P x' y' s₀ ∧
      ((run step x' s₀ = (r, s₁) ∧ run step y' s₁ = (q, s')) ∨
        (run step y' s₀ = (q, s₁) ∧ run step x' s₁ = (r, s'))) := by
  induction h with
  | @ended x y s r q hx hy =>
    refine ⟨x, y, s, s, hstart, Or.inl ?_⟩
    rw [hx, hy, run_ofExcept, run_ofExcept]
    exact ⟨rfl, rfl⟩
  | @left trace c k y s s' r q h ih =>
    by_cases hc : look c
    · obtain ⟨mine, theirs, rfl, hmine, htheirs⟩ := hexclusive [] .left c trace rfl hc
      obtain ⟨s₁, hx, hy⟩ := h.of_left_right hmine htheirs
      exact ⟨.call c k, y, s, s₁, hstart, Or.inl ⟨hx, hy⟩⟩
    · exact ih hexclusive.tail (hleft hstart hc)
  | @right trace c x k s s' r q h ih =>
    by_cases hc : look c
    · obtain ⟨mine, theirs, htrace, hmine, htheirs⟩ := (hexclusive.swap) [] .left c _ rfl hc
      have hswap := h.swap
      rw [htrace] at hswap
      obtain ⟨s₁, hy, hx⟩ := hswap.of_left_right hmine htheirs
      exact ⟨x, .call c k, s, s₁, hstart, Or.inr ⟨hy, hx⟩⟩
    · exact ih hexclusive.tail (hright hstart hc)

end

end Prog

end Rsdb
