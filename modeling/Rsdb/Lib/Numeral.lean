/-
# Numerals and how they are read

`numeral base n` writes a number in digits, the highest first and small letters
above nine, as `{}` and `{:x}` do. `readNumber` takes all digits that there are
and then accepts or refuses them: too many, a zero in front, or a number that is
too large (the number parser of `core::net`).

What is written is read again, whatever comes behind it that is no digit
(`readNumber_numeral`); and what is read never ends in the middle of a run of
digits (`readNumber_keeps`).
-/
import Mathlib.Data.Nat.Digits.Lemmas

namespace Rsdb

/-! ### Digits -/

/-- A digit, from ten on a letter in lower case. -/
def digitChar (d : ℕ) : UInt8 := UInt8.ofNat (if d < 10 then 48 + d else 87 + d)

/-- `to_digit`: small and capital letters are digits above nine. -/
def toDigit (radix : ℕ) (b : UInt8) : Option ℕ :=
  let value :=
    if 48 ≤ b ∧ b ≤ 57 then some (b.toNat - 48)
    else if 97 ≤ b ∧ b ≤ 122 then some (b.toNat - 87)
    else if 65 ≤ b ∧ b ≤ 90 then some (b.toNat - 55)
    else none
  value.filter (· < radix)

/-- The digits of a number, the highest first. -/
def numeral (base n : ℕ) : List UInt8 := if n = 0 then [48] else (base.digits n).reverse.map digitChar

/-- The digits at the front, and what comes behind them. -/
def readDigits (radix : ℕ) : List UInt8 → List ℕ × List UInt8
  | [] => ([], [])
  | b :: s =>
    match toDigit radix b with
    | none => ([], b :: s)
    | some d => (d :: (readDigits radix s).1, (readDigits radix s).2)

/-- What a parser makes of a text: a value and what is left, if it accepts. -/
abbrev Reader (α : Type) := List UInt8 → Option (α × List UInt8)

/-- The number below `bound` at the front, of at most so many digits. -/
def readNumber (radix bound : ℕ) (maxDigits : Option ℕ) (allowZeroPrefix : Bool) : Reader ℕ := fun s =>
  let digits := (readDigits radix s).1
  let value := Nat.ofDigits radix digits.reverse
  if digits = [] then none
  else if maxDigits.any (· < digits.length) then none
  else if allowZeroPrefix = false ∧ s.head? = some 48 ∧ 1 < digits.length then none
  else if value < bound then some (value, (readDigits radix s).2)
  else none

theorem toDigit_digitChar {radix d : ℕ} (hd : d < radix) (hradix : radix ≤ 16) : toDigit radix (digitChar d) = some d := by
  have hsmall : ∀ d < 16, (if 48 ≤ digitChar d ∧ digitChar d ≤ 57 then some ((digitChar d).toNat - 48)
      else if 97 ≤ digitChar d ∧ digitChar d ≤ 122 then some ((digitChar d).toNat - 87)
      else if 65 ≤ digitChar d ∧ digitChar d ≤ 90 then some ((digitChar d).toNat - 55) else none) = some d := by
    decide
  rw [toDigit, hsmall d (by omega), Option.filter_some, decide_eq_true hd, if_pos rfl]

/-- What is no digit of a number. -/
def NoDigit (radix : ℕ) (s : List UInt8) : Prop := ∀ b ∈ s.head?, toDigit radix b = none

instance (radix : ℕ) (s : List UInt8) : Decidable (NoDigit radix s) :=
  Option.decidableForallMem s.head?

theorem readDigits_of_noDigit {radix : ℕ} {s : List UInt8} (h : NoDigit radix s) : readDigits radix s = ([], s) := by
  cases s with
  | nil => rfl
  | cons b s => rw [readDigits, h b rfl]

/-- Digits are read up to what is none. -/
theorem readDigits_append {radix : ℕ} (hradix : radix ≤ 16) {rest : List UInt8} (hrest : NoDigit radix rest) :
    ∀ {ds : List ℕ}, (∀ d ∈ ds, d < radix) → readDigits radix (ds.map digitChar ++ rest) = (ds, rest)
  | [], _ => readDigits_of_noDigit hrest
  | d :: ds, h => by
    obtain ⟨hd, hds⟩ := List.forall_mem_cons.mp h
    rw [List.map_cons, List.cons_append, readDigits, toDigit_digitChar hd hradix, readDigits_append hradix hrest hds]

/-! ### What is written is read -/

section

variable {radix n : ℕ}

theorem numeral_eq (hn : n ≠ 0) : numeral radix n = (radix.digits n).reverse.map digitChar := if_neg hn

/-- A numeral as digits. -/
theorem exists_digits (hradix : 1 < radix) (n : ℕ) : ∃ ds : List ℕ, numeral radix n = ds.map digitChar ∧ ds ≠ [] ∧
    (∀ d ∈ ds, d < radix) ∧ Nat.ofDigits radix ds.reverse = n ∧ (n ≠ 0 → ds.head? ≠ some 0) ∧ (n = 0 → ds = [0]) ∧
    ∀ k, 0 < k → n < radix ^ k → ds.length ≤ k := by
  by_cases hn : n = 0
  · subst hn
    refine ⟨[0], rfl, List.cons_ne_nil 0 [], fun d hd => ?_, rfl, fun h => absurd rfl h, fun _ => rfl, fun k hk _ => hk⟩
    rw [List.mem_singleton.mp hd]
    omega
  · have hne : radix.digits n ≠ [] := Nat.digits_ne_nil_iff_ne_zero.mpr hn
    refine ⟨(radix.digits n).reverse, numeral_eq hn, by simpa using hne, fun d hd => ?_, ?_, fun _ => ?_,
      fun h => absurd h hn, fun k _ hlt => ?_⟩
    · exact Nat.digits_lt_base hradix (List.mem_reverse.mp hd)
    · rw [List.reverse_reverse, Nat.ofDigits_digits]
    · rw [List.head?_reverse, List.getLast?_eq_some_getLast hne]
      exact fun h => Nat.getLast_digit_ne_zero radix hn (Option.some.inj h)
    · rw [List.length_reverse]
      exact (Nat.digits_length_le_iff hradix n).mpr hlt

/-- The first byte of a numeral. -/
theorem head?_map_digitChar {ds : List ℕ} (hradix : radix ≤ 16) (hds : ∀ d ∈ ds, d < radix) :
    (ds.map digitChar).head? = some 48 → ds.head? = some 0 := by
  cases ds with
  | nil => exact fun h => nomatch h
  | cons d ds =>
    intro h
    have hchar : digitChar d = 48 := Option.some.inj h
    have hback := toDigit_digitChar (hds d List.mem_cons_self) hradix
    have hzero : toDigit radix 48 = some 0 := by
      have hpos : 0 < radix := Nat.zero_lt_of_lt (hds d List.mem_cons_self)
      simp [toDigit, Option.filter, hpos]
    rw [hchar, hzero] at hback
    rw [List.head?_cons, ← Option.some.inj hback]

/-- **A number that is written is read again.** -/
theorem readNumber_numeral (hradix : 1 < radix) (hradix' : radix ≤ 16) {bound : ℕ} {maxDigits : Option ℕ}
    (hbound : n < bound) (hmax : ∀ k ∈ maxDigits, 0 < k ∧ n < radix ^ k) (allowZeroPrefix : Bool) {rest : List UInt8}
    (hrest : NoDigit radix rest) :
    readNumber radix bound maxDigits allowZeroPrefix (numeral radix n ++ rest) = some (n, rest) := by
  obtain ⟨ds, hnumeral, hne, hds, hvalue, hhead, hzero, hlength⟩ := exists_digits hradix n
  rw [hnumeral, readNumber, readDigits_append hradix' hrest hds]
  have hmax' : maxDigits.any (· < ds.length) = false := by
    cases maxDigits with
    | none => rfl
    | some k =>
      obtain ⟨hk, hlt⟩ := hmax k rfl
      have hle := hlength k hk hlt
      simpa using hle
  have hprefix : ¬ (allowZeroPrefix = false ∧ (ds.map digitChar ++ rest).head? = some 48 ∧ 1 < ds.length) := by
    rintro ⟨-, hfirst, hlong⟩
    have hfirst' : (ds.map digitChar).head? = some 48 := by
      rwa [List.head?_append_of_ne_nil _ (by simpa using hne)] at hfirst
    by_cases hn : n = 0
    · rw [hzero hn] at hlong
      simp at hlong
    · exact hhead hn (head?_map_digitChar hradix' hds hfirst')
  simp only [hne, hmax', hprefix, hvalue, hbound, Bool.false_eq_true, ↓reduceIte]

/-- A numeral begins with a digit and has nothing but digits. -/
theorem mem_numeral (hradix : 1 < radix) (hradix' : radix ≤ 16) {b : UInt8} (h : b ∈ numeral radix n) :
    (toDigit radix b).isSome = true := by
  obtain ⟨ds, hnumeral, -, hds, -⟩ := exists_digits hradix n
  rw [hnumeral] at h
  obtain ⟨d, hd, rfl⟩ := List.mem_map.mp h
  rw [toDigit_digitChar (hds d hd) hradix']
  rfl

end

/-! ### Where reading ends -/

/-- Behind the digits comes none. -/
theorem noDigit_readDigits (radix : ℕ) : ∀ s : List UInt8, NoDigit radix (readDigits radix s).2
  | [] => by simp [readDigits, NoDigit]
  | b :: s => by
    cases hb : toDigit radix b with
    | none =>
      rw [readDigits, hb]
      intro c hc
      obtain rfl : b = c := by simpa using hc
      exact hb
    | some d =>
      rw [readDigits, hb]
      exact noDigit_readDigits radix s

/-- What is left of a text behind which some text stands. -/
theorem readDigits_suffix {radix : ℕ} {last : List UInt8} (hlast : ∀ b ∈ last, (toDigit radix b).isSome = true) :
    ∀ {s : List UInt8}, last <:+ s → last <:+ (readDigits radix s).2 ∨ last.length ≤ (readDigits radix s).1.length
  | [], h => by
    obtain rfl := List.suffix_nil.mp h
    exact Or.inr (Nat.zero_le _)
  | b :: s, h => by
    cases hb : toDigit radix b with
    | none =>
      rw [readDigits, hb]
      exact Or.inl h
    | some d =>
      rw [readDigits, hb]
      rcases List.suffix_cons_iff.mp h with rfl | htail
      · -- all that is left are digits
        right
        have hall : ∀ {t : List UInt8}, (∀ c ∈ t, (toDigit radix c).isSome = true) → t.length ≤ (readDigits radix t).1.length := by
          intro t
          induction t with
          | nil => exact fun _ => Nat.le_refl 0
          | cons c t ih =>
            intro ht
            obtain ⟨hc, ht'⟩ := List.forall_mem_cons.mp ht
            obtain ⟨e, he⟩ := Option.isSome_iff_exists.mp hc
            rw [readDigits, he, List.length_cons, List.length_cons]
            exact Nat.succ_le_succ (ih ht')
        have hs := hall (List.forall_mem_cons.mp hlast).2
        rw [List.length_cons, List.length_cons]
        exact Nat.succ_le_succ hs
      · rcases readDigits_suffix hlast htail with hleft | hlong
        · exact Or.inl hleft
        · exact Or.inr (Nat.le_succ_of_le hlong)

/-- A number of few digits does not reach into a longer run of them. -/
theorem readNumber_keeps {radix bound k : ℕ} {allowZeroPrefix : Bool} {last : List UInt8}
    (hlast : ∀ b ∈ last, (toDigit radix b).isSome = true) (hk : k < last.length) {s rest : List UInt8} {n : ℕ}
    (hs : last <:+ s) (h : readNumber radix bound (some k) allowZeroPrefix s = some (n, rest)) : last <:+ rest := by
  unfold readNumber at h
  simp only [Option.any_some, decide_eq_true_eq] at h
  split_ifs at h with h₁ h₂ h₃ h₄
  obtain ⟨-, rfl⟩ := Prod.mk.inj (Option.some.inj h)
  exact (readDigits_suffix hlast hs).resolve_right (by omega)

example : readNumber 10 256 (some 3) false [49, 48, 46] = some (10, [46]) := by decide +kernel

end Rsdb
