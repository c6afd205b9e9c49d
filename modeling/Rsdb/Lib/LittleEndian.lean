/-
# Fixed-width little-endian integers

`leBytes w n` is the `w` low bytes of `n`, lowest first; `leNat` reads a byte
list back as a number (Mathlib's `Nat.ofDigits` in base 256). The two undo each
other: a number read back is the number modulo `256 ^ w` (`leNat_leBytes`), and
a list of `w` bytes is written back as it was (`leBytes_leNat`).
-/
import Mathlib.Data.Nat.Digits.Defs
import Mathlib.Tactic.Ring

namespace Rsdb

/-- The `w` low bytes of `n`, lowest first. -/
def leBytes : ℕ → ℕ → List UInt8
  | 0, _ => []
  | w + 1, n => UInt8.ofNat n :: leBytes w (n / 256)

/-- The number a little-endian byte list stands for. -/
def leNat (bs : List UInt8) : ℕ := Nat.ofDigits 256 (bs.map UInt8.toNat)

@[simp] theorem leNat_nil : leNat [] = 0 := rfl

theorem leNat_cons (b : UInt8) (bs : List UInt8) : leNat (b :: bs) = b.toNat + 256 * leNat bs := by
  simp [leNat, Nat.ofDigits_cons]

@[simp] theorem leBytes_length : ∀ w n : ℕ, (leBytes w n).length = w
  | 0, _ => rfl
  | w + 1, n => by simp [leBytes, leBytes_length w]

/-- Reading back what was written gives the low `w` bytes. -/
theorem leNat_leBytes : ∀ w n : ℕ, leNat (leBytes w n) = n % 256 ^ w
  | 0, n => by simp [leBytes, Nat.mod_one]
  | w + 1, n => by
    have hp : 256 ^ (w + 1) = 256 * 256 ^ w := pow_succ' 256 w
    rw [leBytes, leNat_cons, leNat_leBytes w, UInt8.toNat_ofNat', hp, Nat.mod_mul]

theorem leNat_leBytes_of_lt {w n : ℕ} (h : n < 256 ^ w) : leNat (leBytes w n) = n := by
  rw [leNat_leBytes, Nat.mod_eq_of_lt h]

/-- Writing back what was read gives the bytes. -/
theorem leBytes_leNat : ∀ bs : List UInt8, leBytes bs.length (leNat bs) = bs
  | [] => rfl
  | b :: bs => by
    have hb : b.toNat < 256 := b.toNat_lt
    have hlow : UInt8.ofNat (b.toNat + 256 * leNat bs) = b := by
      apply UInt8.toNat_inj.mp
      rw [UInt8.toNat_ofNat']
      omega
    have hhigh : (b.toNat + 256 * leNat bs) / 256 = leNat bs := by omega
    rw [List.length_cons, leBytes, leNat_cons, hlow, hhigh, leBytes_leNat bs]

theorem leNat_lt (bs : List UInt8) : leNat bs < 256 ^ bs.length := by
  have h : bs.length = (bs.map UInt8.toNat).length := by simp
  rw [leNat, h]
  refine Nat.ofDigits_lt_base_pow_length (by norm_num) fun x hx => ?_
  obtain ⟨b, -, rfl⟩ := List.mem_map.mp hx
  exact b.toNat_lt

end Rsdb
