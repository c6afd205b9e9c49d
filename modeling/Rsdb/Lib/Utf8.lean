/-
# UTF-8 text in bytes

A character is a first byte and the bytes it asks for, each in a range. A byte
string is cut into characters and into the longest prefixes that begin one and
go wrong: `isUtf8` says that there are none of these, `utf8Lossy` puts U+FFFD for
each, as `String::from_utf8_lossy` does.

A byte string cut in two has the lossy text of its parts exactly when the cut is
at a boundary, where one of these pieces ends (`utf8Lossy_append`); so has one
cut into chunks (`flatMap_utf8Lossy_iff`). A prefix of a text is a text exactly
when it ends at one (`isUtf8_take`), as it does before an ASCII character
(`isUtf8_ascii_between`).
-/
import Rsdb.Lib.ByteStream

namespace Rsdb

/-- The ranges of the bytes that follow a first byte, if it begins a character. -/
def followers (first : UInt8) : Option (List (UInt8 × UInt8)) :=
  let any := (0x80, 0xBF)
  if first < 0x80 then some []
  else if 0xC2 ≤ first ∧ first ≤ 0xDF then some [any]
  else if first = 0xE0 then some [(0xA0, 0xBF), any]
  else if first = 0xED then some [(0x80, 0x9F), any]
  else if 0xE1 ≤ first ∧ first ≤ 0xEF then some [any, any]
  else if first = 0xF0 then some [(0x90, 0xBF), any, any]
  else if 0xF1 ≤ first ∧ first ≤ 0xF3 then some [any, any, any]
  else if first = 0xF4 then some [(0x80, 0x8F), any, any]
  else none

/-- How many of the ranges the bytes match, in order. -/
def matched : List (UInt8 × UInt8) → Bytes → ℕ
  | (low, high) :: ranges, b :: bytes => if low ≤ b ∧ b ≤ high then matched ranges bytes + 1 else 0
  | _, _ => 0

/-- How many bytes belong to a first byte, and whether they make a character. -/
def charAfter (first : UInt8) (rest : Bytes) : ℕ × Bool :=
  match followers first with
  | none => (0, false)
  | some ranges => (matched ranges rest, matched ranges rest = ranges.length)

/-- `fuel` counts bytes. -/
def isUtf8UpTo : ℕ → Bytes → Bool
  | fuel + 1, first :: rest =>
    (charAfter first rest).2 && isUtf8UpTo fuel (rest.drop (charAfter first rest).1)
  | _, _ => true

/-- The bytes are the text of some characters. -/
def isUtf8 (bytes : Bytes) : Bool := isUtf8UpTo bytes.length bytes

/-- U+FFFD. -/
def replacement : Bytes := [0xEF, 0xBF, 0xBD]

/-- `fuel` counts bytes. -/
def utf8LossyUpTo : ℕ → Bytes → Bytes
  | fuel + 1, first :: rest =>
    (if (charAfter first rest).2 then first :: rest.take (charAfter first rest).1 else replacement) ++
      utf8LossyUpTo fuel (rest.drop (charAfter first rest).1)
  | _, _ => []

/-- `String::from_utf8_lossy`. -/
def utf8Lossy (bytes : Bytes) : Bytes := utf8LossyUpTo bytes.length bytes

theorem utf8LossyUpTo_of_isUtf8 : ∀ {fuel : ℕ} {bytes : Bytes}, bytes.length ≤ fuel →
    isUtf8UpTo fuel bytes = true → utf8LossyUpTo fuel bytes = bytes
  | 0, bytes, hlen, _ => by
    obtain rfl : bytes = [] := List.eq_nil_of_length_eq_zero (by omega)
    rfl
  | _ + 1, [], _, _ => rfl
  | fuel + 1, first :: rest, hlen, h => by
    rw [List.length_cons] at hlen
    rw [isUtf8UpTo, Bool.and_eq_true] at h
    obtain ⟨hwhole, hrest⟩ := h
    have hshort : (rest.drop (charAfter first rest).1).length ≤ fuel := by
      rw [List.length_drop]
      omega
    have ih := utf8LossyUpTo_of_isUtf8 hshort hrest
    rw [utf8LossyUpTo, ih, if_pos hwhole, List.cons_append, List.take_append_drop]

/-- What is UTF-8 is read as it is. -/
theorem utf8Lossy_of_isUtf8 {bytes : Bytes} (h : isUtf8 bytes = true) : utf8Lossy bytes = bytes :=
  utf8LossyUpTo_of_isUtf8 (Nat.le_refl _) h

/-- A character cut off, a byte that begins none, and text. -/
example : utf8Lossy [0x61, 0xE2, 0x82, 0xFF, 0x62] = [0x61] ++ replacement ++ replacement ++ [0x62] := by decide

/-! ### Where characters begin -/

/-- A byte that can only follow a first byte. -/
def isFollower (b : UInt8) : Bool := 0x80 ≤ b && b ≤ 0xBF

theorem followers_of_isFollower {b : UInt8} (h : isFollower b = true) : followers b = none := by
  rw [isFollower, Bool.and_eq_true, decide_eq_true_eq, decide_eq_true_eq] at h
  unfold followers
  grind

theorem followers_ranges {first : UInt8} {ranges : List (UInt8 × UInt8)} (h : followers first = some ranges) :
    ranges.length ≤ 3 ∧ ∀ r ∈ ranges, 0x80 ≤ r.1 ∧ r.2 ≤ 0xBF := by
  unfold followers at h
  simp only at h
  repeat' split at h
  all_goals cases h
  all_goals simp only [List.forall_mem_cons, List.not_mem_nil, false_imp_iff, forall_const, and_true]
  all_goals decide

theorem matched_le : ∀ (ranges : List (UInt8 × UInt8)) (bytes : Bytes),
    matched ranges bytes ≤ ranges.length ∧ matched ranges bytes ≤ bytes.length
  | [], _ => by simp [matched]
  | _ :: _, [] => by simp [matched]
  | r :: ranges, b :: bytes => by
    obtain ⟨hranges, hbytes⟩ := matched_le ranges bytes
    rw [matched]
    split <;> simp only [List.length_cons] <;> omega

/-- What is matched within a prefix is matched in the prefix. -/
theorem matched_append : ∀ {ranges : List (UInt8 × UInt8)} {a : Bytes} (b : Bytes),
    matched ranges (a ++ b) ≤ a.length → matched ranges a = matched ranges (a ++ b)
  | [], _, _, _ => by simp [matched]
  | _ :: _, [], _, h => by
    have hnone := Nat.le_zero.mp h
    rw [hnone]
    rfl
  | r :: ranges, x :: a, b, h => by
    rw [List.cons_append, matched] at h ⊢
    rw [matched]
    split
    · rename_i hin
      rw [if_pos hin, List.length_cons] at h
      rw [matched_append b (by omega)]
    · rfl

/-- Where more than a prefix is matched, the prefix is, and followers after it. -/
theorem matched_across : ∀ {ranges : List (UInt8 × UInt8)} {a b : Bytes},
    (∀ r ∈ ranges, 0x80 ≤ r.1 ∧ r.2 ≤ 0xBF) → a.length < matched ranges (a ++ b) →
      matched ranges a = a.length ∧ ∀ x ∈ b.take (matched ranges (a ++ b) - a.length), isFollower x = true
  | [], _, _, _, h => by simp [matched] at h
  | r :: ranges, [], [], _, h => by simp [matched] at h
  | r :: ranges, [], x :: b, hranges, h => by
    have htail : ∀ r ∈ ranges, 0x80 ≤ r.1 ∧ r.2 ≤ 0xBF := fun r hr => hranges r (List.mem_cons_of_mem _ hr)
    obtain ⟨hlow, hhigh⟩ := hranges r List.mem_cons_self
    refine ⟨rfl, ?_⟩
    rw [List.nil_append, List.length_nil, Nat.sub_zero, matched]
    split
    · rename_i hin
      rw [List.take_succ_cons]
      refine List.forall_mem_cons.mpr ⟨?_, ?_⟩
      · rw [isFollower, Bool.and_eq_true, decide_eq_true_eq, decide_eq_true_eq]
        exact ⟨UInt8.le_trans hlow hin.1, UInt8.le_trans hin.2 hhigh⟩
      · rcases Nat.eq_zero_or_pos (matched ranges b) with hzero | hpos
        · rw [hzero]
          exact fun x hx => by cases hx
        · exact (matched_across (a := []) htail hpos).2
    · exact fun x hx => by cases hx
  | r :: ranges, x :: a, b, hranges, h => by
    have htail : ∀ r ∈ ranges, 0x80 ≤ r.1 ∧ r.2 ≤ 0xBF := fun r hr => hranges r (List.mem_cons_of_mem _ hr)
    rw [List.cons_append, matched] at h ⊢
    rw [matched]
    split
    · rename_i hin
      rw [if_pos hin, List.length_cons] at h
      obtain ⟨hall, hfollow⟩ := matched_across htail (by omega : a.length < matched ranges (a ++ b))
      refine ⟨by rw [hall, List.length_cons], ?_⟩
      rwa [List.length_cons, Nat.add_sub_add_right]
    · rename_i hin
      rw [if_neg hin] at h
      cases h

theorem charAfter_le (first : UInt8) (rest : Bytes) :
    (charAfter first rest).1 ≤ 3 ∧ (charAfter first rest).1 ≤ rest.length := by
  unfold charAfter
  split
  · exact ⟨Nat.zero_le _, Nat.zero_le _⟩
  · rename_i ranges hranges
    obtain ⟨hshort, -⟩ := followers_ranges hranges
    obtain ⟨hle, hbytes⟩ := matched_le ranges rest
    exact ⟨Nat.le_trans hle hshort, hbytes⟩

/-- An ASCII character is one byte. -/
theorem charAfter_ascii {c : UInt8} (hc : c < 0x80) (rest : Bytes) : charAfter c rest = (0, true) := by
  have hone : followers c = some [] := if_pos hc
  rw [charAfter, hone]
  rfl

theorem charAfter_of_isFollower {b : UInt8} (h : isFollower b = true) (rest : Bytes) :
    charAfter b rest = (0, false) := by
  rw [charAfter, followers_of_isFollower h]

/-- A first byte and what belongs to it within a prefix are the same in the prefix. -/
theorem charAfter_append {first : UInt8} {a : Bytes} (b : Bytes)
    (h : (charAfter first (a ++ b)).1 ≤ a.length) : charAfter first a = charAfter first (a ++ b) := by
  unfold charAfter at h ⊢
  split
  · rfl
  · rename_i ranges hranges
    rw [hranges] at h
    rw [matched_append b h]

/-- Where more belongs to a first byte than a prefix holds, the prefix is a
character cut off, and followers come after it. -/
theorem charAfter_across {first : UInt8} {a b : Bytes} (h : a.length < (charAfter first (a ++ b)).1) :
    charAfter first a = (a.length, false) ∧
      ∀ x ∈ b.take ((charAfter first (a ++ b)).1 - a.length), isFollower x = true := by
  unfold charAfter at h ⊢
  split
  · rename_i hnone
    rw [hnone] at h
    cases h
  · rename_i ranges hranges
    rw [hranges] at h
    obtain ⟨hall, hfollow⟩ := matched_across (followers_ranges hranges).2 h
    have hshort : matched ranges a ≠ ranges.length := by
      have hle := (matched_le ranges (a ++ b)).1
      have hlt : a.length < matched ranges (a ++ b) := h
      omega
    exact ⟨by rw [hall] at hshort ⊢; simp [hshort], hfollow⟩

/-! ### The lossy text -/

theorem utf8LossyUpTo_fuel : ∀ {fuel fuel' : ℕ} {bytes : Bytes}, bytes.length ≤ fuel → bytes.length ≤ fuel' →
    utf8LossyUpTo fuel bytes = utf8LossyUpTo fuel' bytes
  | 0, fuel', bytes, h, _ | fuel', 0, bytes, _, h => by
    obtain rfl : bytes = [] := List.eq_nil_of_length_eq_zero (by omega)
    cases fuel' <;> rfl
  | fuel + 1, fuel' + 1, [], _, _ => rfl
  | fuel + 1, fuel' + 1, first :: rest, h, h' => by
    rw [List.length_cons] at h h'
    have hrest : ∀ k, rest.length ≤ k → (rest.drop (charAfter first rest).1).length ≤ k := fun k hk => by
      rw [List.length_drop]
      omega
    have hshort := hrest fuel (Nat.le_of_succ_le_succ h)
    have hshort' := hrest fuel' (Nat.le_of_succ_le_succ h')
    rw [utf8LossyUpTo, utf8LossyUpTo, utf8LossyUpTo_fuel hshort hshort']

@[simp] theorem utf8Lossy_nil : utf8Lossy [] = [] := rfl

/-- What is put for a first byte and what belongs to it. -/
def lossyChar (first : UInt8) (rest : Bytes) : Bytes :=
  if (charAfter first rest).2 then first :: rest.take (charAfter first rest).1 else replacement

theorem utf8Lossy_cons (first : UInt8) (rest : Bytes) :
    utf8Lossy (first :: rest) = lossyChar first rest ++ utf8Lossy (rest.drop (charAfter first rest).1) := by
  have hfuel : utf8LossyUpTo rest.length (rest.drop (charAfter first rest).1) =
      utf8Lossy (rest.drop (charAfter first rest).1) :=
    utf8LossyUpTo_fuel (by rw [List.length_drop]; omega) (Nat.le_refl _)
  rw [utf8Lossy, List.length_cons, utf8LossyUpTo, hfuel]
  rfl

theorem lossyChar_length_le (first : UInt8) (rest : Bytes) : (lossyChar first rest).length ≤ 4 := by
  obtain ⟨hle, -⟩ := charAfter_le first rest
  unfold lossyChar
  split
  · rw [List.length_cons, List.length_take]
    omega
  · decide

/-- The bytes of the lossy text are those of the bytes, and of U+FFFD. -/
theorem mem_utf8LossyUpTo {c : UInt8} : ∀ {fuel : ℕ} {bytes : Bytes}, c ∈ utf8LossyUpTo fuel bytes →
    c ∈ bytes ∨ c ∈ replacement
  | 0, _, h => nomatch h
  | _ + 1, [], h => nomatch h
  | fuel + 1, first :: rest, h => by
    rw [utf8LossyUpTo] at h
    rcases List.mem_append.mp h with hchar | hrest
    · split at hchar
      · rcases List.mem_cons.mp hchar with rfl | htake
        · exact Or.inl List.mem_cons_self
        · exact Or.inl (List.mem_cons_of_mem first (List.mem_of_mem_take htake))
      · exact Or.inr hchar
    · rcases mem_utf8LossyUpTo hrest with hdrop | hrepl
      · exact Or.inl (List.mem_cons_of_mem first (List.mem_of_mem_drop hdrop))
      · exact Or.inr hrepl

/-- A byte that U+FFFD does not have comes from the bytes. -/
theorem mem_of_mem_utf8Lossy {c : UInt8} {bytes : Bytes} (hc : c ∉ replacement) (h : c ∈ utf8Lossy bytes) : c ∈ bytes :=
  (mem_utf8LossyUpTo h).resolve_right hc

/-- Where no U+FFFD is put, the bytes are read as they are. -/
theorem utf8LossyUpTo_eq_self : ∀ {fuel : ℕ} {bytes : Bytes}, bytes.length ≤ fuel →
    0xEF ∉ utf8LossyUpTo fuel bytes → utf8LossyUpTo fuel bytes = bytes
  | 0, bytes, hlen, _ => by
    obtain rfl : bytes = [] := List.eq_nil_of_length_eq_zero (by omega)
    rfl
  | _ + 1, [], _, _ => rfl
  | fuel + 1, first :: rest, hlen, h => by
    rw [List.length_cons] at hlen
    rw [utf8LossyUpTo, List.mem_append, not_or] at h
    obtain ⟨hchar, hrest⟩ := h
    have hwhole : (charAfter first rest).2 = true := by
      by_contra hno
      rw [if_neg hno] at hchar
      exact hchar List.mem_cons_self
    have ih := utf8LossyUpTo_eq_self (by rw [List.length_drop]; omega) hrest
    rw [utf8LossyUpTo, if_pos hwhole, ih, List.cons_append, List.take_append_drop]

theorem utf8Lossy_eq_self {bytes : Bytes} (h : 0xEF ∉ utf8Lossy bytes) : utf8Lossy bytes = bytes :=
  utf8LossyUpTo_eq_self (Nat.le_refl _) h

theorem utf8Lossy_ne_nil {bytes : Bytes} (h : bytes ≠ []) : utf8Lossy bytes ≠ [] := by
  obtain ⟨first, rest, rfl⟩ := List.exists_cons_of_ne_nil h
  rw [utf8Lossy_cons, lossyChar]
  split
  · exact List.cons_ne_nil _ _
  · exact List.cons_ne_nil _ _

/-- Each follower with no first byte before it is put as U+FFFD. -/
theorem utf8Lossy_length_of_followers : ∀ {n : ℕ} {b : Bytes}, n ≤ b.length →
    (∀ x ∈ b.take n, isFollower x = true) → (utf8Lossy b).length = 3 * n + (utf8Lossy (b.drop n)).length
  | 0, b, _, _ => by simp
  | n + 1, x :: b, hn, h => by
    rw [List.take_succ_cons] at h
    obtain ⟨hx, hb⟩ := List.forall_mem_cons.mp h
    have hchar := charAfter_of_isFollower hx b
    have hone : lossyChar x b = replacement := by rw [lossyChar, hchar]; rfl
    have ih := utf8Lossy_length_of_followers (by rw [List.length_cons] at hn; omega) hb
    rw [utf8Lossy_cons, hone, hchar, List.drop_zero, List.length_append, ih, List.drop_succ_cons]
    show 3 + _ = _
    omega

/-! ### Boundaries -/

/-- `fuel` counts bytes. -/
def isBoundaryUpTo : ℕ → ℕ → Bytes → Bool
  | _, 0, _ => true
  | fuel + 1, n + 1, first :: rest =>
    (charAfter first rest).1 ≤ n &&
      isBoundaryUpTo fuel (n - (charAfter first rest).1) (rest.drop (charAfter first rest).1)
  | _, _, _ => false

/-- A character, or a prefix of one that goes wrong, ends at byte `n`, or `n` is the start. -/
def isBoundary (n : ℕ) (bytes : Bytes) : Bool := isBoundaryUpTo bytes.length n bytes

theorem isBoundaryUpTo_fuel : ∀ {fuel fuel' n : ℕ} {bytes : Bytes}, bytes.length ≤ fuel → bytes.length ≤ fuel' →
    isBoundaryUpTo fuel n bytes = isBoundaryUpTo fuel' n bytes
  | fuel, fuel', 0, bytes, _, _ => by simp [isBoundaryUpTo]
  | fuel, fuel', n + 1, [], _, _ => by simp [isBoundaryUpTo]
  | fuel + 1, fuel' + 1, n + 1, first :: rest, h, h' => by
    rw [List.length_cons] at h h'
    have hrest : ∀ k, rest.length ≤ k → (rest.drop (charAfter first rest).1).length ≤ k := fun k hk => by
      rw [List.length_drop]
      omega
    have hshort := hrest fuel (Nat.le_of_succ_le_succ h)
    have hshort' := hrest fuel' (Nat.le_of_succ_le_succ h')
    rw [isBoundaryUpTo, isBoundaryUpTo, isBoundaryUpTo_fuel hshort hshort']

@[simp] theorem isBoundary_zero (bytes : Bytes) : isBoundary 0 bytes = true := by
  rw [isBoundary, isBoundaryUpTo]

theorem isBoundary_cons (n : ℕ) (first : UInt8) (rest : Bytes) :
    isBoundary (n + 1) (first :: rest) = true ↔ (charAfter first rest).1 ≤ n ∧
      isBoundary (n - (charAfter first rest).1) (rest.drop (charAfter first rest).1) = true := by
  have hfuel : isBoundaryUpTo rest.length (n - (charAfter first rest).1) (rest.drop (charAfter first rest).1) =
      isBoundary (n - (charAfter first rest).1) (rest.drop (charAfter first rest).1) :=
    isBoundaryUpTo_fuel (by rw [List.length_drop]; omega) (Nat.le_refl _)
  rw [isBoundary, List.length_cons, isBoundaryUpTo, hfuel, Bool.and_eq_true, decide_eq_true_eq]

/-- A text cut at a boundary is put as its two parts are. Cut anywhere else, the
parts are put as more. -/
theorem utf8Lossy_append (a b : Bytes) :
    if isBoundary a.length (a ++ b) then utf8Lossy (a ++ b) = utf8Lossy a ++ utf8Lossy b
    else (utf8Lossy (a ++ b)).length < (utf8Lossy a).length + (utf8Lossy b).length := by
  match a with
  | [] => rw [List.length_nil, isBoundary_zero, if_pos rfl, List.nil_append, utf8Lossy_nil, List.nil_append]
  | first :: a =>
    rcases Nat.lt_or_ge a.length (charAfter first (a ++ b)).1 with hlt | hle
    · -- the character goes across the cut
      have hnot : ¬ isBoundary (first :: a).length (first :: a ++ b) = true := fun h => by
        have hle : (charAfter first (a ++ b)).1 ≤ a.length := ((isBoundary_cons _ _ _).mp h).1
        omega
      obtain ⟨hcut, hfollow⟩ := charAfter_across hlt
      rw [if_neg hnot]
      set m := (charAfter first (a ++ b)).1 with hm
      have hmle : m ≤ (a ++ b).length := (charAfter_le first (a ++ b)).2
      have hkle : m - a.length ≤ b.length := by rw [List.length_append] at hmle; omega
      have hdrop : (a ++ b).drop m = b.drop (m - a.length) := by
        rw [List.drop_append, List.drop_of_length_le (by omega), List.nil_append]
      have hfirst : utf8Lossy (first :: a) = replacement := by
        rw [utf8Lossy_cons, lossyChar, hcut, List.drop_length, utf8Lossy_nil, List.append_nil]
        rfl
      have hb := utf8Lossy_length_of_followers hkle hfollow
      have hwhole := lossyChar_length_le first (a ++ b)
      rw [hfirst, List.cons_append, utf8Lossy_cons, ← hm, hdrop, List.length_append, hb]
      show _ < 3 + _
      omega
    · -- the character is in the first part
      have hsame := charAfter_append b hle
      set m := (charAfter first (a ++ b)).1 with hm
      have hmchar : (charAfter first a).1 = m := by rw [hsame]
      have hdrop : (a ++ b).drop m = a.drop m ++ b := by
        rw [List.drop_append_of_le_length hle]
      have hchar : lossyChar first (a ++ b) = lossyChar first a := by
        rw [lossyChar, lossyChar, hsame, List.take_append_of_le_length hle]
      have hboundary : isBoundary (first :: a).length (first :: a ++ b) =
          isBoundary (a.drop m).length (a.drop m ++ b) := by
        rw [Bool.eq_iff_iff, List.cons_append, List.length_cons, isBoundary_cons, ← hm, hdrop, List.length_drop]
        exact and_iff_right hle
      have ih := utf8Lossy_append (a.drop m) b
      rw [hboundary, List.cons_append, utf8Lossy_cons first (a ++ b), utf8Lossy_cons first a, hmchar, hchar, ← hm,
        hdrop]
      split at ih
      · rename_i htrue
        rw [if_pos htrue, ih, List.append_assoc]
      · rename_i hfalse
        rw [if_neg hfalse, List.length_append, List.length_append]
        omega
termination_by a.length
decreasing_by
  rw [List.length_drop, List.length_cons]
  omega

/-- Boundaries behind a boundary. -/
theorem isBoundary_add {a : Bytes} (b : Bytes) (h : isBoundary a.length (a ++ b) = true) (k : ℕ) :
    isBoundary (a.length + k) (a ++ b) = isBoundary k b := by
  match a with
  | [] => rw [List.length_nil, Nat.zero_add, List.nil_append]
  | first :: a =>
    rw [List.cons_append, List.length_cons, isBoundary_cons] at h
    obtain ⟨hle, hrest⟩ := h
    set m := (charAfter first (a ++ b)).1 with hm
    have hdrop : (a ++ b).drop m = a.drop m ++ b := by rw [List.drop_append_of_le_length hle]
    rw [hdrop, ← List.length_drop] at hrest
    have ih := isBoundary_add b hrest k
    have hlen : (a.drop m).length + k = a.length + k - m := by rw [List.length_drop]; omega
    rw [← ih, List.length_cons, Nat.add_right_comm, List.cons_append, Bool.eq_iff_iff, isBoundary_cons, ← hm, hdrop,
      hlen]
    exact and_iff_right (by omega)
termination_by a.length
decreasing_by
  rw [List.length_drop, List.length_cons]
  omega

/-! ### A text in chunks -/

/-- Every cut between two chunks is at a boundary of the whole. -/
def CutAtBoundaries (chunks : List Bytes) : Prop :=
  ∀ n, isBoundary (chunks.take n).flatten.length chunks.flatten = true

theorem cutAtBoundaries_cons {chunk : Bytes} {chunks : List Bytes} : CutAtBoundaries (chunk :: chunks) ↔
    isBoundary chunk.length (chunk ++ chunks.flatten) = true ∧ CutAtBoundaries chunks := by
  have hlen : ∀ n, ((chunk :: chunks).take (n + 1)).flatten.length = chunk.length + (chunks.take n).flatten.length :=
    fun n => by rw [List.take_succ_cons, List.flatten_cons, List.length_append]
  constructor
  · intro h
    have hone : isBoundary chunk.length (chunk ++ chunks.flatten) = true := by simpa using h 1
    refine ⟨hone, fun n => ?_⟩
    rw [← isBoundary_add _ hone, ← hlen]
    exact h (n + 1)
  · rintro ⟨hone, hrest⟩ n
    cases n with
    | zero => exact isBoundary_zero _
    | succ n => rw [hlen, List.flatten_cons, isBoundary_add _ hone, hrest n]

theorem utf8Lossy_append_length_le (a b : Bytes) :
    (utf8Lossy (a ++ b)).length ≤ (utf8Lossy a).length + (utf8Lossy b).length := by
  have h := utf8Lossy_append a b
  split at h
  · exact Nat.le_of_eq (by rw [h, List.length_append])
  · omega

theorem utf8Lossy_flatten_length_le : ∀ chunks : List Bytes,
    (utf8Lossy chunks.flatten).length ≤ (chunks.flatMap utf8Lossy).length
  | [] => Nat.le_refl _
  | chunk :: chunks => by
    have ih := utf8Lossy_flatten_length_le chunks
    have hle := utf8Lossy_append_length_le chunk chunks.flatten
    rw [List.flatten_cons, List.flatMap_cons, List.length_append]
    omega

/-- The chunks of a text are put as the text is exactly when they are cut at boundaries. -/
theorem flatMap_utf8Lossy_iff : ∀ chunks : List Bytes,
    chunks.flatMap utf8Lossy = utf8Lossy chunks.flatten ↔ CutAtBoundaries chunks
  | [] => iff_of_true rfl fun n => by rw [List.take_nil]; rfl
  | chunk :: chunks => by
    have ih := flatMap_utf8Lossy_iff chunks
    have hsplit := utf8Lossy_append chunk chunks.flatten
    rw [List.flatMap_cons, List.flatten_cons, cutAtBoundaries_cons, ← ih]
    split at hsplit
    · rename_i hboundary
      rw [hsplit, List.append_right_inj]
      exact (and_iff_right hboundary).symm
    · rename_i hboundary
      refine iff_of_false (fun heq => ?_) fun h => hboundary h.1
      have hle := utf8Lossy_flatten_length_le chunks
      have hlen := congrArg List.length heq
      rw [List.length_append] at hlen
      omega

/-! ### A prefix of a text -/

theorem isUtf8UpTo_fuel : ∀ {fuel fuel' : ℕ} {bytes : Bytes}, bytes.length ≤ fuel → bytes.length ≤ fuel' →
    isUtf8UpTo fuel bytes = isUtf8UpTo fuel' bytes
  | fuel, fuel', [], _, _ => by cases fuel <;> cases fuel' <;> rfl
  | fuel + 1, fuel' + 1, first :: rest, h, h' => by
    rw [List.length_cons] at h h'
    have hrest : ∀ k, rest.length ≤ k → (rest.drop (charAfter first rest).1).length ≤ k := fun k hk => by
      rw [List.length_drop]
      omega
    have hshort := hrest fuel (Nat.le_of_succ_le_succ h)
    have hshort' := hrest fuel' (Nat.le_of_succ_le_succ h')
    rw [isUtf8UpTo, isUtf8UpTo, isUtf8UpTo_fuel hshort hshort']

theorem isUtf8_cons (first : UInt8) (rest : Bytes) :
    isUtf8 (first :: rest) = ((charAfter first rest).2 && isUtf8 (rest.drop (charAfter first rest).1)) := by
  have hfuel : isUtf8UpTo rest.length (rest.drop (charAfter first rest).1) =
      isUtf8 (rest.drop (charAfter first rest).1) :=
    isUtf8UpTo_fuel (by rw [List.length_drop]; omega) (Nat.le_refl _)
  rw [isUtf8, List.length_cons, isUtf8UpTo, hfuel]

theorem isUtf8_of_ascii : ∀ {bytes : Bytes}, (∀ b ∈ bytes, b < 0x80) → isUtf8 bytes = true
  | [], _ => rfl
  | b :: bytes, h => by
    obtain ⟨hb, hbytes⟩ := List.forall_mem_cons.mp h
    rw [isUtf8_cons, charAfter_ascii hb, List.drop_zero, isUtf8_of_ascii hbytes]
    rfl

/-- What follows a text is a text exactly when the two together are. -/
theorem isUtf8_append {a : Bytes} (h : isUtf8 a = true) (b : Bytes) : isUtf8 (a ++ b) = isUtf8 b := by
  match a with
  | [] => rfl
  | first :: rest =>
    rw [isUtf8_cons, Bool.and_eq_true] at h
    obtain ⟨hwhole, hrest⟩ := h
    have hwithin : (charAfter first (rest ++ b)).1 ≤ rest.length := by
      by_contra hlt
      rw [(charAfter_across (Nat.lt_of_not_le hlt)).1] at hwhole
      cases hwhole
    have hsame : charAfter first rest = charAfter first (rest ++ b) := charAfter_append b hwithin
    rw [List.cons_append, isUtf8_cons, ← hsame, hwhole, Bool.true_and,
      List.drop_append_of_le_length (charAfter_le first rest).2, isUtf8_append hrest]
termination_by a.length
decreasing_by
  rw [List.length_drop, List.length_cons]
  omega

/-- What is put for a first byte is a text. -/
theorem isUtf8_lossyChar (first : UInt8) (rest : Bytes) : isUtf8 (lossyChar first rest) = true := by
  unfold lossyChar
  split
  · rename_i hwhole
    set n := (charAfter first rest).1 with hn
    have htake : (rest.take n).length = n := by
      rw [List.length_take, Nat.min_eq_left (charAfter_le first rest).2]
    have hsame : charAfter first (rest.take n) = charAfter first rest := by
      have happend := @charAfter_append first (rest.take n) (rest.drop n)
      rw [List.take_append_drop] at happend
      exact happend (Nat.le_of_eq htake.symm)
    rw [isUtf8_cons, hsame, hwhole, Bool.true_and, ← hn, List.drop_of_length_le (Nat.le_of_eq htake)]
    rfl
  · rfl

/-- The lossy text is a text. -/
theorem isUtf8_utf8Lossy (bytes : Bytes) : isUtf8 (utf8Lossy bytes) = true := by
  match bytes with
  | [] => rfl
  | first :: rest =>
    rw [utf8Lossy_cons, isUtf8_append (isUtf8_lossyChar first rest), isUtf8_utf8Lossy]
termination_by bytes.length
decreasing_by
  rw [List.length_drop, List.length_cons]
  omega

/-- A text with an ASCII character in it is a text before it and one after it. -/
theorem isUtf8_ascii_between (a : Bytes) {c : UInt8} (hc : c < 0x80) (b : Bytes) :
    isUtf8 (a ++ c :: b) = (isUtf8 a && isUtf8 b) := by
  match a with
  | [] =>
    rw [List.nil_append, isUtf8_cons, charAfter_ascii hc, List.drop_zero]
    rfl
  | first :: rest =>
    have hwithin : (charAfter first (rest ++ c :: b)).1 ≤ rest.length := by
      by_contra hlt
      have hfollow := (charAfter_across (Nat.lt_of_not_le hlt)).2 c
      have hpos : (charAfter first (rest ++ c :: b)).1 - rest.length ≠ 0 := by omega
      obtain ⟨n, hn⟩ := Nat.exists_eq_succ_of_ne_zero hpos
      rw [hn, List.take_succ_cons] at hfollow
      have hhigh : isFollower c = true := hfollow List.mem_cons_self
      rw [isFollower, Bool.and_eq_true, decide_eq_true_eq] at hhigh
      exact absurd hc (UInt8.not_lt.mpr hhigh.1)
    have hsame : charAfter first rest = charAfter first (rest ++ c :: b) := charAfter_append _ hwithin
    rw [List.cons_append, isUtf8_cons, isUtf8_cons, ← hsame,
      List.drop_append_of_le_length (charAfter_le first rest).2, isUtf8_ascii_between _ hc, Bool.and_assoc]
termination_by a.length
decreasing_by
  rw [List.length_drop, List.length_cons]
  omega

/-- A prefix of a text is a text exactly when it ends at a boundary. -/
theorem isUtf8_take {bytes : Bytes} (h : isUtf8 bytes = true) {n : ℕ} (hn : n ≤ bytes.length) :
    isUtf8 (bytes.take n) = isBoundary n bytes := by
  match bytes, n with
  | bytes, 0 => rw [List.take_zero, isBoundary_zero]; rfl
  | first :: rest, n + 1 =>
    rw [List.length_cons, Nat.add_le_add_iff_right] at hn
    rw [isUtf8_cons, Bool.and_eq_true] at h
    obtain ⟨hwhole, hrest⟩ := h
    have hsplit : rest.take n ++ rest.drop n = rest := List.take_append_drop n rest
    have htake : (rest.take n).length = n := List.length_take_of_le hn
    rw [List.take_succ_cons, isUtf8_cons, Bool.eq_iff_iff, isBoundary_cons, Bool.and_eq_true]
    rcases Nat.lt_or_ge n (charAfter first rest).1 with hlt | hle
    · -- the first character is cut off
      have hcut : charAfter first (rest.take n) = (n, false) := by
        have hacross : (rest.take n).length < (charAfter first (rest.take n ++ rest.drop n)).1 := by
          rw [htake, hsplit]
          exact hlt
        rw [(charAfter_across hacross).1, htake]
      rw [hcut]
      exact iff_of_false (fun h => by cases h.1) fun h => by omega
    · have hsame : charAfter first (rest.take n) = charAfter first rest := by
        have hprefix : (charAfter first (rest.take n ++ rest.drop n)).1 ≤ (rest.take n).length := by
          rw [htake, hsplit]
          exact hle
        rw [charAfter_append _ hprefix, hsplit]
      have hshort : n - (charAfter first rest).1 ≤ (rest.drop (charAfter first rest).1).length := by
        rw [List.length_drop]
        omega
      rw [hsame, List.drop_take, isUtf8_take hrest hshort]
      exact ⟨fun h => ⟨hle, h.2⟩, fun h => ⟨hwhole, h.2⟩⟩
termination_by bytes.length
decreasing_by
  rw [List.length_drop, List.length_cons]
  omega

/-- A character of three bytes has no boundary in it. -/
example : (List.range 6).map (isBoundary · [0x61, 0xE2, 0x82, 0xAC, 0x62]) =
    [true, true, false, false, true, true] := by decide

end Rsdb
