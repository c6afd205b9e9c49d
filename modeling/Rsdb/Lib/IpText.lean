/-
# Addresses as texts

IP and socket addresses as `core::net` writes and parses them. An IPv6 address is
written in groups, with the longest run of zero groups as `::`, or, if an IPv4
address is mapped into it, with that at its end; a socket address has the port
behind a colon, and an IPv6 address in it stands in brackets, with its zone.

What is written is parsed to the same address (`parseIpAddr_print`,
`parseSocketAddr_print`), and no text is both (`parseSocketAddr_of_ipAddr`).
-/
import Rsdb.Lib.Numeral

namespace Rsdb

/-- The four bytes of an address. -/
structure Ipv4Addr where
  a : UInt8
  b : UInt8
  c : UInt8
  d : UInt8
  deriving DecidableEq

/-- Eight groups. -/
structure Ipv6Addr where
  groups : List UInt16
  length_eq : groups.length = 8
  deriving DecidableEq

/-- An address of either family. -/
inductive IpAddr where
  | v4 (ip : Ipv4Addr)
  | v6 (ip : Ipv6Addr)
  deriving DecidableEq

/-- The scope of an IPv6 address is its zone; parsing gives no flow information. -/
inductive SocketAddr where
  | v4 (ip : Ipv4Addr) (port : UInt16)
  | v6 (ip : Ipv6Addr) (port : UInt16) (scope : UInt32)
  deriving DecidableEq

namespace SocketAddr

/-- `SocketAddr::new`. -/
def new : IpAddr → UInt16 → SocketAddr
  | .v4 ip, port => .v4 ip port
  | .v6 ip, port => .v6 ip port 0

/-- The address without its port. -/
def ip : SocketAddr → IpAddr
  | .v4 ip _ => .v4 ip
  | .v6 ip _ _ => .v6 ip

/-- The port. -/
def port : SocketAddr → UInt16
  | .v4 _ port => port
  | .v6 _ port _ => port

/-- The zone, which an address of version 4 has not. -/
def scope : SocketAddr → UInt32
  | .v4 _ _ => 0
  | .v6 _ _ scope => scope

end SocketAddr

/-! ### Writing -/

/-- It stands between groups, and before a port. -/
def colon : UInt8 := 58

/-- It stands between the bytes of an address of version 4. -/
def point : UInt8 := 46

/-- It stands before a zone. -/
def percent : UInt8 := 37

/-- It stands before an address of version 6 that a port follows. -/
def openBracket : UInt8 := 91

/-- It stands behind that. -/
def closeBracket : UInt8 := 93

/-- The four bytes in decimal, with points between. -/
def Ipv4Addr.print (ip : Ipv4Addr) : List UInt8 :=
  numeral 10 ip.a.toNat ++ point :: numeral 10 ip.b.toNat ++ point :: numeral 10 ip.c.toNat ++
    point :: numeral 10 ip.d.toNat

/-- Groups behind others. -/
def printMore (groups : List UInt16) : List UInt8 := groups.flatMap fun g => colon :: numeral 16 g.toNat

/-- Groups with colons between. -/
def printGroups : List UInt16 → List UInt8
  | [] => []
  | g :: groups => numeral 16 g.toNat ++ printMore groups

/-- The first longest run of zero groups, as its start and its length: of the
groups from `i` on, with the longest so far and the one that ends here. -/
def longestZeros (i : ℕ) (longest current : ℕ × ℕ) : List UInt16 → ℕ × ℕ
  | [] => longest
  | g :: groups =>
    if g = 0 then
      let current := (if current.2 = 0 then i else current.1, current.2 + 1)
      longestZeros (i + 1) (if longest.2 < current.2 then current else longest) current groups
    else longestZeros (i + 1) longest (0, 0) groups

/-- The two groups of an IPv4 address. -/
def Ipv4Addr.groups (ip : Ipv4Addr) : List UInt16 :=
  [UInt16.ofNat (ip.a.toNat * 256 + ip.b.toNat), UInt16.ofNat (ip.c.toNat * 256 + ip.d.toNat)]

/-- `to_ipv4_mapped`. -/
def Ipv6Addr.toIpv4Mapped (ip : Ipv6Addr) : Option Ipv4Addr :=
  match ip.groups with
  | [0, 0, 0, 0, 0, 0xffff, x, y] =>
    some ⟨UInt8.ofNat (x.toNat / 256), UInt8.ofNat x.toNat, UInt8.ofNat (y.toNat / 256), UInt8.ofNat y.toNat⟩
  | _ => none

/-- The text of an address of version 6, shortened where groups are zero. -/
def Ipv6Addr.print (ip : Ipv6Addr) : List UInt8 :=
  match ip.toIpv4Mapped with
  | some ipv4 => colon :: colon :: numeral 16 0xffff ++ colon :: ipv4.print
  | none =>
    let zeroes := longestZeros 0 (0, 0) (0, 0) ip.groups
    if 1 < zeroes.2 then
      printGroups (ip.groups.take zeroes.1) ++ colon :: colon :: printGroups (ip.groups.drop (zeroes.1 + zeroes.2))
    else printGroups ip.groups

/-- The text of an address. -/
def IpAddr.print : IpAddr → List UInt8
  | v4 ip => ip.print
  | v6 ip => ip.print

/-- A port behind its colon. -/
def printPort (port : UInt16) : List UInt8 := colon :: numeral 10 port.toNat

/-- The text of an address with its port. -/
def SocketAddr.print : SocketAddr → List UInt8
  | v4 ip port => ip.print ++ printPort port
  | v6 ip port scope =>
    openBracket :: ip.print ++ (if scope = 0 then [] else percent :: numeral 10 scope.toNat) ++
      closeBracket :: printPort port

/-! ### Parsing -/

/-- One character, which has to be this one. -/
def readGivenChar (c : UInt8) : Reader Unit
  | [] => none
  | b :: s => if b = c then some ((), s) else none

/-- A separator before all but the first. -/
def readSeparator {α : Type} (sep : UInt8) (first : Bool) (inner : Reader α) : Reader α := fun s =>
  if first then inner s else do
    let ((), s) ← readGivenChar sep s
    inner s

/-- A byte in decimal, with no zero before it. -/
def readOctet : Reader UInt8 := fun s => (readNumber 10 256 (some 3) false s).map fun r => (UInt8.ofNat r.1, r.2)

/-- Four bytes with points between. -/
def readIpv4Addr : Reader Ipv4Addr := fun s => do
  let (a, s) ← readOctet s
  let (b, s) ← readSeparator point false readOctet s
  let (c, s) ← readSeparator point false readOctet s
  let (d, s) ← readSeparator point false readOctet s
  some (⟨a, b, c, d⟩, s)

/-- A group in hexadecimal. -/
def readGroup : Reader UInt16 := fun s => (readNumber 16 65536 (some 4) true s).map fun r => (UInt16.ofNat r.1, r.2)

/-- Up to so many groups, whether an IPv4 address ends them, and what is left. -/
def readGroups (first : Bool) : ℕ → List UInt8 → List UInt16 × Bool × List UInt8
  | 0, s => ([], false, s)
  | n + 1, s =>
    match if n = 0 then none else readSeparator colon first readIpv4Addr s with
    | some (ipv4, rest) => (ipv4.groups, true, rest)
    | none =>
      match readSeparator colon first readGroup s with
      | some (g, rest) => (g :: (readGroups false n rest).1, (readGroups false n rest).2)
      | none => ([], false, s)

/-- Eight groups are an address. -/
def Ipv6Addr.ofGroups (groups : List UInt16) : Option Ipv6Addr :=
  if h : groups.length = 8 then some ⟨groups, h⟩ else none

/-- Groups, and if there are fewer than eight, `::` and more groups behind it. -/
def readIpv6Addr : Reader Ipv6Addr := fun s =>
  match readGroups true 8 s with
  | (head, ipv4, rest) =>
    if head.length = 8 then (Ipv6Addr.ofGroups head).map fun ip => (ip, rest)
    else if ipv4 then none
    else do
      let ((), s) ← readGivenChar colon rest
      let ((), s) ← readGivenChar colon s
      match readGroups true (7 - head.length) s with
      | (tail, _, rest) =>
        (Ipv6Addr.ofGroups (head ++ List.replicate (8 - head.length - tail.length) 0 ++ tail)).map fun ip => (ip, rest)

/-- An address of either family. -/
def readIpAddr : Reader IpAddr := fun s =>
  match readIpv4Addr s with
  | some (ip, rest) => some (.v4 ip, rest)
  | none => (readIpv6Addr s).map fun r => (.v6 r.1, r.2)

/-- A port behind its colon. -/
def readPort : Reader UInt16 := fun s => do
  let ((), s) ← readGivenChar colon s
  let (port, s) ← readNumber 10 65536 none true s
  some (UInt16.ofNat port, s)

/-- No zone is zone 0. -/
def readScopeId (s : List UInt8) : UInt32 × List UInt8 :=
  match (readGivenChar percent s).bind fun r => readNumber 10 4294967296 none true r.2 with
  | some (scope, rest) => (UInt32.ofNat scope, rest)
  | none => (0, s)

/-- An address of version 4 with its port. -/
def readSocketAddrV4 : Reader SocketAddr := fun s => do
  let (ip, s) ← readIpv4Addr s
  let (port, s) ← readPort s
  some (.v4 ip port, s)

/-- An address of version 6 in brackets, perhaps with a zone, with its port. -/
def readSocketAddrV6 : Reader SocketAddr := fun s => do
  let ((), s) ← readGivenChar openBracket s
  let (ip, s) ← readIpv6Addr s
  let ((), s') ← readGivenChar closeBracket (readScopeId s).2
  let (port, s') ← readPort s'
  some (.v6 ip port (readScopeId s).1, s')

/-- An address with its port. -/
def readSocketAddr : Reader SocketAddr := fun s => (readSocketAddrV4 s).or (readSocketAddrV6 s)

/-- All of the text must be read. -/
def parseWith {α : Type} (inner : Reader α) (s : List UInt8) : Option α :=
  match inner s with
  | some (a, []) => some a
  | _ => none

/-- A text that is an address and nothing else. -/
def parseIpAddr : List UInt8 → Option IpAddr := parseWith readIpAddr

/-- A text that is an address with its port and nothing else. -/
def parseSocketAddr : List UInt8 → Option SocketAddr := parseWith readSocketAddr

/-! ### Numbers in addresses -/

theorem toDigit_ten_of_sixteen {b : UInt8} (h : toDigit 16 b = none) : toDigit 10 b = none := by
  unfold toDigit at h ⊢
  rw [Option.filter_eq_none_iff] at h ⊢
  intro v hv
  have hno := h v hv
  rw [decide_eq_true_eq] at hno ⊢
  omega

theorem NoDigit.ten {s : List UInt8} (h : NoDigit 16 s) : NoDigit 10 s := fun b hb => toDigit_ten_of_sixteen (h b hb)

theorem noDigit_cons {radix : ℕ} {b : UInt8} (h : toDigit radix b = none) (s : List UInt8) : NoDigit radix (b :: s) := by
  intro c hc
  obtain rfl : b = c := by simpa using hc
  exact h

theorem readOctet_numeral (n : UInt8) {rest : List UInt8} (hrest : NoDigit 10 rest) :
    readOctet (numeral 10 n.toNat ++ rest) = some (n, rest) := by
  have hn := n.toNat_lt
  rw [readOctet, readNumber_numeral (by omega) (by omega) (by omega) (fun k hk => by cases hk; omega) false hrest]
  simp

theorem readGroup_numeral (g : UInt16) {rest : List UInt8} (hrest : NoDigit 16 rest) :
    readGroup (numeral 16 g.toNat ++ rest) = some (g, rest) := by
  have hg := g.toNat_lt
  rw [readGroup, readNumber_numeral (by omega) (by omega) (by omega) (fun k hk => by cases hk; omega) true hrest]
  simp

theorem readPort_print (port : UInt16) : readPort (printPort port) = some (port, []) := by
  have hport := port.toNat_lt
  have hnumber := @readNumber_numeral 10 port.toNat (by omega) (by omega) 65536 none (by omega) (fun k hk => nomatch hk)
    true [] (fun b hb => nomatch hb)
  rw [List.append_nil] at hnumber
  rw [readPort, printPort, readGivenChar, if_pos rfl]
  simp only [Option.bind_eq_bind, Option.bind_some, hnumber, UInt16.ofNat_toNat]

theorem readScopeId_zero {s : List UInt8} (h : s.head? ≠ some percent) : readScopeId s = (0, s) := by
  cases s with
  | nil => rfl
  | cons b s =>
    have hb : ¬ b = percent := fun heq => h (congrArg some heq)
    rw [readScopeId, readGivenChar, if_neg hb]
    rfl

theorem readScopeId_print (scope : UInt32) {rest : List UInt8} (hrest : NoDigit 10 rest) :
    readScopeId (percent :: numeral 10 scope.toNat ++ rest) = (scope, rest) := by
  have hscope := scope.toNat_lt
  have hnumber := @readNumber_numeral 10 scope.toNat (by omega) (by omega) 4294967296 none (by omega)
    (fun k hk => nomatch hk) true rest hrest
  rw [readScopeId, List.cons_append, readGivenChar, if_pos rfl, Option.bind_some, hnumber]
  simp

/-! ### IPv4 -/

theorem readIpv4Addr_print (ip : Ipv4Addr) {rest : List UInt8} (hrest : NoDigit 10 rest) :
    readIpv4Addr (ip.print ++ rest) = some (ip, rest) := by
  have hpoint : ∀ s : List UInt8, NoDigit 10 (point :: s) := noDigit_cons (by decide)
  have hmore : ∀ (n : UInt8) {s : List UInt8}, NoDigit 10 s →
      readSeparator point false readOctet (point :: (numeral 10 n.toNat ++ s)) = some (n, s) := by
    intro n s hs
    rw [readSeparator, if_neg Bool.false_ne_true, readGivenChar, if_pos rfl]
    exact readOctet_numeral n hs
  simp only [Ipv4Addr.print, List.append_assoc, List.cons_append, readIpv4Addr, Option.bind_eq_bind,
    readOctet_numeral ip.a (hpoint _), hmore ip.b (hpoint _), hmore ip.c (hpoint _), hmore ip.d hrest, Option.bind_some]

/-- An IPv4 address has a point behind its first digits. -/
theorem readIpv4Addr_eq_none {s : List UInt8} (h : (readDigits 10 s).2.head? ≠ some point) : readIpv4Addr s = none := by
  rw [readIpv4Addr]
  cases hoctet : readOctet s with
  | none => rfl
  | some r =>
    obtain ⟨n, rest⟩ := r
    have hrest : rest = (readDigits 10 s).2 := by
      rw [readOctet, Option.map_eq_some_iff] at hoctet
      obtain ⟨⟨m, rest'⟩, hnumber, heq⟩ := hoctet
      unfold readNumber at hnumber
      simp only at hnumber
      split_ifs at hnumber
      obtain ⟨-, rfl⟩ := Prod.mk.inj (Option.some.inj hnumber)
      exact (Prod.mk.inj heq).2.symm
    have hgiven : readGivenChar point rest = none := by
      rw [hrest]
      cases hleft : (readDigits 10 s).2 with
      | nil => rfl
      | cons b t =>
        rw [hleft] at h
        exact if_neg fun heq => h (congrArg some heq)
    simp only [Option.bind_eq_bind, Option.bind_some, readSeparator, Bool.false_eq_true, ↓reduceIte, hgiven,
      Option.bind_none]

/-- A text without a point is no IPv4 address. -/
theorem head?_readDigits_append {w rest : List UInt8} (hw : point ∉ w) (hrest : NoDigit 10 rest)
    (hpoint : rest.head? ≠ some point) : (readDigits 10 (w ++ rest)).2.head? ≠ some point := by
  induction w with
  | nil =>
    rw [List.nil_append, readDigits_of_noDigit hrest]
    exact hpoint
  | cons b w ih =>
    rw [List.cons_append, readDigits]
    split
    · exact fun h => hw (Option.some.inj h ▸ List.mem_cons_self)
    · exact ih fun hmem => hw (List.mem_cons_of_mem b hmem)

theorem readIpv4Addr_group (g : UInt16) {rest : List UInt8} (hrest : NoDigit 10 rest) (hpoint : rest.head? ≠ some point) :
    readIpv4Addr (numeral 16 g.toNat ++ rest) = none := by
  refine readIpv4Addr_eq_none (head?_readDigits_append (fun hmem => ?_) hrest hpoint)
  have hdigit := @mem_numeral 16 g.toNat (by omega) (by omega) point hmem
  revert hdigit
  decide

/-! ### IPv6 -/

/-- What can stand behind groups: nothing that goes on with them. -/
structure Stops (rest : List UInt8) : Prop where
  noDigit : NoDigit 16 rest
  noPoint : rest.head? ≠ some point
  behindColon : ∀ rest', rest = colon :: rest' → NoDigit 16 rest' ∧ rest'.head? ≠ some point

/-- Nothing is read of what stops. -/
theorem Stops.readSeparator_eq_none {rest : List UInt8} (h : Stops rest) (first : Bool) :
    readSeparator colon first readIpv4Addr rest = none ∧ readSeparator colon first readGroup rest = none := by
  have hnone : ∀ {s : List UInt8}, NoDigit 16 s → s.head? ≠ some point → readIpv4Addr s = none ∧ readGroup s = none := by
    intro s hs hpoint
    refine ⟨readIpv4Addr_eq_none ?_, ?_⟩
    · rw [readDigits_of_noDigit hs.ten]
      exact hpoint
    · rw [readGroup, readNumber, readDigits_of_noDigit hs]
      rfl
  cases first with
  | true => exact hnone h.noDigit h.noPoint
  | false =>
    cases rest with
    | nil => exact ⟨rfl, rfl⟩
    | cons b rest =>
      by_cases hb : b = colon
      · subst hb
        obtain ⟨hdigit, hpoint⟩ := h.behindColon rest rfl
        simp only [readSeparator, Bool.false_eq_true, ↓reduceIte, readGivenChar, Option.bind_eq_bind, Option.bind_some]
        exact hnone hdigit hpoint
      · simp [readSeparator, readGivenChar, hb]

theorem readGroups_of_stops {rest : List UInt8} (h : Stops rest) (first : Bool) (n : ℕ) :
    readGroups first n rest = ([], false, rest) := by
  cases n with
  | zero => rfl
  | succ n =>
    obtain ⟨hipv4, hgroup⟩ := h.readSeparator_eq_none first
    rw [readGroups, hipv4, ite_self, hgroup]

/-- Groups behind groups. -/
theorem readGroups_printMore {rest : List UInt8} (hrest : Stops rest) : ∀ {groups : List UInt16} {n : ℕ},
    groups.length ≤ n → readGroups false n (printMore groups ++ rest) = (groups, false, rest)
  | [], n, _ => readGroups_of_stops hrest false n
  | g :: groups, 0, h => nomatch h
  | g :: groups, n + 1, h => by
    have ih := readGroups_printMore hrest (Nat.le_of_succ_le_succ h)
    have hnext : NoDigit 16 (printMore groups ++ rest) ∧ (printMore groups ++ rest).head? ≠ some point := by
      cases groups with
      | nil => exact ⟨hrest.noDigit, hrest.noPoint⟩
      | cons g' groups => exact ⟨noDigit_cons (by decide) _, show some colon ≠ some point by decide⟩
    have htext : printMore (g :: groups) ++ rest = colon :: (numeral 16 g.toNat ++ (printMore groups ++ rest)) := by
      simp [printMore]
    have hipv4 : readSeparator colon false readIpv4Addr (colon :: (numeral 16 g.toNat ++ (printMore groups ++ rest))) = none := by
      rw [readSeparator, if_neg Bool.false_ne_true, readGivenChar, if_pos rfl]
      exact readIpv4Addr_group g hnext.1.ten hnext.2
    have hgroup : readSeparator colon false readGroup (colon :: (numeral 16 g.toNat ++ (printMore groups ++ rest))) =
        some (g, printMore groups ++ rest) := by
      rw [readSeparator, if_neg Bool.false_ne_true, readGivenChar, if_pos rfl]
      exact readGroup_numeral g hnext.1
    rw [htext, readGroups, hipv4, ite_self, hgroup]
    simp only [ih]

theorem readGroups_print {rest : List UInt8} (hrest : Stops rest) {groups : List UInt16} {n : ℕ} (h : groups.length ≤ n) :
    readGroups true n (printGroups groups ++ rest) = (groups, false, rest) := by
  cases groups with
  | nil => exact readGroups_of_stops hrest true n
  | cons g groups =>
    cases n with
    | zero => cases h
    | succ n =>
      have hmore := readGroups_printMore hrest (Nat.le_of_succ_le_succ h)
      have hnext : NoDigit 16 (printMore groups ++ rest) ∧ (printMore groups ++ rest).head? ≠ some point := by
        cases groups with
        | nil => exact ⟨hrest.noDigit, hrest.noPoint⟩
        | cons g' groups => exact ⟨noDigit_cons (by decide) _, show some colon ≠ some point by decide⟩
      have hipv4 : readSeparator colon true readIpv4Addr (numeral 16 g.toNat ++ (printMore groups ++ rest)) = none :=
        readIpv4Addr_group g hnext.1.ten hnext.2
      have hgroup : readSeparator colon true readGroup (numeral 16 g.toNat ++ (printMore groups ++ rest)) =
          some (g, printMore groups ++ rest) := readGroup_numeral g hnext.1
      rw [printGroups, List.append_assoc, readGroups, hipv4, ite_self, hgroup]
      simp only [hmore]

theorem Ipv6Addr.ofGroups_groups (ip : Ipv6Addr) : ofGroups ip.groups = some ip := dif_pos ip.length_eq

/-- A run of zeros. -/
def ZeroRun (groups : List UInt16) (run : ℕ × ℕ) : Prop :=
  ∃ before behind, groups = before ++ List.replicate run.2 0 ++ behind ∧ before.length = run.1

/-- What is found is a run of zeros: so is the longest so far, and the current
one ends where the search is. -/
theorem longestZeros_run : ∀ {groups done : List UInt16} {longest current : ℕ × ℕ}, ZeroRun (done ++ groups) longest →
    (current.2 = 0 ∨ ∃ before, done = before ++ List.replicate current.2 0 ∧ before.length = current.1) →
    ZeroRun (done ++ groups) (longestZeros done.length longest current groups)
  | [], _, _, _, hlongest, _ => hlongest
  | g :: groups, done, longest, current, hlongest, hcurrent => by
    have hassoc : done ++ g :: groups = (done ++ [g]) ++ groups := by simp
    have hlen : done.length + 1 = (done ++ [g]).length := by simp
    rw [longestZeros]
    by_cases hg : g = 0
    · subst hg
      rw [if_pos rfl, hlen, hassoc]
      obtain ⟨before, hdone, hbefore⟩ : ∃ before, done = before ++ List.replicate current.2 0 ∧
          before.length = if current.2 = 0 then done.length else current.1 := by
        rcases hcurrent with hzero | ⟨before, hdone, hbefore⟩
        · exact ⟨done, by simp [hzero], by rw [if_pos hzero]⟩
        · refine ⟨before, hdone, ?_⟩
          split
          · rename_i hzero
            rw [hdone, hzero]
            simp
          · exact hbefore
      have hgrown : done ++ [0] = before ++ List.replicate (current.2 + 1) 0 := by
        rw [List.replicate_succ', ← List.append_assoc, ← hdone]
      refine longestZeros_run ?_ (Or.inr ⟨before, hgrown, hbefore⟩)
      by_cases hlonger : longest.2 < current.2 + 1
      · rw [if_pos hlonger]
        exact ⟨before, groups, by rw [hgrown], hbefore⟩
      · rw [if_neg hlonger, ← hassoc]
        exact hlongest
    · rw [if_neg hg, hlen, hassoc]
      refine longestZeros_run ?_ (Or.inl rfl)
      rw [← hassoc]
      exact hlongest

theorem stops_colon_colon {s : List UInt8} : Stops (colon :: colon :: s) where
  noDigit := noDigit_cons (by decide) _
  noPoint := show some colon ≠ some point by decide
  behindColon rest' h := by
    obtain rfl := (List.cons.inj h).2
    exact ⟨noDigit_cons (by decide) _, show some colon ≠ some point by decide⟩

/-- Groups, `::` and what is read behind it. -/
theorem readIpv6Addr_compressed {ip : Ipv6Addr} {head tail : List UInt16} {s rest : List UInt8} {ipv4 : Bool}
    (hhead : head.length < 8) (htail : readGroups true (7 - head.length) s = (tail, ipv4, rest))
    (hgroups : head ++ List.replicate (8 - head.length - tail.length) 0 ++ tail = ip.groups) :
    readIpv6Addr (printGroups head ++ colon :: colon :: s) = some (ip, rest) := by
  rw [readIpv6Addr, readGroups_print stops_colon_colon (by omega)]
  simp only [Nat.ne_of_lt hhead, ↓reduceIte, Bool.false_eq_true, readGivenChar, Option.bind_eq_bind, Option.bind_some,
    htail, hgroups, ip.ofGroups_groups, Option.map_some]

theorem groups_of_toIpv4Mapped {ip : Ipv6Addr} {ipv4 : Ipv4Addr} (h : ip.toIpv4Mapped = some ipv4) :
    ip.groups = [0, 0, 0, 0, 0, 0xffff] ++ ipv4.groups := by
  unfold Ipv6Addr.toIpv4Mapped at h
  split at h
  · rename_i x y hgroups
    obtain rfl := Option.some.inj h
    have hjoin : ∀ x : UInt16, UInt16.ofNat ((UInt8.ofNat (x.toNat / 256)).toNat * 256 + (UInt8.ofNat x.toNat).toNat) = x := by
      intro x
      have hx := x.toNat_lt
      have hparts : (UInt8.ofNat (x.toNat / 256)).toNat * 256 + (UInt8.ofNat x.toNat).toNat = x.toNat := by
        rw [UInt8.toNat_ofNat', UInt8.toNat_ofNat']
        omega
      rw [hparts, UInt16.ofNat_toNat]
    rw [hgroups, Ipv4Addr.groups, hjoin x, hjoin y]
    rfl
  · cases h

/-- **An IPv6 address is read again.** -/
theorem readIpv6Addr_print (ip : Ipv6Addr) {rest : List UInt8} (hrest : Stops rest) :
    readIpv6Addr (ip.print ++ rest) = some (ip, rest) := by
  have hlen := ip.length_eq
  cases hmapped : ip.toIpv4Mapped with
  | some ipv4 =>
    have hgroups := groups_of_toIpv4Mapped hmapped
    have htext : ip.print ++ rest = printGroups [] ++ colon :: colon ::
        (numeral 16 (0xffff : UInt16).toNat ++ colon :: (ipv4.print ++ rest)) := by
      simp only [Ipv6Addr.print, hmapped, printGroups, List.nil_append, List.cons_append, List.append_assoc]
      rfl
    have hfirst : readSeparator colon true readIpv4Addr
        (numeral 16 (0xffff : UInt16).toNat ++ colon :: (ipv4.print ++ rest)) = none :=
      readIpv4Addr_group 0xffff (noDigit_cons (by decide) _) (show some colon ≠ some point by decide)
    have hgroup : readSeparator colon true readGroup
        (numeral 16 (0xffff : UInt16).toNat ++ colon :: (ipv4.print ++ rest)) =
          some (0xffff, colon :: (ipv4.print ++ rest)) := by
      rw [readSeparator, if_pos rfl]
      exact readGroup_numeral 0xffff (noDigit_cons (by decide) _)
    have hipv4 : readSeparator colon false readIpv4Addr (colon :: (ipv4.print ++ rest)) = some (ipv4, rest) := by
      rw [readSeparator, if_neg Bool.false_ne_true, readGivenChar, if_pos rfl]
      exact readIpv4Addr_print ipv4 hrest.noDigit.ten
    have htail : readGroups true 7 (numeral 16 (0xffff : UInt16).toNat ++ colon :: (ipv4.print ++ rest)) =
        (0xffff :: ipv4.groups, true, rest) := by
      rw [readGroups, hfirst, ite_self, hgroup]
      simp only [readGroups, hipv4, Nat.reduceEqDiff, ↓reduceIte]
    rw [htext]
    refine readIpv6Addr_compressed (by decide) htail ?_
    rw [hgroups]
    rfl
  | none =>
    obtain ⟨before, behind, hgroups, hbefore⟩ := @longestZeros_run ip.groups [] (0, 0) (0, 0) ⟨[], ip.groups, rfl, rfl⟩
      (Or.inl rfl)
    simp only [List.nil_append, List.length_nil] at hgroups hbefore
    set zeroes := longestZeros 0 (0, 0) (0, 0) ip.groups with hzeroes
    have hsum : before.length + zeroes.2 + behind.length = 8 := by
      rw [hgroups, List.length_append, List.length_append, List.length_replicate] at hlen
      exact hlen
    by_cases hlong : 1 < zeroes.2
    · have htake : ip.groups.take zeroes.1 = before := by
        rw [hgroups, ← hbefore, List.append_assoc, List.take_left]
      have hdrop : ip.groups.drop (zeroes.1 + zeroes.2) = behind := by
        have hfront : (before ++ List.replicate zeroes.2 (0 : UInt16)).length = zeroes.1 + zeroes.2 := by
          rw [List.length_append, List.length_replicate, hbefore]
        conv_lhs => rw [hgroups]
        rw [← hfront, List.drop_left]
      have htext : ip.print ++ rest = printGroups before ++ colon :: colon :: (printGroups behind ++ rest) := by
        simp only [Ipv6Addr.print, hmapped, ← hzeroes, hlong, ↓reduceIte, htake, hdrop, List.append_assoc, List.cons_append]
      rw [htext]
      refine readIpv6Addr_compressed (by omega) (readGroups_print hrest (by omega)) ?_
      rw [show 8 - before.length - behind.length = zeroes.2 by omega, ← hgroups]
    · have htext : ip.print = printGroups ip.groups := by
        simp only [Ipv6Addr.print, hmapped, ← hzeroes, hlong, ↓reduceIte]
      rw [htext, readIpv6Addr, readGroups_print hrest (by omega)]
      simp only [hlen, ↓reduceIte, ip.ofGroups_groups, Option.map_some]

/-! ### Addresses -/

/-- What begins with an IPv4 address is no IPv6 address: that is read as the last two groups. -/
theorem readIpv6Addr_of_ipv4 {s rest : List UInt8} {ipv4 : Ipv4Addr} (h : readIpv4Addr s = some (ipv4, rest)) :
    readIpv6Addr s = none := by
  have hgroups : readGroups true 8 s = (ipv4.groups, true, rest) := by
    have hseparator : readSeparator colon true readIpv4Addr s = some (ipv4, rest) := h
    rw [readGroups, if_neg (by decide), hseparator]
  rw [readIpv6Addr, hgroups]
  rfl

theorem parseIpAddr_print (ip : IpAddr) : parseIpAddr ip.print = some ip := by
  have hnil : Stops [] :=
    { noDigit := fun b hb => nomatch hb
      noPoint := fun h => nomatch h
      behindColon := fun rest h => nomatch h }
  cases ip with
  | v4 ip =>
    have hread := readIpv4Addr_print ip hnil.noDigit.ten
    rw [List.append_nil] at hread
    rw [parseIpAddr, parseWith, readIpAddr, IpAddr.print, hread]
  | v6 ip =>
    have hread := readIpv6Addr_print ip hnil
    rw [List.append_nil] at hread
    have hno : readIpv4Addr ip.print = none := by
      cases hipv4 : readIpv4Addr ip.print with
      | none => rfl
      | some r =>
        rw [readIpv6Addr_of_ipv4 hipv4] at hread
        cases hread
    rw [parseIpAddr, parseWith, readIpAddr, IpAddr.print, hno, hread]
    rfl

theorem readIpv4Addr_bracket (s : List UInt8) : readIpv4Addr (openBracket :: s) = none := by
  refine readIpv4Addr_eq_none ?_
  rw [readDigits_of_noDigit (noDigit_cons (by decide) s)]
  exact show some openBracket ≠ some point by decide

theorem readIpv6Addr_bracket (s : List UInt8) : readIpv6Addr (openBracket :: s) = none := by
  have hstops : Stops (openBracket :: s) :=
    { noDigit := noDigit_cons (by decide) s
      noPoint := show some openBracket ≠ some point by decide
      behindColon := fun rest h => absurd (List.cons.inj h).1 (by decide) }
  rw [readIpv6Addr, readGroups_of_stops hstops]
  rfl

theorem stops_bracket (s : List UInt8) : Stops (closeBracket :: s) where
  noDigit := noDigit_cons (by decide) s
  noPoint := show some closeBracket ≠ some point by decide
  behindColon _ h := absurd (List.cons.inj h).1 (by decide)

theorem stops_percent (s : List UInt8) : Stops (percent :: s) where
  noDigit := noDigit_cons (by decide) s
  noPoint := show some percent ≠ some point by decide
  behindColon _ h := absurd (List.cons.inj h).1 (by decide)

theorem readSocketAddrV6_print (ip : Ipv6Addr) (port : UInt16) (scope : UInt32) :
    readSocketAddrV6 (SocketAddr.v6 ip port scope).print = some (.v6 ip port scope, []) := by
  rw [readSocketAddrV6, SocketAddr.print, List.cons_append, List.cons_append, readGivenChar, if_pos rfl, List.append_assoc]
  by_cases hscope : scope = 0
  · subst hscope
    have hno := @readScopeId_zero (closeBracket :: printPort port) (show some closeBracket ≠ some percent by decide)
    simp only [↓reduceIte, List.nil_append, Option.bind_eq_bind, Option.bind_some,
      readIpv6Addr_print ip (stops_bracket _), hno, readGivenChar, readPort_print]
  · have hread := @readScopeId_print scope (closeBracket :: printPort port) (noDigit_cons (by decide) _)
    rw [List.cons_append] at hread
    simp only [hscope, ↓reduceIte, List.cons_append, Option.bind_eq_bind, Option.bind_some,
      readIpv6Addr_print ip (stops_percent _), hread, readGivenChar, readPort_print]

/-- **A socket address is parsed again.** -/
theorem parseSocketAddr_print (addr : SocketAddr) : parseSocketAddr addr.print = some addr := by
  cases addr with
  | v4 ip port =>
    have hread : readSocketAddrV4 (SocketAddr.v4 ip port).print = some (.v4 ip port, []) := by
      have hip := @readIpv4Addr_print ip (printPort port) (noDigit_cons (by decide) _)
      simp only [readSocketAddrV4, SocketAddr.print, hip, Option.bind_eq_bind, Option.bind_some, readPort_print]
    rw [parseSocketAddr, parseWith, readSocketAddr, hread, Option.some_or]
  | v6 ip port scope =>
    have hno : readSocketAddrV4 (SocketAddr.v6 ip port scope).print = none := by
      simp only [readSocketAddrV4, SocketAddr.print, List.cons_append, readIpv4Addr_bracket, Option.bind_eq_bind,
        Option.bind_none]
    rw [parseSocketAddr, parseWith, readSocketAddr, hno, Option.none_or, readSocketAddrV6_print]

/-- **No text is both an IP address and a socket address.** -/
theorem parseSocketAddr_of_ipAddr {s : List UInt8} {ip : IpAddr} (h : parseIpAddr s = some ip) : parseSocketAddr s = none := by
  have hread : ∃ r, readIpAddr s = some (r, []) := by
    unfold parseIpAddr parseWith at h
    split at h
    · exact ⟨_, by assumption⟩
    · cases h
  obtain ⟨r, hread⟩ := hread
  have hv4 : readSocketAddrV4 s = none := by
    unfold readIpAddr at hread
    split at hread
    · rename_i ipv4 rest hipv4
      obtain ⟨-, rfl⟩ := Prod.mk.inj (Option.some.inj hread)
      simp only [readSocketAddrV4, hipv4, Option.bind_eq_bind, Option.bind_some]
      rfl
    · rename_i hipv4
      simp only [readSocketAddrV4, hipv4, Option.bind_eq_bind, Option.bind_none]
  have hv6 : readSocketAddrV6 s = none := by
    cases s with
    | nil => rfl
    | cons b s =>
      by_cases hb : b = openBracket
      · subst hb
        rw [readIpAddr, readIpv4Addr_bracket, readIpv6Addr_bracket] at hread
        cases hread
      · simp only [readSocketAddrV6, readGivenChar, hb, ↓reduceIte, Option.bind_eq_bind, Option.bind_none]
  rw [parseSocketAddr, parseWith, readSocketAddr, hv4, hv6]
  rfl

/-! ### Long runs of digits -/

section

variable {α : Type} {last : List UInt8}

/-- A reader that does not stop within the text that everything ends in. -/
def KeepsTail (last : List UInt8) (inner : Reader α) : Prop :=
  ∀ {s rest : List UInt8} {a : α}, last <:+ s → inner s = some (a, rest) → last <:+ rest

variable (hlast : ∀ b ∈ last, (toDigit 10 b).isSome = true) (hlong : 4 < last.length)

theorem readGivenChar_keeps {c : UInt8} (hc : c ∉ last) : KeepsTail last (readGivenChar c) := by
  intro s rest a hs h
  cases s with
  | nil => cases h
  | cons b s =>
    rw [readGivenChar] at h
    split at h
    · rename_i hb
      obtain ⟨-, rfl⟩ := Prod.mk.inj (Option.some.inj h)
      rcases List.suffix_cons_iff.mp hs with heq | hs
      · exact absurd (heq ▸ hb ▸ List.mem_cons_self) hc
      · exact hs
    · cases h

theorem readSeparator_keeps {sep : UInt8} (hsep : sep ∉ last) (first : Bool) {inner : Reader α} (h : KeepsTail last inner) :
    KeepsTail last (readSeparator sep first inner) := by
  intro s rest a hs hread
  cases first with
  | true => exact h hs hread
  | false =>
    obtain ⟨⟨u, s'⟩, hgiven, hinner⟩ := Option.bind_eq_some_iff.mp hread
    exact h (readGivenChar_keeps hsep hs hgiven) hinner

include hlast in
theorem digit_notMem {c : UInt8} (hc : toDigit 10 c = none) : c ∉ last := fun hmem => by
  have hsome := hlast c hmem
  rw [hc] at hsome
  cases hsome

include hlast hlong

theorem readOctet_keeps : KeepsTail last readOctet := by
  intro s rest a hs h
  obtain ⟨⟨n, rest'⟩, hnumber, heq⟩ := Option.map_eq_some_iff.mp h
  obtain ⟨-, rfl⟩ := Prod.mk.inj heq
  exact readNumber_keeps hlast (by omega) hs hnumber

theorem readGroup_keeps : KeepsTail last readGroup := by
  intro s rest a hs h
  obtain ⟨⟨n, rest'⟩, hnumber, heq⟩ := Option.map_eq_some_iff.mp h
  obtain ⟨-, rfl⟩ := Prod.mk.inj heq
  have hhex : ∀ b ∈ last, (toDigit 16 b).isSome = true := by
    intro b hb
    by_contra hno
    rw [Option.not_isSome_iff_eq_none] at hno
    exact digit_notMem hlast (toDigit_ten_of_sixteen hno) hb
  exact readNumber_keeps hhex (by omega) hs hnumber

theorem readIpv4Addr_keeps : KeepsTail last readIpv4Addr := by
  intro s rest a hs h
  have hpart : KeepsTail last (readSeparator point false readOctet) :=
    readSeparator_keeps (digit_notMem hlast (by decide)) false (readOctet_keeps hlast hlong)
  obtain ⟨⟨x, s₁⟩, h₁, h⟩ := Option.bind_eq_some_iff.mp h
  obtain ⟨⟨y, s₂⟩, h₂, h⟩ := Option.bind_eq_some_iff.mp h
  obtain ⟨⟨z, s₃⟩, h₃, h⟩ := Option.bind_eq_some_iff.mp h
  obtain ⟨⟨w, s₄⟩, h₄, h⟩ := Option.bind_eq_some_iff.mp h
  obtain ⟨-, rfl⟩ := Prod.mk.inj (Option.some.inj h)
  exact hpart (hpart (hpart (readOctet_keeps hlast hlong hs h₁) h₂) h₃) h₄

theorem readGroups_keeps : ∀ (n : ℕ) (first : Bool) {s : List UInt8}, last <:+ s → last <:+ (readGroups first n s).2.2
  | 0, _, _, hs => hs
  | n + 1, first, s, hs => by
    have hcolon : colon ∉ last := digit_notMem hlast (by decide)
    rw [readGroups]
    split
    · rename_i ipv4 rest h
      have hread : readSeparator colon first readIpv4Addr s = some (ipv4, rest) := by
        split at h
        · cases h
        · exact h
      exact readSeparator_keeps hcolon first (readIpv4Addr_keeps hlast hlong) hs hread
    · split
      · rename_i g rest h
        exact readGroups_keeps n false (readSeparator_keeps hcolon first (readGroup_keeps hlast hlong) hs h)
      · exact hs

theorem readIpv6Addr_keeps : KeepsTail last readIpv6Addr := by
  intro s rest a hs h
  have hcolon : colon ∉ last := digit_notMem hlast (by decide)
  have hhead := readGroups_keeps hlast hlong 8 true hs
  unfold readIpv6Addr at h
  split at h
  rename_i head ipv4 rest₁ hgroups
  rw [hgroups] at hhead
  split_ifs at h
  · obtain ⟨ip, -, heq⟩ := Option.map_eq_some_iff.mp h
    obtain ⟨-, rfl⟩ := Prod.mk.inj heq
    exact hhead
  · obtain ⟨⟨u, s₁⟩, h₁, h⟩ := Option.bind_eq_some_iff.mp h
    obtain ⟨⟨v, s₂⟩, h₂, h⟩ := Option.bind_eq_some_iff.mp h
    have hs₂ := readGivenChar_keeps hcolon (readGivenChar_keeps hcolon hhead h₁) h₂
    have htail := readGroups_keeps hlast hlong (7 - head.length) true hs₂
    obtain ⟨ip, -, heq⟩ := Option.map_eq_some_iff.mp h
    obtain ⟨-, rfl⟩ := Prod.mk.inj heq
    exact htail

/-- **What ends in five digits or more is no IP address.** -/
theorem parseIpAddr_of_digits (s : List UInt8) : parseIpAddr (s ++ last) = none := by
  have hno : ∀ ip, readIpAddr (s ++ last) ≠ some (ip, []) := by
    intro ip h
    have hkept : last <:+ ([] : List UInt8) := by
      unfold readIpAddr at h
      split at h
      · rename_i ipv4 rest hipv4
        obtain ⟨-, rfl⟩ := Prod.mk.inj (Option.some.inj h)
        exact readIpv4Addr_keeps hlast hlong (List.suffix_append s last) hipv4
      · obtain ⟨⟨ipv6, rest⟩, hipv6, heq⟩ := Option.map_eq_some_iff.mp h
        obtain ⟨-, rfl⟩ := Prod.mk.inj heq
        exact readIpv6Addr_keeps hlast hlong (List.suffix_append s last) hipv6
    rw [List.suffix_nil.mp hkept] at hlong
    simp at hlong
  unfold parseIpAddr parseWith
  split
  · rename_i ip h
    exact absurd h (hno ip)
  · rfl

end

end Rsdb
