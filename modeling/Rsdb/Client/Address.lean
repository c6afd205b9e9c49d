/-
# The addresses of targets

What the user types is made an address when a target is connected, and again when
one is selected; what is stored is shown without the default port. So an address
is typed, stored, shown and typed again, and should stay what it is
(`SameEverywhere`).

It does, but for two kinds of text (`same_everywhere_iff`). The zone of an IPv6
address is not shown where the default port is not, and what is shown selects
another target. And what is taken for the name of a host gets the port behind it
without being looked at: nothing, or an address in brackets that `std` writes in
another way, is then made another address the next time.
-/
import Rsdb.Lib.IpText
import Rsdb.Client.Registry

namespace Rsdb

namespace Client

/-- The port an address has that names none. -/
def defaultPort : UInt16 := UInt16.ofNat defaultRsdbPort

/-- The addresses of `std::net`. -/
def stdAddrTexts : AddrTexts where
  socketAddr value := (parseSocketAddr value).map SocketAddr.print
  ipAddr value := (parseIpAddr value).map fun ip => (SocketAddr.new ip defaultPort).print

/-- The default port is not shown. -/
def displaySocketAddr (addr : SocketAddr) : Str := if addr.port = defaultPort then addr.ip.print else addr.print

/-- An address that is none is shown as it is. -/
def displayAddr (addr : Str) : Str :=
  match parseSocketAddr addr with
  | some addr => displaySocketAddr addr
  | none => addr

/-- A text that is typed gives the same address wherever it is, that address
stays what it is, and what is shown of it selects it. -/
structure SameEverywhere (value : Str) : Prop where
  target : ∀ addr, stdAddrTexts.normalizeTargetAddr value = .ok addr → addr = stdAddrTexts.normalizeConnectAddr value
  connectAgain : stdAddrTexts.normalizeConnectAddr (stdAddrTexts.normalizeConnectAddr value) =
    stdAddrTexts.normalizeConnectAddr value
  targetAgain : ∀ addr, stdAddrTexts.normalizeTargetAddr value = .ok addr → stdAddrTexts.normalizeTargetAddr addr = .ok addr
  shown : stdAddrTexts.normalizeTargetAddr (displayAddr (stdAddrTexts.normalizeConnectAddr value)) =
    .ok (stdAddrTexts.normalizeConnectAddr value)

/-! ### What is known -/

theorem normalizeConnectAddr_of_known {texts : AddrTexts} {value addr : Str} (h : texts.known value = some addr) :
    texts.normalizeConnectAddr value = addr := by
  rw [AddrTexts.normalizeConnectAddr, h]

theorem normalizeTargetAddr_eq_ok {texts : AddrTexts} {value addr : Str} :
    texts.normalizeTargetAddr value = .ok addr ↔ texts.known value = some addr := by
  unfold AddrTexts.normalizeTargetAddr
  cases texts.known value with
  | none => simp
  | some a => simp

theorem known_of_socketAddr {value : Str} {addr : SocketAddr} (h : parseSocketAddr value = some addr) :
    stdAddrTexts.known value = some addr.print := by
  simp only [AddrTexts.known, stdAddrTexts, h, Option.map_some]

theorem known_of_ipAddr {value : Str} {ip : IpAddr} (h : parseIpAddr value = some ip) :
    stdAddrTexts.known value = some (SocketAddr.new ip defaultPort).print := by
  simp only [AddrTexts.known, stdAddrTexts, parseSocketAddr_of_ipAddr h, h, Option.map_none, Option.map_some]

theorem known_of_no_addr {value : Str} (hsocket : parseSocketAddr value = none) (hip : parseIpAddr value = none) :
    stdAddrTexts.known value = if hasPortSuffix value then some value else none := by
  simp only [AddrTexts.known, stdAddrTexts, hsocket, hip, Option.map_none]

theorem known_print (addr : SocketAddr) : stdAddrTexts.known addr.print = some addr.print :=
  known_of_socketAddr (parseSocketAddr_print addr)

/-! ### What is shown -/

/-- What is shown of an address is all of it. -/
def ShownWhole (addr : SocketAddr) : Prop := addr.port = defaultPort → addr.scope = 0

instance : DecidablePred ShownWhole := fun addr => by
  unfold ShownWhole
  infer_instance

theorem displayAddr_print (addr : SocketAddr) : displayAddr addr.print = displaySocketAddr addr := by
  rw [displayAddr, parseSocketAddr_print]

theorem displayAddr_of_no_addr {value : Str} (h : parseSocketAddr value = none) : displayAddr value = value := by
  rw [displayAddr, h]

/-- Without its zone an address with the default port is another. -/
theorem new_ip_eq_iff (addr : SocketAddr) (hport : addr.port = defaultPort) :
    SocketAddr.new addr.ip defaultPort = addr ↔ addr.scope = 0 := by
  cases addr with
  | v4 ip port =>
    obtain rfl : port = defaultPort := hport
    exact ⟨fun _ => rfl, fun _ => rfl⟩
  | v6 ip port scope =>
    obtain rfl : port = defaultPort := hport
    constructor
    · intro h
      exact (SocketAddr.v6.inj h).2.2.symm
    · intro h
      obtain rfl : scope = 0 := h
      rfl

/-- What is shown of an address selects it if it is all of it. -/
theorem known_displaySocketAddr_iff (addr : SocketAddr) :
    stdAddrTexts.known (displaySocketAddr addr) = some addr.print ↔ ShownWhole addr := by
  unfold displaySocketAddr ShownWhole
  by_cases hport : addr.port = defaultPort
  · have hinjective : (SocketAddr.new addr.ip defaultPort).print = addr.print ↔
        SocketAddr.new addr.ip defaultPort = addr := by
      refine ⟨fun h => ?_, fun h => by rw [h]⟩
      have hparse := congrArg parseSocketAddr h
      rw [parseSocketAddr_print, parseSocketAddr_print] at hparse
      exact Option.some.inj hparse
    rw [if_pos hport, known_of_ipAddr (parseIpAddr_print addr.ip), Option.some.injEq, hinjective, new_ip_eq_iff addr hport]
    exact ⟨fun h _ => h, fun h => h hport⟩
  · rw [if_neg hport, known_print]
    exact ⟨fun _ h => absurd h hport, fun _ => rfl⟩

/-! ### The default port behind a name -/

/-- `:27101`. -/
def defaultSuffix : Str := str ":" ++ decimal defaultRsdbPort

theorem normalizeConnectAddr_of_unknown {value : Str} (h : stdAddrTexts.known value = none) :
    stdAddrTexts.normalizeConnectAddr value = value ++ defaultSuffix := by
  rw [AddrTexts.normalizeConnectAddr, h, defaultSuffix, List.append_assoc]

theorem hasPortSuffix_defaultSuffix (value : Str) : hasPortSuffix (value ++ defaultSuffix) = decide (value ≠ []) := by
  have hsuffix : defaultSuffix = [58, 50, 55, 49, 48, 49] := by decide +kernel
  have hsplit : rsplitColon (value ++ defaultSuffix) = some (value, [50, 55, 49, 48, 49]) := by
    simp [rsplitColon, hsuffix, List.findIdx?_cons]
  have hport : (parseU16 [50, 55, 49, 48, 49]).isSome = true := by decide
  rw [hasPortSuffix, hsplit]
  simp only [hport, Bool.and_true]

/-- No name with the default port behind it is an IP address. -/
theorem parseIpAddr_defaultSuffix (value : Str) : parseIpAddr (value ++ defaultSuffix) = none := by
  have hdigits : value ++ defaultSuffix = (value ++ [58]) ++ [50, 55, 49, 48, 49] := by
    have hsuffix : defaultSuffix = [58, 50, 55, 49, 48, 49] := by decide +kernel
    rw [hsuffix]
    simp
  rw [hdigits]
  exact parseIpAddr_of_digits (by decide +kernel) (by decide +kernel) _

/-! ### When an address stays what it is -/

/-- An address that is shown whole; an IP address; a text with a port; or a text
that, with the default port behind it, is no socket address, or is one as `std`
writes it and is shown whole. -/
def Settled (value : Str) : Prop :=
  match parseSocketAddr value with
  | some addr => ShownWhole addr
  | none => (parseIpAddr value).isSome = true ∨ hasPortSuffix value = true ∨
      value ≠ [] ∧ ∀ addr ∈ parseSocketAddr (value ++ defaultSuffix), addr.print = value ++ defaultSuffix ∧ ShownWhole addr

/-- A text of which the address is known. -/
theorem sameEverywhere_of_known {value addr : Str} (h : stdAddrTexts.known value = some addr)
    (hagain : stdAddrTexts.known addr = some addr) :
    SameEverywhere value ↔ stdAddrTexts.known (displayAddr addr) = some addr := by
  have hconnect := normalizeConnectAddr_of_known h
  constructor
  · intro hsame
    have hshown := hsame.shown
    rwa [hconnect, normalizeTargetAddr_eq_ok] at hshown
  · intro hshown
    have htarget : ∀ a, stdAddrTexts.normalizeTargetAddr value = .ok a → a = addr := by
      intro a ha
      rw [normalizeTargetAddr_eq_ok, h] at ha
      exact (Option.some.inj ha).symm
    refine ⟨fun a ha => ?_, ?_, fun a ha => ?_, ?_⟩
    · rw [hconnect]
      exact htarget a ha
    · rw [hconnect]
      exact normalizeConnectAddr_of_known hagain
    · rw [htarget a ha]
      exact normalizeTargetAddr_eq_ok.mpr hagain
    · rw [hconnect]
      exact normalizeTargetAddr_eq_ok.mpr hshown

/-- A text that is taken for a name. -/
theorem sameEverywhere_of_unknown {value : Str} (h : stdAddrTexts.known value = none) :
    SameEverywhere value ↔
      stdAddrTexts.normalizeConnectAddr (value ++ defaultSuffix) = value ++ defaultSuffix ∧
        stdAddrTexts.known (displayAddr (value ++ defaultSuffix)) = some (value ++ defaultSuffix) := by
  have hconnect := normalizeConnectAddr_of_unknown h
  have hno : ∀ addr, stdAddrTexts.normalizeTargetAddr value ≠ .ok addr := by
    intro addr haddr
    rw [normalizeTargetAddr_eq_ok, h] at haddr
    cases haddr
  constructor
  · intro hsame
    have hagain := hsame.connectAgain
    have hshown := hsame.shown
    rw [hconnect] at hagain hshown
    exact ⟨hagain, normalizeTargetAddr_eq_ok.mp hshown⟩
  · rintro ⟨hagain, hshown⟩
    refine ⟨fun addr haddr => absurd haddr (hno addr), ?_, fun addr haddr => absurd haddr (hno addr), ?_⟩
    · rw [hconnect]
      exact hagain
    · rw [hconnect]
      exact normalizeTargetAddr_eq_ok.mpr hshown

/-- **Addresses mean the same everywhere** exactly when they are settled. -/
theorem same_everywhere_iff (value : Str) : SameEverywhere value ↔ Settled value := by
  cases hsocket : parseSocketAddr value with
  | some addr =>
    rw [sameEverywhere_of_known (known_of_socketAddr hsocket) (known_print addr), displayAddr_print,
      known_displaySocketAddr_iff, Settled, hsocket]
  | none =>
    rw [Settled, hsocket]
    cases hip : parseIpAddr value with
    | some ip =>
      have hwhole : ShownWhole (SocketAddr.new ip defaultPort) := fun _ => by cases ip <;> rfl
      rw [sameEverywhere_of_known (known_of_ipAddr hip) (known_print _), displayAddr_print, known_displaySocketAddr_iff]
      exact ⟨fun _ => Or.inl rfl, fun _ => hwhole⟩
    | none =>
      have hknown := known_of_no_addr hsocket hip
      by_cases hport : hasPortSuffix value = true
      · rw [if_pos hport] at hknown
        rw [sameEverywhere_of_known hknown hknown, displayAddr_of_no_addr hsocket]
        exact ⟨fun _ => Or.inr (Or.inl hport), fun _ => hknown⟩
      · rw [if_neg hport] at hknown
        rw [sameEverywhere_of_unknown hknown]
        simp only [Option.isSome_none, Bool.false_eq_true, hport, false_or]
        -- what it is with the default port behind it
        cases hlong : parseSocketAddr (value ++ defaultSuffix) with
        | some addr =>
          have hconnect := normalizeConnectAddr_of_known (known_of_socketAddr hlong)
          have hdisplay : displayAddr (value ++ defaultSuffix) = displaySocketAddr addr := by rw [displayAddr, hlong]
          have hne : value ≠ [] := by
            rintro rfl
            have hnone : parseSocketAddr defaultSuffix = none := by decide +kernel
            rw [List.nil_append, hnone] at hlong
            cases hlong
          rw [hconnect, hdisplay]
          constructor
          · rintro ⟨hprint, hshown⟩
            refine ⟨hne, fun a ha => ?_⟩
            obtain rfl := Option.some.inj ha
            rw [← hprint] at hshown
            exact ⟨hprint, (known_displaySocketAddr_iff addr).mp hshown⟩
          · rintro ⟨-, hall⟩
            obtain ⟨hprint, hwhole⟩ := hall addr rfl
            refine ⟨hprint, ?_⟩
            rw [← hprint]
            exact (known_displaySocketAddr_iff addr).mpr hwhole
        | none =>
          have hknown' := known_of_no_addr hlong (parseIpAddr_defaultSuffix value)
          rw [hasPortSuffix_defaultSuffix] at hknown'
          rw [displayAddr_of_no_addr hlong]
          by_cases hne : value = []
          · subst hne
            refine ⟨fun h => ?_, fun h => absurd rfl h.1⟩
            rw [hknown'] at h
            exact absurd h.2 (by simp)
          · rw [decide_eq_true hne, if_pos rfl] at hknown'
            exact ⟨fun _ => ⟨hne, fun a ha => nomatch ha⟩, fun _ => ⟨normalizeConnectAddr_of_known hknown', hknown'⟩⟩

/-- What is shown of an address with a zone is that of another. -/
theorem address_with_zone :
    ¬ SameEverywhere (str "[fe80::1%3]:27101") ∧
      stdAddrTexts.normalizeConnectAddr (str "[fe80::1%3]:27101") = str "[fe80::1%3]:27101" ∧
      displayAddr (str "[fe80::1%3]:27101") = str "fe80::1" ∧
      stdAddrTexts.normalizeTargetAddr (str "fe80::1") = .ok (str "[fe80::1]:27101") := by
  refine ⟨fun h => ?_, by decide +kernel, by decide +kernel, by decide +kernel⟩
  have hshown := h.shown
  revert hshown
  decide +kernel

/-- Typed once, and what is stored typed again. -/
example : stdAddrTexts.normalizeConnectAddr (str "[0::1]") = str "[0::1]:27101" ∧
    stdAddrTexts.normalizeConnectAddr (str "[0::1]:27101") = str "[::1]:27101" := by
  decide +kernel

end Client

end Rsdb
