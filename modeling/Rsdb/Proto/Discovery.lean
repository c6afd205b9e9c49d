/-
# Discovery datagrams

A probe asks every daemon in reach for its address; a daemon answers with the
probe's nonce and what it is. A datagram is eight magic bytes and the JSON of
the message, at most `maxDiscoveryPayloadLen` bytes of it.
-/
import Rsdb.Proto.Control

namespace Rsdb

/-- What a discovery message begins with. -/
def discoveryMagic : Bytes := str "RSDBDISC"

/-- The longest body of a discovery message. -/
def maxDiscoveryPayloadLen : ℕ := 16 * 1024

/-- What a client sends to find daemons. -/
inductive DiscoveryRequest where
  | probe (nonce : ℕ)
  deriving DecidableEq

/-- How a daemon makes itself known. -/
structure DiscoveryResponse where
  nonce : ℕ
  serverId : Str
  deviceName : Str
  platform : Str
  tcpPort : ℕ
  protocolVersion : ℕ
  features : List Str
  deriving DecidableEq

/-- The text of a request: its name under `type`, and its nonce. -/
def DiscoveryRequest.json : DiscoveryRequest → Bytes
  | probe nonce => jsonTagged "probe" [(str "nonce", decimal nonce)]

/-- Its fields in the order they are declared in. -/
def DiscoveryResponse.json (r : DiscoveryResponse) : Bytes :=
  jsonObject [(str "nonce", decimal r.nonce), (str "server_id", jsonString r.serverId),
    (str "device_name", jsonString r.deviceName), (str "platform", jsonString r.platform),
    (str "tcp_port", decimal r.tcpPort), (str "protocol_version", decimal r.protocolVersion),
    (str "features", jsonArray (r.features.map jsonString))]

/-- `encode_discovery_message`, with the JSON of the message given. -/
def encodeDiscoveryMessage (payload : Bytes) : Except ProtocolError Bytes :=
  if payload.length > maxDiscoveryPayloadLen then .error (.discoveryPayloadTooLarge payload.length)
  else .ok (discoveryMagic ++ payload)

/-- `decode_discovery_message`, with the JSON parser given. -/
def decodeDiscoveryMessage {α : Type} (decode : Bytes → Except Str α) (bytes : Bytes) : Except ProtocolError α :=
  if bytes.length < discoveryMagic.length ∨ bytes.take discoveryMagic.length ≠ discoveryMagic then
    .error .invalidDiscoveryMagic
  else
    let payload := bytes.drop discoveryMagic.length
    if payload.length > maxDiscoveryPayloadLen then .error (.discoveryPayloadTooLarge payload.length)
    else
      match decode payload with
      | .ok a => .ok a
      | .error message => .error (.json message)

/-- A message that is encoded is decoded to what the parser makes of its JSON. -/
theorem decodeDiscoveryMessage_encode {α : Type} {decode : Bytes → Except Str α} {payload bytes : Bytes} {a : α}
    (hdecode : decode payload = .ok a) (h : encodeDiscoveryMessage payload = .ok bytes) :
    decodeDiscoveryMessage decode bytes = .ok a := by
  rw [encodeDiscoveryMessage] at h
  split at h
  · cases h
  · rename_i hfits
    obtain rfl := Except.ok.inj h
    have hmagic : ¬ ((discoveryMagic ++ payload).length < discoveryMagic.length ∨
        (discoveryMagic ++ payload).take discoveryMagic.length ≠ discoveryMagic) := by
      simp
    rw [decodeDiscoveryMessage, if_neg hmagic]
    simp only [List.drop_left, if_neg hfits, hdecode]

end Rsdb
