/-
# The words of the bus: errors, frames, client names

The constants and enumerations of `src/lib.rs`, the frame the broker hands
from queue to queue (`FrameData`), and the part of `BusRtClient` that never
changes after `BusRtClient::new` (`BrokerClient`). Two clients are the same
allocation iff they are equal: `id` is the identity of the `Arc`.

The primary name of a client is the part of its name before the first `%%`
(`primaryName`); a primary name has no `%%` in it, so it is its own primary
name (`primaryName_idem`).

The traffic counters of `BusRtClient` and `BrokerDb` are left out: nothing
here reads them.
-/
import Mathlib.Tactic

namespace Busrt

/-! ### Errors -/

/-- `ErrorKind`. -/
inductive ErrorKind
  | notRegistered | notSupported | io | timeout | data | busy | notDelivered | access | other | eof
  deriving DecidableEq, Repr

/-- `ErrorKind as u8`: the `ERR_` constants. -/
def ErrorKind.code : ErrorKind → UInt8
  | .notRegistered => 0x71
  | .data => 0x72
  | .io => 0x73
  | .other => 0x74
  | .notSupported => 0x75
  | .busy => 0x76
  | .notDelivered => 0x77
  | .timeout => 0x78
  | .access => 0x79
  | .eof => 0xff

/-- `ErrorKind::from(code)`. -/
def ErrorKind.ofCode (code : UInt8) : ErrorKind :=
  if code = 0x71 then .notRegistered
  else if code = 0x75 then .notSupported
  else if code = 0x73 then .io
  else if code = 0x72 then .data
  else if code = 0x76 then .busy
  else if code = 0x77 then .notDelivered
  else if code = 0x79 then .access
  else .other

/-- `Error`: a kind, and a message for some. -/
structure Error where
  kind : ErrorKind
  message : Option String
  deriving DecidableEq, Repr

namespace Error

def notRegistered : Error := ⟨.notRegistered, none⟩
def busy (e : String) : Error := ⟨.busy, some e⟩
def notSupported (e : String) : Error := ⟨.notSupported, some e⟩

end Error

/-- `RESPONSE_OK`. -/
def RESPONSE_OK : UInt8 := 0x01

/-- `OP_ACK`. -/
def OP_ACK : UInt8 := 0xFE

/-- An error's code is never the code of success. -/
theorem ErrorKind.code_ne_ok (e : ErrorKind) : e.code ≠ RESPONSE_OK := by
  cases e <;> decide

/-! ### Quality of service, operations, frames -/

/-- `QoS`. -/
inductive QoS
  | no | processed | realtime | realtimeProcessed
  deriving DecidableEq, Repr

namespace QoS

def isRealtime : QoS → Bool
  | .realtime | .realtimeProcessed => true
  | _ => false

def needsAck : QoS → Bool
  | .processed | .realtimeProcessed => true
  | _ => false

end QoS

/-- `FrameOp`, the operations a client may ask for. -/
inductive FrameOp
  | nop | message | broadcast | publishTopic | publishTopicFor
  | subscribeTopic | unsubscribeTopic | excludeTopic | unexcludeTopic
  deriving DecidableEq, Repr

/-- `FrameKind`, the frames the broker queues. -/
inductive FrameKind
  | prepared | message | broadcast | publish | acknowledge | nop
  deriving DecidableEq, Repr

/-- `FrameData`. -/
structure FrameData where
  kind : FrameKind
  sender : Option String
  topic : Option String
  header : Option (List UInt8)
  buf : List UInt8
  payloadPos : ℕ
  realtime : Bool
  deriving DecidableEq, Repr

namespace FrameData

/-- `FrameData::payload`. -/
def payload (f : FrameData) : List UInt8 := f.buf.drop f.payloadPos

/-- `FrameData::new_nop`. -/
def newNop : FrameData := ⟨.nop, none, none, none, [], 0, false⟩

end FrameData

/-! ### Client names -/

/-- `SECONDARY_SEP`. -/
def SECONDARY_SEP : String := "%%"

/-- The characters before the first `%%`, all of them if there is none. -/
def primaryChars : List Char → List Char
  | [] => []
  | [c] => [c]
  | c :: d :: cs => if c = '%' ∧ d = '%' then [] else c :: primaryChars (d :: cs)

/-- `name.find(SECONDARY_SEP).map_or(name, |pos| &name[..pos])`. -/
def primaryName (name : String) : String := String.ofList (primaryChars name.toList)

/-- Before the first `%%` there is no `%%`, so the same characters are left. -/
theorem primaryChars_idem : ∀ cs : List Char, primaryChars (primaryChars cs) = primaryChars cs
  | [] => rfl
  | [_] => rfl
  | [c, d] => by
    by_cases h : c = '%' ∧ d = '%'
    · simp [primaryChars, h]
    · simp [primaryChars, h]
  | c :: d :: e :: cs => by
    have ih := primaryChars_idem (d :: e :: cs)
    by_cases h : c = '%' ∧ d = '%'
    · simp [primaryChars, h]
    · by_cases h' : d = '%' ∧ e = '%'
      · obtain ⟨rfl, rfl⟩ := h'
        have hc : c ≠ '%' := fun hc => h ⟨hc, rfl⟩
        simp [primaryChars, hc]
      · simp only [primaryChars, h, h', if_false] at ih ⊢
        simp only [ih]

@[simp] theorem primaryName_idem (name : String) :
    primaryName (primaryName name) = primaryName name := by
  simp [primaryName, primaryChars_idem]

/-- `BusRtClientKind`. -/
inductive BusRtClientKind
  | internal | localIpc | tcp | webSocket
  deriving DecidableEq, Repr

namespace BusRtClientKind

/-- `BusRtClientKind::as_str`. -/
def asStr : BusRtClientKind → String
  | .internal => "internal"
  | .localIpc => "local_ipc"
  | .tcp => "tcp"
  | .webSocket => "websocket"

end BusRtClientKind

/-- `Arc<BusRtClient>`: which allocation it is, and the fields that never change. -/
structure BrokerClient where
  id : ℕ
  name : String
  kind : BusRtClientKind
  source : Option String := none
  port : Option String := none
  deriving DecidableEq, Repr

namespace BrokerClient

/-- `primary_name`: both callers of `BusRtClient::new` pass the name up to the
first `%%`. -/
def primaryName (c : BrokerClient) : String := Busrt.primaryName c.name

/-- `primary`. -/
def primary (c : BrokerClient) : Bool := c.name == c.primaryName

/-- Not an inter-thread client: there is a connection behind it. -/
def isExternal (c : BrokerClient) : Bool := c.kind != .internal

theorem primary_iff (c : BrokerClient) : c.primary = true ↔ c.primaryName = c.name := by
  rw [primary, beq_iff_eq]
  exact eq_comm

theorem primary_eq_false (c : BrokerClient) : c.primary = false ↔ c.primaryName ≠ c.name := by
  rw [← Bool.not_eq_true, primary_iff]

/-- A client named as somebody's primary is primary. -/
theorem primary_of_name_eq {c p : BrokerClient} (h : p.name = c.primaryName) :
    p.primary = true := by
  rw [primary_iff, primaryName, h, primaryName, primaryName_idem]

end BrokerClient

/-- Who made a frame: the operation `n` of a connection, counted from its
registration, the acknowledgement of one, or code on the broker's side (pings,
announcements, calls of internal clients). -/
inductive Origin
  | op (c : BrokerClient) (n : ℕ)
  | ack (c : BrokerClient) (n : ℕ)
  | broker
  deriving DecidableEq, Repr

/-- `Frame = Arc<FrameData>`. An operation allocates one frame and hands it to
all recipients, so the origin tells allocations apart. -/
structure Frame where
  origin : Origin
  data : FrameData
  deriving DecidableEq, Repr

/-- `BROKER_INFO_TOPIC`. -/
def BROKER_INFO_TOPIC : String := ".broker/info"

/-- `BROKER_WARN_TOPIC`. -/
def BROKER_WARN_TOPIC : String := ".broker/warn"

end Busrt
