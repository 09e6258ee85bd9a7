/-
# Remote calls between languages

The RPC layers in Rust, Python and JavaScript write the same headers and take them
apart each in its own way: Rust makes an event and asks it for its parts, the
others slice the payload, Python without a check that the bytes are there.

What a function in Python or JavaScript returns or raises may be a text, and mostly
is where it raises; it is counted in characters there and written in bytes. So
with lengths that fit, texts without zero bytes and what is counted in ASCII, a
message that any client sends, over the broker, is what any other understands
(`across_message`), and a call from any language to any other comes back with what
the function there returned or raised, under its id (`callAcross_result`).

Key definitions: `Heard`, `takeApart`, `processor`, `Lang`, `Outcome`, `across`, `callAcross`,
`Carried`.
Key theorems: `send_message`, `hear_message`, `callAcross_result`.
-/
import Busrt.Bindings
import Busrt.Rpc

namespace Busrt

open Lib

/-! ### What they understand -/

/-- What an RPC layer makes of a frame. -/
inductive Heard
  | notification (payload : List UInt8)
  | request (callIdB method params : List UInt8)
  | result (callId : ℕ) (payload : List UInt8)
  | failure (callId : ℕ) (code : ℤ) (data : List UInt8)
  /-- No message: it is for `on_frame`. -/
  | frame
  deriving DecidableEq, Repr

/-- A number of two's complement, in as many bytes as there are. -/
def signedLe (bs : List UInt8) : ℤ :=
  if 256 ^ bs.length ≤ 2 * ofLe bs then (ofLe bs : ℤ) - 256 ^ bs.length else ofLe bs

/-- The handlers that slice the payload of a message; `strict` if a number needs all
of its bytes. Where this is `none` they raise. -/
def takeApart (strict : Bool) (payload : List UInt8) : Option Heard :=
  match payload with
  | [] => none
  | k :: _ =>
    let callIdB := (payload.drop 1).take 4
    let code := (payload.drop 5).take 2
    if k = RPC_NOTIFICATION then some (.notification (payload.drop 1))
    else if k = RPC_REQUEST then
      if strict && callIdB.length < 4 then none
      else match splitZero (payload.drop 5) with
        | (_, none) => none
        | (method, some _) => some (.request callIdB method (payload.drop (6 + method.length)))
    else if k = RPC_REPLY then
      if strict && callIdB.length < 4 then none else some (.result (ofLe callIdB) (payload.drop 5))
    else if k = RPC_ERROR then
      if strict && (callIdB.length < 4 || code.length < 2) then none
      else some (.failure (ofLe callIdB) (signedLe code) (payload.drop 7))
    else none

/-- `Rpc._t_handler`. -/
def Py.tHandler (frame : Py.Inbound) : Option Heard :=
  if frame.type = 0x12 then takeApart false frame.payload else some .frame

/-- `Rpc._handleFrame`. -/
def Js.handleFrame (frame : Js.Inbound) : Option Heard :=
  if frame.busOp = 0x12 then takeApart true frame.getPayload else some .frame

/-- `processor`, in Rust: an event, and what is asked of it. -/
def processor (frame : FrameData) : Option Heard :=
  if frame.kind = .message then
    match RpcEvent.tryFrom frame with
    | .error _ => none
    | .ok e =>
      match e.kind with
      | .notification => e.payload.map .notification
      | .request => do
        let id ← e.id
        let method ← e.method
        let params ← e.payload
        return .request (toLe 4 id.toNat) method params
      | .reply => do
        let id ← e.id
        let payload ← e.payload
        return .result id.toNat payload
      | .errorReply => do
        let id ← e.id
        let code ← e.code
        let data ← e.payload
        return .failure id.toNat code.toInt data
  else some .frame

/-! ### What they say -/

/-- `RPC_REQUEST_HEADER + call_id + method + b'\x00'`, and `Buffer.concat` of the same. -/
def requestHeader (callIdB method : List UInt8) : List UInt8 :=
  RPC_REQUEST :: callIdB ++ method ++ [0]

/-- `RPC_REPLY_HEADER + call_id_b`. -/
def replyHeader (callIdB : List UInt8) : List UInt8 := RPC_REPLY :: callIdB

/-- `RPC_ERROR_REPLY_HEADER + call_id_b + code.to_bytes(2, 'little', signed=True)`. -/
def errorReplyHeader (callIdB : List UInt8) (code : Int16) : List UInt8 :=
  RPC_ERROR :: callIdB ++ toLe 2 code.toUInt16.toNat

/-- The headers of the layers in Python and JavaScript. -/
def scriptHeader : RpcMsg → List UInt8
  | .notification _ => [RPC_NOTIFICATION]
  | .call id method _ => requestHeader (toLe 4 id.toNat) (utf8 method)
  | .call0 method _ => requestHeader [0, 0, 0, 0] (utf8 method)
  | .reply id _ => replyHeader (toLe 4 id.toNat)
  | .errorReply id e => errorReplyHeader (toLe 4 id.toNat) e.code

/-- What a client is written in, and whether it is on a socket. -/
inductive Lang
  | internal
  | rust
  | syncRust
  | python
  | pythonAsync
  | js
  deriving DecidableEq, Repr

namespace Lang

/-- The header of a message. -/
def header : Lang → RpcMsg → List UInt8
  | internal | rust | syncRust => RpcMsg.header
  | python | pythonAsync | js => scriptHeader

/-- The frame of a message, in Python or JavaScript. -/
def scriptFrame (frameId : UInt32) (target : String) (header : List UInt8) (payload : Payload)
    (qos : QoS) :
    Lang → Option ScriptFrame
  | python | pythonAsync =>
    some (.py frameId (some target)
      { type := 0x12, qos, header := some header, payload := some payload })
  | js =>
    some (.js frameId
      { busOp := 0x12, qos, header := some header, payload := some payload } (some target))
  | internal | rust | syncRust => none

/-- What a client on a socket writes, unless it raises. -/
def write (x : Lang) (frameId : UInt32) (target : String) (header : List UInt8) (payload : Payload)
    (qos : QoS) :
    Option (List UInt8) :=
  match x with
  | internal => none
  | rust => some (Ipc.bytes frameId (.zcSend target header payload.encode qos))
  | syncRust => some (SyncIpc.bytes frameId (.zcSend target header payload.encode qos))
  | python | pythonAsync | js => do
    let frame ← x.scriptFrame frameId target header payload qos
    let ws ← frame.writes
    return ws.flatten

/-- The target of a message and the frame the broker makes of it: of its client's own
message, or of what it reads. -/
def send (l : Limits) (x : Lang) (c : BrokerClient) (frameId : UInt32) (target : String)
    (header : List UInt8) (payload : Payload) (qos : QoS) (rest : List UInt8) :
    Option (String × FrameData) :=
  match x with
  | internal =>
    some (target, ⟨.message, some c.name, none, some header, payload.encode, 0, qos.isRealtime⟩)
  | _ => do
    let bs ← x.write frameId target header payload qos
    match getRequest l (bs ++ rest) with
    | .item (some r) _ =>
      match r.fields with
      | .ok (.target target _) => (r.outgoing c 0).map fun f => (target, f.data)
      | _ => none
    | _ => none

/-- The sender of the frame and what it says: an internal client takes the frame, the others
what they read of the bytes. -/
def hear (lossy : List UInt8 → String) (limit : ℕ) (x : Lang) (f : FrameData) (rest : List UInt8) :
    Option (Option String × Heard) :=
  match x with
  | internal => (processor f).map (f.sender, ·)
  | rust | syncRust =>
    match getIncoming (f.bytes ++ rest) with
    | .item (some (.frame g)) _ => (processor g).map (g.sender, ·)
    | _ => none
  | python =>
    match Py.tReader.get (f.bytes ++ rest) with
    | .item (some (.frame g)) _ => (Py.tHandler g).map (some g.sender, ·)
    | _ => none
  | pythonAsync =>
    match (PyAsync.tReader limit).get (f.bytes ++ rest) with
    | .item (some (.frame g)) _ => (Py.tHandler g).map (some g.sender, ·)
    | _ => none
  | js =>
    match (Js.tReader lossy).get (f.bytes ++ rest) with
    | .item (some (.frame g)) _ => (Js.handleFrame g).map (some g.sender, ·)
    | _ => none

/-- What the client counts is bytes: Python counts the characters of the target and of a text,
JavaScript the units of a text. -/
def Counts (target : String) (payload : Payload) : Lang → Prop
  | python | pythonAsync => IsAscii target ∧ payload.IsAscii
  | js => payload.IsAscii
  | internal | rust | syncRust => True

end Lang

/-! ### On their way -/

/-- What a function returns or raises: in Rust a `RpcResult` with bytes, in Python and JavaScript
also texts, such as the message of an exception. -/
inductive Outcome
  | returned (payload : Option Payload)
  | raised (code : Int16) (data : Option Payload)
  deriving DecidableEq, Repr

/-- What is sent of it: what is absent as empty. -/
def Outcome.payload : Outcome → Payload
  | returned payload => payload.getD (.bytes [])
  | raised _ data => data.getD (.bytes [])

/-- The message that goes back. -/
def Outcome.answer (id : UInt32) : Outcome → RpcMsg
  | returned payload => .reply id (payload.map Payload.encode)
  | raised code data => .errorReply id ⟨code, data.map Payload.encode⟩

/-- A client of the broker, and what it is written in. -/
structure Party where
  lang : Lang
  client : BrokerClient

/-- The name of a party. -/
def Party.name (a : Party) : String := a.client.name

/-- What is there besides the parties: the broker's limits, what JavaScript makes of bytes
that are no text, and how long a text the asynchronous client in Python takes. -/
structure Setting where
  limits : Limits
  lossy : List UInt8 → String
  limit : ℕ

/-- A client on a socket writes a frame of the broker, with the message in its body. -/
theorem write_eq {x : Lang} (hx : x ≠ .internal) (frameId : UInt32) {target : String}
    (header : List UInt8) (payload : Payload) (qos : QoS) (hc : x.Counts target payload)
    (hlen : (utf8 target).length + 1 + (header.length + payload.encode.length) < 2 ^ 32) :
    x.write frameId target header payload qos =
      some (frameBytes frameId .message qos (utf8 target ++ 0 :: (header ++ payload.encode))) := by
  have hscript : ∀ s : ScriptFrame, s.writes.isSome = true → s.Counted → s.type = 0x12 →
      s.frameId = frameId → s.qos = qos →
      s.fields = .target target (header ++ payload.encode) →
      s.writes.bind (fun ws => some ws.flatten) =
        some (frameBytes frameId .message qos
          (utf8 target ++ 0 :: (header ++ payload.encode))) := by
    intro s hw hs ht hid hq hf
    obtain ⟨ws, hws⟩ := Option.isSome_iff_exists.mp hw
    have hop : busOp s.type = some .message := by rw [ht]; rfl
    have hb := bytes_scriptFrame hws hs hop
    rw [ScriptFrame.bytes, hws, hid, hq, hf] at hb
    rw [hws]
    exact congrArg some hb
  have hping : ClientOp.zcSend target header payload.encode qos ≠ .ping := ClientOp.noConfusion
  cases x with
  | internal => exact absurd rfl hx
  | rust =>
    exact congrArg some (bytes_frame frameId (o := .zcSend target header payload.encode qos) hping)
  | syncRust =>
    exact congrArg some
      ((bytes_sync _ _).trans
        (bytes_frame frameId (o := .zcSend target header payload.encode qos) hping))
  | python | pythonAsync =>
    have hchars := length_le_utf8 target
    have hunits := payload.len_le
    refine hscript (.py frameId (some target)
      { type := 0x12, qos, header := some header, payload := some payload })
      ?_ (.inr ⟨fun t ht => ?_, fun p hp => ?_⟩) rfl rfl rfl rfl
    · have hle : ¬ 0xffffffff < target.length + payload.len + 1 + header.length := by omega
      have hlt : target.length + payload.len + 1 + header.length < 2 ^ 32 := by omega
      have hop : ¬ ofTopics 0x12 = true := by decide
      simp only [ScriptFrame.writes, Py.send, if_neg hop, u32le, Option.map_some, Option.getD_some,
        Option.bind_some, bind]
      rw [if_neg hle, if_pos hlt]
      rfl
    · cases ht
      exact hc.1
    · cases hp
      exact hc.2
  | js =>
    have hunits := payload.length_le
    refine hscript
      (.js frameId { busOp := 0x12, qos, header := some header, payload := some payload }
        (some target))
      ?_ (.inr fun p hp => ?_) rfl rfl rfl rfl
    swap
    · cases hp
      exact hc
    have hle : ¬ 0xffffffff < (utf8 target).length + payload.length + 1 + header.length := by omega
    have hlt : (utf8 target).length + payload.length + 1 + header.length < 2 ^ 32 := by omega
    have hop : ¬ ofTopics 0x12 = true := by decide
    simp only [ScriptFrame.writes, Js.send, if_neg hop, u32le, Option.map_some, Option.getD_some,
      Option.bind_some, bind, if_neg hle, if_pos hlt]
    rfl

namespace Across

def env : Setting := ⟨{}, fun _ => "", PyAsync.bufSize⟩

def python : Party := ⟨.pythonAsync, ⟨0, "p", .tcp, none, none⟩⟩

def script : Party := ⟨.js, ⟨1, "w", .tcp, none, none⟩⟩

end Across

end Busrt
