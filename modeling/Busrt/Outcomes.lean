/-
# What a call returns, by either client

The async `call` waits for the acknowledgement of its request, if it asked for
one, and then for the reply. The sync `call` asks for the acknowledgement too, and lets
go of the channel it would come through: it waits for the reply only.

The frames that a client reads after the request decide what a call returns,
whenever it looks (`listen_eq`). Both clients return the same unless the request
is refused: then the async client returns the error, and the sync client waits for a
reply that may never come (`same_outcome_iff`).

Key definitions: `Reception`, `AsyncRpc.call`, `SyncRpc.call`, `Refused`.
Key theorems: `listen_eq`, `same_outcome_iff`.
-/
import Busrt.Pairing

namespace Busrt

open Lib

/-! ### The client's reader -/

/-- `to_busrt_result`. -/
def toBusrtResult (code : UInt8) : Except Error Unit :=
  if code = RESPONSE_OK then .ok () else .error ⟨ErrorKind.ofCode code, none⟩

/-- `RpcError::from(e)`. -/
def Error.toRpcError (e : Error) : RpcError := ⟨-32000 - Int16.ofNat e.kind.code.toNat, none⟩

/-- The two channels of a call: whether their senders are still in `responses` and `calls`, and what
came. -/
structure Reception where
  confirm : Bool
  entered : Bool
  ack : Option (Except Error Unit)
  got : Option RpcEvent

namespace Reception

/-- The request is sent. -/
def sent (qos : QoS) : Reception := ⟨qos.needsAck, true, none, none⟩

/-- `handle_read`, and the processor, on a frame; `opId` is the id of the request's frame. -/
def hear (opId callId : UInt32) (r : Reception) : Incoming → Reception
  | .ack id code =>
    if UInt32.ofNat id = opId ∧ r.confirm = true then
      { r with confirm := false, ack := some (toBusrtResult code) }
    else r
  | .frame f =>
    if f.kind = .message then
      match RpcEvent.tryFrom f with
      | .error _ => r
      | .ok e =>
        if (e.kind = .reply ∨ e.kind = .errorReply) ∧ e.id = some callId ∧ r.entered = true then
          { r with entered := false, got := some e }
        else r
    else r

end Reception

/-! ### The calls -/

/-- The operation that a `call` sends. -/
def callOp (callId : UInt32) (target method : String) (params : List UInt8) (qos : QoS) :
    ClientOp :=
  .zcSend target (prepareCallPayload method (toLe 4 callId.toNat)) params qos

section Listen

variable (poll : Reception → Option (Except RpcError RpcEvent)) (opId callId : UInt32)

/-- A call that looks after each frame whether it can return. -/
def listen : List Incoming → Reception → Option (Except RpcError RpcEvent)
  | [], r => poll r
  | m :: ms, r =>
    match poll r with
    | some res => some res
    | none => listen ms (r.hear opId callId m)

end Listen

/-- `RpcClient::call` of the async client after the request: first the confirmation, then the
reply. -/
def AsyncRpc.poll (qos : QoS) (r : Reception) : Option (Except RpcError RpcEvent) :=
  if qos.needsAck then
    match r.ack with
    | none => none
    | some (.error e) => some (.error e.toRpcError)
    | some (.ok ()) => r.got.bind RpcEvent.outcome
  else r.got.bind RpcEvent.outcome

/-- `RpcClient::call` of the sync client: the reply. -/
def SyncRpc.poll (r : Reception) : Option (Except RpcError RpcEvent) := r.got.bind RpcEvent.outcome

/-- A call of the async client: the bytes it writes, and what it returns once `ms` have come. -/
def AsyncRpc.call (opId callId : UInt32) (target method : String) (params : List UInt8) (qos : QoS)
    (ms : List Incoming) : List UInt8 × Option (Except RpcError RpcEvent) :=
  let o := callOp callId target method params qos
  (Ipc.bytes opId o, listen (AsyncRpc.poll o.qos) opId callId ms (.sent o.qos))

/-- A call of the sync client. -/
def SyncRpc.call (opId callId : UInt32) (target method : String) (params : List UInt8) (qos : QoS)
    (ms : List Incoming) : List UInt8 × Option (Except RpcError RpcEvent) :=
  let o := callOp callId target method params qos
  (SyncIpc.bytes opId o, listen SyncRpc.poll opId callId ms (.sent o.qos))

/-- The code, if it is an acknowledgement of this frame. -/
def Incoming.ackOf (opId : UInt32) : Incoming → Option UInt8
  | .ack id code => if UInt32.ofNat id = opId then some code else none
  | .frame _ => none

/-- The request asks for an acknowledgement, and the first one is an error. -/
def Refused (opId : UInt32) (qos : QoS) (ms : List Incoming) : Prop :=
  qos.needsAck = true ∧ ∃ code, ms.findSome? (·.ackOf opId) = some code ∧ code ≠ RESPONSE_OK

/-! ### What came stays -/

section Hear

variable {opId callId : UInt32} {r : Reception}
  {poll : Reception → Option (Except RpcError RpcEvent)}

/-- What came has used its sender. -/
structure Reception.Used (r : Reception) : Prop where
  ack : r.ack.isSome = true → r.confirm = false
  got : r.got.isSome = true → r.entered = false

theorem Reception.Used.sent (qos : QoS) : (Reception.sent qos).Used := ⟨nofun, nofun⟩

/-- Everything a frame can do. -/
theorem hear_cases (opId callId : UInt32) (r : Reception) (m : Incoming) :
    ((r.confirm = false ∨ m.ackOf opId = none) ∧ r.hear opId callId m = r) ∨
    (∃ code, m.ackOf opId = some code ∧ r.confirm = true ∧
      r.hear opId callId m = { r with confirm := false, ack := some (toBusrtResult code) }) ∨
    (m.ackOf opId = none ∧ ∃ e, r.entered = true ∧
      r.hear opId callId m = { r with entered := false, got := some e }) := by
  cases m with
  | ack id code =>
    simp only [Reception.hear, Incoming.ackOf]
    by_cases hid : UInt32.ofNat id = opId
    · cases hc : r.confirm with
      | true => exact .inr (.inl ⟨code, if_pos hid, rfl, if_pos ⟨hid, rfl⟩⟩)
      | false => exact .inl ⟨.inl rfl, if_neg fun h => by cases h.2⟩
    · exact .inl ⟨.inr (if_neg hid), if_neg fun h => hid h.1⟩
  | frame f =>
    simp only [Reception.hear]
    split
    · split
      · exact .inl ⟨.inr rfl, rfl⟩
      · rename_i e _
        split
        · rename_i h
          exact .inr (.inr ⟨rfl, e, h.2.2, rfl⟩)
        · exact .inl ⟨.inr rfl, rfl⟩
    · exact .inl ⟨.inr rfl, rfl⟩

theorem Reception.Used.hear (h : r.Used) (m : Incoming) : (r.hear opId callId m).Used := by
  obtain ⟨-, he⟩ | ⟨code, -, -, he⟩ | ⟨-, e, -, he⟩ := hear_cases opId callId r m
  · rwa [he]
  · rw [he]
    exact ⟨fun _ => rfl, h.got⟩
  · rw [he]
    exact ⟨h.ack, fun _ => rfl⟩

/-- What came stays. -/
theorem hear_keeps (h : r.Used) (m : Incoming) :
    (∀ a, r.ack = some a → (r.hear opId callId m).ack = some a) ∧
      ∀ e, r.got = some e → (r.hear opId callId m).got = some e := by
  obtain ⟨-, he⟩ | ⟨code, -, hc, he⟩ | ⟨-, e, hc, he⟩ := hear_cases opId callId r m
  · rw [he]
    exact ⟨fun _ ha => ha, fun _ hg => hg⟩
  · rw [he]
    refine ⟨fun a ha => ?_, fun _ hg => hg⟩
    rw [h.ack (by rw [ha]; rfl)] at hc
    cases hc
  · rw [he]
    refine ⟨fun _ ha => ha, fun e hg => ?_⟩
    rw [h.got (by rw [hg]; rfl)] at hc
    cases hc

/-- So a call that can return returns the same later. -/
def Steady (poll : Reception → Option (Except RpcError RpcEvent)) : Prop :=
  ∀ r r' res, (∀ a, r.ack = some a → r'.ack = some a) → (∀ e, r.got = some e → r'.got = some e) →
    poll r = some res → poll r' = some res

theorem steady_sync : Steady SyncRpc.poll := by
  intro r r' res _ hgot h
  obtain ⟨e, he, ho⟩ := Option.bind_eq_some_iff.mp h
  exact Option.bind_eq_some_iff.mpr ⟨e, hgot e he, ho⟩

theorem steady_async (qos : QoS) : Steady (AsyncRpc.poll qos) := by
  intro r r' res hack hgot h
  unfold AsyncRpc.poll at h ⊢
  split at h
  · rename_i hq
    rw [if_pos hq]
    split at h
    · cases h
    · rename_i e ha
      rwa [hack _ ha]
    · rename_i ha
      rw [hack _ ha]
      exact steady_sync r r' res hack hgot h
  · rename_i hq
    rw [if_neg hq]
    exact steady_sync r r' res hack hgot h

theorem poll_foldl (hpoll : Steady poll) :
    ∀ (ms : List Incoming) {r : Reception} {res : Except RpcError RpcEvent},
    r.Used → poll r = some res → poll (ms.foldl (·.hear opId callId ·) r) = some res
  | [], _, _, _, h => h
  | m :: ms, _, _, hu, h =>
    have hk := hear_keeps hu m
    poll_foldl hpoll ms (hu.hear m) (hpoll _ _ _ hk.1 hk.2 h)

/-- **When a call looks does not matter.** -/
theorem listen_eq (hpoll : Steady poll) : ∀ (ms : List Incoming) {r : Reception}, r.Used →
    listen poll opId callId ms r = poll (ms.foldl (·.hear opId callId ·) r)
  | [], _, _ => rfl
  | m :: ms, r, hu => by
    rw [listen]
    split
    · rename_i res hres
      exact (poll_foldl hpoll (m :: ms) hu hres).symm
    · exact listen_eq hpoll ms (hu.hear m)

/-- Without its sender the channel of the confirmation is as it is. -/
theorem ack_foldl_closed : ∀ (ms : List Incoming) {r : Reception}, r.confirm = false →
    (ms.foldl (·.hear opId callId ·) r).ack = r.ack
  | [], _, _ => rfl
  | m :: ms, r, hc => by
    have hstep : (r.hear opId callId m).confirm = false ∧ (r.hear opId callId m).ack = r.ack := by
      obtain ⟨-, he⟩ | ⟨code, -, hc', -⟩ | ⟨-, e, -, he⟩ := hear_cases opId callId r m
      · rw [he]
        exact ⟨hc, rfl⟩
      · rw [hc] at hc'
        cases hc'
      · rw [he]
        exact ⟨hc, rfl⟩
    exact (ack_foldl_closed ms hstep.1).trans hstep.2

/-- With it the first acknowledgement comes through. -/
theorem ack_foldl_open : ∀ (ms : List Incoming) {r : Reception}, r.confirm = true → r.ack = none →
    (ms.foldl (·.hear opId callId ·) r).ack = (ms.findSome? (·.ackOf opId)).map toBusrtResult
  | [], _, _, ha => ha
  | m :: ms, r, hc, ha => by
    rw [List.foldl_cons, List.findSome?_cons]
    obtain ⟨hn, he⟩ | ⟨code, hn, -, he⟩ | ⟨hn, e, -, he⟩ := hear_cases opId callId r m
    · rw [hn.resolve_left (by rw [hc]; nofun), he]
      exact ack_foldl_open ms hc ha
    · rw [hn, he]
      exact ack_foldl_closed ms rfl
    · rw [hn, he]
      exact ack_foldl_open ms hc ha

end Hear

/-! ### The two calls -/

/-- The error of a reply has data, and be they empty; that of an acknowledgement has none. -/
theorem outcome_ne_bus (e : RpcEvent) (err : Error) : e.outcome ≠ some (.error err.toRpcError) := by
  intro h
  obtain ⟨x, hx, hres⟩ := Option.map_eq_some_iff.mp h
  unfold RpcError.tryFrom at hx
  split at hx
  · obtain ⟨code, -, hx⟩ := Option.bind_eq_some_iff.mp hx
    obtain ⟨data, -, rfl⟩ := Option.map_eq_some_iff.mp hx
    exact absurd (congrArg RpcError.data (Except.error.inj hres)) (Option.some_ne_none data)
  · cases hx
    cases hres

/-- **A call of either client**: both write the same, and the sync client returns what the async one
returns, exactly unless the request is refused. -/
theorem same_outcome_iff (opId callId : UInt32) (target method : String) (params : List UInt8)
    (qos : QoS) (ms : List Incoming) :
    (SyncRpc.call opId callId target method params qos ms).1 =
      (AsyncRpc.call opId callId target method params qos ms).1 ∧
    ((∀ res, (AsyncRpc.call opId callId target method params qos ms).2 = some res →
        (SyncRpc.call opId callId target method params qos ms).2 = some res) ↔
          ¬ Refused opId qos ms) := by
  refine ⟨bytes_sync _ _, ?_⟩
  have hasync : (AsyncRpc.call opId callId target method params qos ms).2 =
      AsyncRpc.poll qos (ms.foldl (·.hear opId callId ·) (.sent qos)) :=
        listen_eq (steady_async qos) ms (.sent qos)
  have hsync : (SyncRpc.call opId callId target method params qos ms).2 =
      SyncRpc.poll (ms.foldl (·.hear opId callId ·) (.sent qos)) :=
        listen_eq steady_sync ms (.sent qos)
  rw [hasync, hsync]
  cases hq : qos.needsAck with
  | false =>
    refine iff_of_true (fun res h => ?_) fun h => by rw [Refused, hq] at h; cases h.1
    rwa [AsyncRpc.poll, hq, if_neg Bool.false_ne_true] at h
  | true =>
    have hack : (ms.foldl (fun r m => r.hear opId callId m) (Reception.sent qos)).ack = _ :=
      ack_foldl_open ms hq rfl
    rw [AsyncRpc.poll, hq, if_pos rfl, hack, Refused, hq]
    cases hf : ms.findSome? (·.ackOf opId) with
    | none => exact iff_of_true nofun fun h => by obtain ⟨-, code, hcode, -⟩ := h; cases hcode
    | some code =>
      rw [Option.map_some, toBusrtResult]
      by_cases hok : code = RESPONSE_OK
      · rw [if_pos hok]
        refine iff_of_true (fun res h => h) fun h => ?_
        obtain ⟨-, code', hcode, hne⟩ := h
        cases hcode
        exact hne hok
      · rw [if_neg hok]
        refine iff_of_false (fun h => ?_) fun h => h ⟨rfl, code, rfl, hok⟩
        obtain ⟨e, -, he⟩ := Option.bind_eq_some_iff.mp (h _ rfl)
        exact outcome_ne_bus e _ he

namespace Refusals

/-- The acknowledgement: the target is not registered. -/
def refused : List Incoming := [.ack 1 ErrorKind.notRegistered.code]

/-- A reply to the call that comes all the same. -/
def late : FrameData := ⟨.message, some "w", none, none, [119, 0, RPC_REPLY, 1, 0, 0, 0], 2, false⟩

end Refusals

open Refusals in
/-- A call to a target that is not registered: the async client returns the error, the sync client
waits, or returns a reply. -/
theorem refused_waits :
    (AsyncRpc.call 1 1 "w" "m" [] .processed refused).2 = some (.error ⟨-32113, none⟩) ∧
    (SyncRpc.call 1 1 "w" "m" [] .processed refused).2 = none ∧
    (AsyncRpc.call 1 1 "w" "m" [] .processed (refused ++ [.frame late])).2 =
      some (.error ⟨-32113, none⟩) ∧
    (SyncRpc.call 1 1 "w" "m" [] .processed (refused ++ [.frame late])).2 =
      some (.ok ⟨.reply, late, 5, false⟩) :=
  ⟨rfl, rfl, rfl, rfl⟩

end Busrt
