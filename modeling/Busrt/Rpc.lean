/-
# RPC frames

Calls, notifications and replies are messages whose first bytes say what they
are: a kind, for a call the id and the method, for a reply the id of its call,
and for an error reply its code. A sender hands these bytes to `zc_send` as a
header of their own. An inter-thread recipient gets the frame with that header,
everybody else gets header and payload as one payload, and `RpcEvent` reads
both: two computations of the same positions (`carries_of_parts`).

An accessor of an event slices its frame. What the slices cannot do is written
as `none` here. For the events that `try_from` makes it does not happen to an
accessor that is for their kind (`accessors_defined`), but there is no room for
a method in a notification, and mostly none in a reply (`safe_iff`).

Key definitions: `RpcEvent`, `RpcEvent.tryFrom`, `RpcMsg`, `RpcEvent.Carries`, `RpcEvent.Safe`.
Key theorems: `tryFrom_cases`, `safe_iff`, `carries_of_parts`.
-/
import Busrt.Encode

namespace Busrt

open Lib

/-! ### Events -/

def RPC_NOTIFICATION : UInt8 := 0x00
def RPC_REQUEST : UInt8 := 0x01
def RPC_REPLY : UInt8 := 0x11
def RPC_ERROR : UInt8 := 0x12

/-- `RpcEventKind`. -/
inductive RpcEventKind
  | notification | request | reply | errorReply
  deriving DecidableEq, Repr

/-- `RpcEvent`. -/
structure RpcEvent where
  kind : RpcEventKind
  frame : FrameData
  payloadPos : ℕ
  useHeader : Bool
  deriving DecidableEq, Repr

/-- `s[i..j]`, which panics where this is `none`. -/
def slice (s : List UInt8) (i j : ℕ) : Option (List UInt8) :=
  if i ≤ j ∧ j ≤ s.length then some ((s.drop i).take (j - i)) else none

namespace RpcEvent

/-- `RpcEvent::sender`: the frames that carry events have one. -/
def sender (e : RpcEvent) : Option String := e.frame.sender

/-- `RpcEvent::payload`. -/
def payload (e : RpcEvent) : Option (List UInt8) :=
  slice e.frame.payload e.payloadPos e.frame.payload.length

/-- Where the kind and what belongs to it stand. -/
def body (e : RpcEvent) : Option (List UInt8) :=
  if e.useHeader then e.frame.header else some e.frame.payload

/-- `RpcEvent::id`. -/
def id (e : RpcEvent) : Option UInt32 :=
  e.body.bind fun b => (slice b 1 5).map fun bs => UInt32.ofNat (ofLe bs)

/-- `RpcEvent::method`. Where `payload_pos - 1` is below zero there is no slice either. -/
def method (e : RpcEvent) : Option (List UInt8) :=
  if e.useHeader then e.frame.header.bind fun h => slice h 5 (h.length - 1)
  else slice e.frame.payload 5 (e.payloadPos - 1)

/-- `RpcEvent::is_response_required`. -/
def isResponseRequired (e : RpcEvent) : Option Bool := e.id.map (· != 0)

/-- `RpcEvent::parse_method`; the text of the error is left out. -/
def parseMethod (e : RpcEvent) : Option (Except Error String) :=
  e.method.map fun m => (fromUtf8 m).mapError fun kind => ⟨kind, none⟩

/-- `RpcEvent::code`. -/
def code (e : RpcEvent) : Option Int16 :=
  if e.kind = .errorReply then
    e.body.bind fun b => (slice b 5 7).map fun bs => (UInt16.ofNat (ofLe bs)).toInt16
  else some 0

/-- `RpcEvent::try_from`, once it is known where to look. -/
def parse (frame : FrameData) (body : List UInt8) (useHeader : Bool) : Except Error RpcEvent :=
  match body with
  | [] => .error ⟨.data, some "Empty RPC frame"⟩
  | k :: _ =>
    if k = RPC_NOTIFICATION then .ok ⟨.notification, frame, if useHeader then 0 else 1, false⟩
    else if k = RPC_REQUEST then
      if body.length < 6 then .error ⟨.data, some "Invalid RPC frame"⟩
      else if useHeader then .ok ⟨.request, frame, 0, true⟩
      else
        let (method, rest) := splitZero (body.drop 5)
        if rest.isNone then .error ⟨.data, some "No RPC params block"⟩
        else .ok ⟨.request, frame, 6 + method.length, false⟩
    else if k = RPC_REPLY then
      if body.length < 5 then .error ⟨.data, some "Invalid RPC frame"⟩
      else .ok ⟨.reply, frame, if useHeader then 0 else 5, useHeader⟩
    else if k = RPC_ERROR then
      if body.length < 7 then .error ⟨.data, some "Invalid RPC frame"⟩
      else .ok ⟨.errorReply, frame, if useHeader then 0 else 7, useHeader⟩
    else .error ⟨.data, some ("Unsupported RPC frame code " ++ toString k.toNat)⟩

/-- `RpcEvent::try_from`. -/
def tryFrom (frame : FrameData) : Except Error RpcEvent :=
  match frame.header with
  | some h => parse frame h true
  | none => parse frame frame.payload false

end RpcEvent

/-- `RpcError`. -/
structure RpcError where
  code : Int16
  data : Option (List UInt8)
  deriving DecidableEq

/-- `RpcError::try_from`. -/
def RpcError.tryFrom (e : RpcEvent) : Option (Except Error RpcError) :=
  if e.kind = .errorReply then
    e.code.bind fun code => e.payload.map fun data => .ok ⟨code, some data⟩
  else some (.error ⟨.data, some "not a RPC error"⟩)

/-! ### What the RPC layer sends -/

/-- `prepare_call_payload`. -/
def prepareCallPayload (method : String) (idBytes : List UInt8) : List UInt8 :=
  RPC_REQUEST :: idBytes ++ utf8 method ++ [0]

/-- The messages of the RPC layer. -/
inductive RpcMsg
  | notification (data : List UInt8)
  | call (id : UInt32) (method : String) (params : List UInt8)
  | call0 (method : String) (params : List UInt8)
  | reply (id : UInt32) (result : Option (List UInt8))
  | errorReply (id : UInt32) (e : RpcError)
  deriving DecidableEq

namespace RpcMsg

/-- The first argument of `zc_send` after the target. -/
def header : RpcMsg → List UInt8
  | notification _ => [RPC_NOTIFICATION]
  | call id method _ => prepareCallPayload method (toLe 4 id.toNat)
  | call0 method _ => prepareCallPayload method [0, 0, 0, 0]
  | reply id _ => RPC_REPLY :: toLe 4 id.toNat
  | errorReply id e => RPC_ERROR :: toLe 4 id.toNat ++ toLe 2 e.code.toUInt16.toNat

/-- The second: what is absent is sent as empty. -/
def payload : RpcMsg → List UInt8
  | notification data => data
  | call _ _ params | call0 _ params => params
  | reply _ result => result.getD []
  | errorReply _ e => e.data.getD []

def kind : RpcMsg → RpcEventKind
  | notification _ => .notification
  | call .. | call0 .. => .request
  | reply .. => .reply
  | errorReply .. => .errorReply

/-- The id; a notification has none. -/
def id : RpcMsg → Option UInt32
  | notification _ => none
  | call id _ _ | reply id _ | errorReply id _ => some id
  | call0 .. => some 0

def method : RpcMsg → Option String
  | call _ method _ | call0 method _ => some method
  | _ => none

def code : RpcMsg → Int16
  | errorReply _ e => e.code
  | _ => 0

end RpcMsg

/-- An event gives back what the sender put in. -/
structure RpcEvent.Carries (e : RpcEvent) (m : RpcMsg) : Prop where
  kind : e.kind = m.kind
  payload : e.payload = some m.payload
  id : ∀ i, m.id = some i → e.id = some i
  method : ∀ s, m.method = some s → e.method = some (utf8 s)
  code : e.code = some m.code
  error : ∀ id err, m = .errorReply id err →
    RpcError.tryFrom e = some (.ok ⟨err.code, some (err.data.getD [])⟩)

/-! ### Slices -/

theorem slice_all (s : List UInt8) : slice s 0 s.length = some s := by simp [slice]

/-- A slice between two parts. -/
theorem slice_append {a b c : List UInt8} {i j : ℕ} (hi : a.length = i) (hj : i + b.length = j) :
    slice (a ++ b ++ c) i j = some b := by
  subst hi hj
  rw [slice, if_pos ⟨by omega, by simp⟩, List.append_assoc, List.drop_left, Nat.add_sub_cancel_left,
    List.take_left]

theorem slice_drop {a b : List UInt8} {i j : ℕ} (hi : a.length = i) (hj : i + b.length = j) :
    slice (a ++ b) i j = some b := by
  have h := slice_append (c := []) hi hj
  rwa [List.append_nil] at h

/-- A code comes back from its bytes. -/
theorem toInt16_ofLe (code : Int16) :
    (UInt16.ofNat (ofLe (toLe 2 code.toUInt16.toNat))).toInt16 = code := by
  have hlt : code.toUInt16.toNat < 256 ^ 2 := code.toUInt16.toNat_lt
  rw [ofLe_toLe, Nat.mod_eq_of_lt hlt, UInt16.ofNat_toNat, Int16.toInt16_toUInt16]

/-! ### The events that are made -/

/-- Everything `try_from` can make of a frame. -/
inductive Made (f : FrameData) (e : RpcEvent) : Prop
  | notification (hk : e.kind = .notification)
  | request (hk : e.kind = .request) (b : List UInt8) (hb : e.body = some b) (hl : 6 ≤ b.length)
      (hm : e.useHeader = false → 6 ≤ e.payloadPos)
  | reply (hk : e.kind = .reply) (b : List UInt8) (hb : e.body = some b) (hl : 5 ≤ b.length)
  | errorReply (hk : e.kind = .errorReply) (b : List UInt8) (hb : e.body = some b)
      (hl : 7 ≤ b.length)

theorem parse_cases {f : FrameData} {body : List UInt8} {useHeader : Bool} {e : RpcEvent}
    (hbody : (if useHeader then f.header else some f.payload) = some body)
    (h : RpcEvent.parse f body useHeader = .ok e) :
    e.frame = f ∧ e.payloadPos ≤ f.payload.length ∧ Made f e := by
  have hflat : useHeader = false → f.payload = body := by
    rintro rfl
    exact Option.some.inj hbody
  unfold RpcEvent.parse at h
  split at h
  · cases h
  · rename_i k rest
    have hpos : ∀ n, n ≤ (k :: rest).length → (if useHeader then 0 else n) ≤ f.payload.length := by
      intro n hn
      cases useHeader with
      | true => exact Nat.zero_le _
      | false => rw [hflat rfl]; exact hn
    split at h
    · cases h
      exact ⟨rfl, hpos 1 (by simp), .notification rfl⟩
    · split at h
      · split at h
        · cases h
        · rename_i hl
          split at h
          · rename_i hu
            cases h
            exact ⟨rfl, Nat.zero_le _,
              .request rfl _ (by rw [← hbody, hu]; rfl) (not_lt.mp hl) nofun⟩
          · rename_i hu
            have hu : useHeader = false := by simpa using hu
            simp only at h
            split at h
            · cases h
            · rename_i hr
              cases h
              rcases hz : splitZero ((k :: rest).drop 5) with ⟨method, _ | tail⟩
              · rw [hz] at hr
                exact absurd rfl hr
              · have hlen := congrArg List.length (splitZero_some hz).1
                simp only [List.length_drop, List.length_append, List.length_cons] at hlen
                refine ⟨rfl, ?_, .request rfl _ (hu ▸ hbody) (not_lt.mp hl) fun _ =>
                  Nat.le_add_right _ _⟩
                rw [hflat hu, List.length_cons]
                simp only
                omega
      · split at h
        · split at h
          · cases h
          · rename_i hl
            cases h
            exact ⟨rfl, hpos 5 (not_lt.mp hl), .reply rfl _ hbody (not_lt.mp hl)⟩
        · split at h
          · split at h
            · cases h
            · rename_i hl
              cases h
              exact ⟨rfl, hpos 7 (not_lt.mp hl), .errorReply rfl _ hbody (not_lt.mp hl)⟩
          · cases h

theorem tryFrom_cases {f : FrameData} {e : RpcEvent} (h : RpcEvent.tryFrom f = .ok e) :
    e.frame = f ∧ e.payloadPos ≤ f.payload.length ∧ Made f e := by
  unfold RpcEvent.tryFrom at h
  split at h
  · rename_i b hb
    exact parse_cases (by rw [if_pos rfl, hb]) h
  · exact parse_cases (by rw [if_neg Bool.false_ne_true]) h

/-- No accessor of an event that was made panics, for the kinds it is for. -/
theorem accessors_defined {f : FrameData} {e : RpcEvent} (h : RpcEvent.tryFrom f = .ok e) :
    e.payload.isSome = true ∧ e.code.isSome = true ∧ (e.kind ≠ .notification → e.id.isSome = true) ∧
      (e.kind = .request → e.method.isSome = true) := by
  have hslice : ∀ {b : List UInt8} {i j : ℕ}, i ≤ j → j ≤ b.length → ∃ s, slice b i j = some s := by
    intro b i j hij hj
    exact ⟨_, if_pos ⟨hij, hj⟩⟩
  have hid : ∀ {b : List UInt8}, e.body = some b → 5 ≤ b.length → e.id.isSome = true := by
    intro b hb hl
    obtain ⟨s, hs⟩ := hslice (show 1 ≤ 5 by omega) hl
    rw [RpcEvent.id, hb, Option.bind_some, hs]
    rfl
  obtain ⟨rfl, hp, hmade⟩ := tryFrom_cases h
  refine ⟨?_, ?_, ?_, ?_⟩
  · obtain ⟨s, hs⟩ := hslice hp le_rfl
    rw [RpcEvent.payload, hs]
    rfl
  · by_cases hk : e.kind = .errorReply
    · cases hmade with
      | errorReply _ b hb hl =>
        obtain ⟨s, hs⟩ := hslice (show 5 ≤ 7 by omega) hl
        rw [RpcEvent.code, if_pos hk, hb, Option.bind_some, hs]
        rfl
      | notification hk' => rw [hk] at hk'; cases hk'
      | request hk' => rw [hk] at hk'; cases hk'
      | reply hk' => rw [hk] at hk'; cases hk'
    · rw [RpcEvent.code, if_neg hk]
      rfl
  · intro hk
    cases hmade with
    | notification hk' => exact absurd hk' hk
    | request _ b hb hl => exact hid hb (by omega)
    | reply _ b hb hl => exact hid hb hl
    | errorReply _ b hb hl => exact hid hb (by omega)
  · intro hk
    cases hmade with
    | request _ b hb hl hm =>
      rw [RpcEvent.method]
      rw [RpcEvent.body] at hb
      split
      · rename_i hu
        rw [if_pos hu] at hb
        obtain ⟨s, hs⟩ := hslice (show 5 ≤ b.length - 1 by omega) (Nat.sub_le _ _)
        rw [hb, Option.bind_some, hs]
        rfl
      · rename_i hu
        have hpos := hm (by simpa using hu)
        obtain ⟨s, hs⟩ :=
          hslice (b := e.frame.payload) (show 5 ≤ e.payloadPos - 1 by omega) (by omega)
        rw [hs]
        rfl
    | notification hk' => rw [hk] at hk'; cases hk'
    | reply hk' => rw [hk] at hk'; cases hk'
    | errorReply hk' => rw [hk] at hk'; cases hk'

/-- No accessor of the event panics. -/
structure RpcEvent.Safe (e : RpcEvent) : Prop where
  payload : e.payload.isSome = true
  id : e.id.isSome = true
  isResponseRequired : e.isResponseRequired.isSome = true
  method : e.method.isSome = true
  parseMethod : e.parseMethod.isSome = true
  code : e.code.isSome = true

/-- A request, an error reply, or a reply with a header that goes on after the id. -/
def Accessible (f : FrameData) : Prop :=
  (f.header.getD f.payload).head? = some RPC_REQUEST ∨
    (f.header.getD f.payload).head? = some RPC_ERROR ∨
    ((f.header.getD f.payload).head? = some RPC_REPLY ∧ ∃ h, f.header = some h ∧ 6 ≤ h.length)

/-- The payload and the code are always there, and two accessors are others over again. -/
theorem safe_of_tryFrom {f : FrameData} {e : RpcEvent} (h : RpcEvent.tryFrom f = .ok e) :
    e.Safe ↔ e.id.isSome = true ∧ e.method.isSome = true := by
  obtain ⟨hp, hc, _, _⟩ := accessors_defined h
  refine ⟨fun hs => ⟨hs.id, hs.method⟩, ?_⟩
  rintro ⟨hid, hm⟩
  exact ⟨hp, hid, by rwa [RpcEvent.isResponseRequired, Option.isSome_map], hm,
    by rwa [RpcEvent.parseMethod, Option.isSome_map], hc⟩

theorem isSome_slice {s : List UInt8} {i j : ℕ} :
    (slice s i j).isSome = true ↔ i ≤ j ∧ j ≤ s.length := by
  unfold slice
  split
  · exact iff_of_true rfl ‹_›
  · exact iff_of_false Bool.false_ne_true ‹_›

/-- There is room for a method in a header. -/
theorem isSome_method_header {e : RpcEvent} {h : List UInt8} (hu : e.useHeader = true)
    (hh : e.frame.header = some h) :
    e.method.isSome = true ↔ 6 ≤ h.length := by
  rw [RpcEvent.method, if_pos hu, hh, Option.bind_some, isSome_slice]
  omega

/-- There is room for one before the payload of the event. -/
theorem isSome_method_flat {e : RpcEvent} (hu : e.useHeader = false)
    (hp : e.payloadPos ≤ e.frame.payload.length) :
    e.method.isSome = true ↔ 6 ≤ e.payloadPos := by
  rw [RpcEvent.method, if_neg (by rw [hu]; exact Bool.false_ne_true), isSome_slice]
  omega

/-- By the first byte, what is made of a frame. -/
theorem parse_ok {f : FrameData} {body : List UInt8} {useHeader : Bool} {e : RpcEvent}
    (h : RpcEvent.parse f body useHeader = .ok e) :
    (body.head? = some RPC_NOTIFICATION ∧
      e = ⟨.notification, f, if useHeader then 0 else 1, false⟩) ∨
    (body.head? = some RPC_REQUEST ∧ e.kind = .request) ∨
    (body.head? = some RPC_REPLY ∧ e = ⟨.reply, f, if useHeader then 0 else 5, useHeader⟩) ∨
    (body.head? = some RPC_ERROR ∧ 7 ≤ body.length ∧
      e = ⟨.errorReply, f, if useHeader then 0 else 7, useHeader⟩) := by
  cases body with
  | nil => cases h
  | cons k rest =>
    rw [RpcEvent.parse] at h
    by_cases hn : k = RPC_NOTIFICATION
    · rw [if_pos hn] at h
      exact .inl ⟨congrArg some hn, (Except.ok.inj h).symm⟩
    · rw [if_neg hn] at h
      by_cases hq : k = RPC_REQUEST
      · rw [if_pos hq] at h
        refine .inr (.inl ⟨congrArg some hq, ?_⟩)
        split at h
        · cases h
        · split at h
          · cases h
            rfl
          · simp only at h
            split at h
            · cases h
            · cases h
              rfl
      · rw [if_neg hq] at h
        by_cases hr : k = RPC_REPLY
        · rw [if_pos hr] at h
          split at h
          · cases h
          · exact .inr (.inr (.inl ⟨congrArg some hr, (Except.ok.inj h).symm⟩))
        · rw [if_neg hr] at h
          split at h
          · rename_i he
            split at h
            · cases h
            · rename_i hl
              exact .inr (.inr (.inr ⟨congrArg some he, not_lt.mp hl, (Except.ok.inj h).symm⟩))
          · cases h

/-- A frame that is refused is refused as bad data. -/
theorem parse_error {f : FrameData} {body : List UInt8} {useHeader : Bool} {e : Error}
    (h : RpcEvent.parse f body useHeader = .error e) : e.kind = .data := by
  unfold RpcEvent.parse at h
  split at h
  · cases h
    rfl
  · simp only at h
    split_ifs at h <;> cases h <;> rfl

theorem tryFrom_eq (f : FrameData) :
    RpcEvent.tryFrom f = RpcEvent.parse f (f.header.getD f.payload) f.header.isSome := by
  unfold RpcEvent.tryFrom
  split
  · rename_i hd hh
    rw [hh]
    rfl
  · rename_i hh
    rw [hh]
    rfl

/-- **The accessors of an event stay in its frame iff the frame is a request, an error reply, or a
reply with a longer header than it needs**: there is no room for a method in the others. -/
theorem safe_iff (f : FrameData) :
    (∀ e, RpcEvent.tryFrom f = .ok e → (e.Safe ↔ Accessible f)) ∧
      ((∃ e, RpcEvent.tryFrom f = .ok e) ∨ ∃ e, RpcEvent.tryFrom f = .error e ∧
        e.kind = .data) := by
  constructor
  · intro e h
    obtain ⟨_, _, hid, hm⟩ := accessors_defined h
    obtain ⟨hf, hpos, _⟩ := tryFrom_cases h
    have hflat := fun hu : e.useHeader = false => isSome_method_flat hu (hf.symm ▸ hpos)
    rw [safe_of_tryFrom h]
    rw [tryFrom_eq] at h
    obtain ⟨hb, he⟩ | ⟨hb, hk⟩ | ⟨hb, he⟩ | ⟨hb, hl, he⟩ := parse_ok h
    · have hno : ¬Accessible f := by
        simp [Accessible, hb, RPC_NOTIFICATION, RPC_REQUEST, RPC_ERROR, RPC_REPLY]
      have hlow : ¬6 ≤ e.payloadPos := by
        rw [he]
        show ¬6 ≤ if f.header.isSome = true then 0 else 1
        split <;> omega
      exact iff_of_false (fun hs => hlow ((hflat (by rw [he])).mp hs.2)) hno
    · exact iff_of_true ⟨hid (by rw [hk]; decide), hm hk⟩ (.inl hb)
    · have hk : e.kind = .reply := by rw [he]
      have hid := hid (by rw [hk]; decide)
      have hacc : Accessible f ↔ ∃ h, f.header = some h ∧ 6 ≤ h.length := by
        simp [Accessible, hb, RPC_REQUEST, RPC_ERROR, RPC_REPLY]
      rw [hacc, and_iff_right hid]
      cases hh : f.header with
      | none =>
        have hu : e.useHeader = false := by rw [he, hh]; rfl
        have hp : e.payloadPos = 5 := by rw [he, hh]; rfl
        rw [hflat hu, hp]
        exact iff_of_false (by omega) fun ⟨_, h', _⟩ => by cases h'
      | some hd =>
        have hu : e.useHeader = true := by rw [he, hh]; rfl
        rw [isSome_method_header hu (hf.symm ▸ hh)]
        simp
    · have hk : e.kind = .errorReply := by rw [he]
      refine iff_of_true ⟨hid (by rw [hk]; decide), ?_⟩ (.inr (.inl hb))
      cases hh : f.header with
      | none =>
        have hu : e.useHeader = false := by rw [he, hh]; rfl
        have hp : e.payloadPos = 7 := by rw [he, hh]; rfl
        rw [hflat hu, hp]
        omega
      | some hd =>
        have hu : e.useHeader = true := by rw [he, hh]; rfl
        rw [hh, Option.getD_some] at hl
        rw [isSome_method_header hu (hf.symm ▸ hh)]
        omega
  · rw [tryFrom_eq]
    cases h : RpcEvent.parse f (f.header.getD f.payload) f.header.isSome with
    | ok e => exact .inl ⟨e, rfl⟩
    | error e => exact .inr ⟨e, rfl, parse_error h⟩

/-- A notification of one byte. -/
def bareNotification : FrameData :=
  ⟨.message, some "w", none, none, [119, 0, RPC_NOTIFICATION], 2, false⟩

/-- Its event has no id and no method. -/
theorem bareNotification_unsafe :
    RpcEvent.tryFrom bareNotification = .ok ⟨.notification, bareNotification, 1, false⟩ ∧
    ¬RpcEvent.Safe ⟨.notification, bareNotification, 1, false⟩ :=
  ⟨rfl, fun h => absurd h.method (by decide)⟩

/-! ### Both forms are read alike -/

/-- What is found in the bytes of a message, whatever follows its header. -/
theorem parse_msg {m : RpcMsg} (hm : ∀ s, m.method = some s → NulFree s) (f : FrameData)
    (rest : List UInt8) (useHeader : Bool) : RpcEvent.parse f (m.header ++ rest) useHeader =
      .ok ⟨m.kind, f, if useHeader then 0 else m.header.length,
        useHeader && m.kind != .notification⟩ := by
  have hreq : ∀ (idBytes : List UInt8) (method : String), idBytes.length = 4 → NulFree method →
      RpcEvent.parse f (prepareCallPayload method idBytes ++ rest) useHeader =
        .ok ⟨.request, f, if useHeader then 0 else (prepareCallPayload method idBytes).length,
          useHeader⟩ := by
    intro idBytes method hid hnul
    obtain ⟨i₀, i₁, i₂, i₃, rfl⟩ := List.length_eq_four.mp hid
    have hsplit : splitZero (utf8 method ++ 0 :: rest) = (utf8 method, some rest) :=
      splitZero_append _ hnul rest
    cases useHeader with
    | true =>
      simp [RpcEvent.parse, prepareCallPayload, RPC_REQUEST, RPC_NOTIFICATION]
      omega
    | false =>
      simp [RpcEvent.parse, prepareCallPayload, RPC_REQUEST, RPC_NOTIFICATION, hsplit]
      rw [if_neg (by omega), Nat.add_comm 6]
  cases m with
  | notification data => cases useHeader <;> rfl
  | call id method params =>
    rw [RpcMsg.header, hreq _ _ rfl (hm method rfl)]
    simp [RpcMsg.kind]
  | call0 method params =>
    rw [RpcMsg.header, hreq _ _ rfl (hm method rfl)]
    simp [RpcMsg.kind]
  | reply id result => cases useHeader <;> rfl
  | errorReply id e => cases useHeader <;> rfl

/-- The numbers in the bytes of a message. -/
theorem slices_msg (m : RpcMsg) (rest : List UInt8) :
    (∀ i, m.id = some i →
      (slice (m.header ++ rest) 1 5).map (fun bs => UInt32.ofNat (ofLe bs)) = some i) ∧
    (m.kind = .errorReply →
      (slice (m.header ++ rest) 5 7).map
        (fun bs => (UInt16.ofNat (ofLe bs)).toInt16) = some m.code) ∧
    (∀ s, m.method = some s → slice (m.header ++ rest) 5 (m.header.length - 1) =
      some (utf8 s)) := by
  have hid : ∀ (k : UInt8) (bs tail : List UInt8), bs.length = 4 →
      slice (k :: bs ++ tail) 1 5 = some bs := by
    intro k bs tail hbs
    exact slice_append (a := [k]) rfl (by omega)
  have hmeth : ∀ (bs : List UInt8) (s : String), bs.length = 4 →
      slice (prepareCallPayload s bs ++ rest) 5 ((prepareCallPayload s bs).length - 1) =
        some (utf8 s) := by
    intro bs s hbs
    have h := slice_append (a := RPC_REQUEST :: bs) (b := utf8 s) (c := [0] ++ rest) (i := 5)
      (j := (prepareCallPayload s bs).length - 1) (by simp [hbs])
        (by simp [prepareCallPayload, hbs]; omega)
    simpa [prepareCallPayload] using h
  refine ⟨fun i hi => ?_, fun hk => ?_, fun s hs => ?_⟩
  · cases m with
    | notification data => cases hi
    | call id method params =>
      cases hi
      rw [RpcMsg.header, prepareCallPayload, List.append_assoc, List.append_assoc, hid _ _ _ rfl,
        Option.map_some, ofNat_ofLe]
    | call0 method params =>
      cases hi
      rw [RpcMsg.header, prepareCallPayload, List.append_assoc, List.append_assoc, hid _ _ _ rfl]
      rfl
    | reply id result =>
      cases hi
      rw [RpcMsg.header, hid _ _ _ rfl, Option.map_some, ofNat_ofLe]
    | errorReply id e =>
      cases hi
      rw [RpcMsg.header, List.append_assoc, hid _ _ _ rfl, Option.map_some, ofNat_ofLe]
  · cases m with
    | errorReply id e =>
      rw [RpcMsg.header, slice_append (a := RPC_ERROR :: toLe 4 id.toNat) (i := 5) (j := 7) rfl rfl,
        Option.map_some, toInt16_ofLe]
      rfl
    | _ => cases hk
  · cases m with
    | call id method params =>
      cases hs
      exact hmeth _ _ rfl
    | call0 method params =>
      cases hs
      exact hmeth _ _ rfl
    | _ => cases hs

/-- What the event of a message gives back, in either form. -/
theorem carries_msg {m : RpcMsg} {f : FrameData} (useHeader : Bool) (rest : List UInt8)
    (hbody : m.kind ≠ .notification → (if useHeader then f.header else some f.payload) =
      some (m.header ++ rest))
    (hp : slice f.payload (if useHeader then 0 else m.header.length) f.payload.length =
      some m.payload)
    (hrest : useHeader = true → rest = [])
    (hflat : useHeader = false → f.payload = m.header ++ rest) :
    RpcEvent.Carries ⟨m.kind, f, if useHeader then 0 else m.header.length,
      useHeader && m.kind != .notification⟩ m := by
  obtain ⟨hid, hcode, hmeth⟩ := slices_msg m rest
  have hb : m.kind ≠ .notification →
      RpcEvent.body ⟨m.kind, f, if useHeader then 0 else m.header.length,
        useHeader && m.kind != .notification⟩ = some (m.header ++ rest) := by
    intro hk
    have hk' : (m.kind != .notification) = true := by simpa using hk
    rw [RpcEvent.body, hk', Bool.and_true]
    exact hbody hk
  have hc : RpcEvent.code ⟨m.kind, f, if useHeader then 0 else m.header.length,
      useHeader && m.kind != .notification⟩ =
      some m.code := by
    by_cases hk : m.kind = .errorReply
    · rw [RpcEvent.code, if_pos hk, hb (by rw [hk]; decide), Option.bind_some, hcode hk]
    · rw [RpcEvent.code, if_neg hk]
      cases m with
      | errorReply id e => exact absurd rfl hk
      | _ => rfl
  refine ⟨rfl, hp, fun i hi => ?_, fun s hs => ?_, hc, ?_⟩
  · have hk : m.kind ≠ .notification := by
      cases m with
      | notification data => cases hi
      | _ => exact nofun
    rw [RpcEvent.id, hb hk, Option.bind_some, hid i hi]
  · have hk : m.kind = .request := by
      cases m with
      | call id method params => rfl
      | call0 method params => rfl
      | _ => cases hs
    have hm := hmeth s hs
    rw [RpcEvent.method, hk]
    cases useHeader with
    | true =>
      have hh := hbody (by rw [hk]; decide)
      rw [hrest rfl, List.append_nil] at hh hm
      simp only [if_true] at hh
      simpa [hh] using hm
    | false =>
      rw [← hflat rfl] at hm
      simpa using hm
  · rintro id err rfl
    refine (if_pos rfl).trans ?_
    rw [hc, Option.bind_some]
    exact congrArg (Option.map fun data => Except.ok (RpcError.mk err.code (some data))) hp

/-- The frame has the parts of the message: its header on its own, or in front of the
payload. -/
def HasParts (f : FrameData) (m : RpcMsg) : Prop :=
  (f.header = some m.header ∧ f.payload = m.payload) ∨
    (f.header = none ∧ f.payload = m.header ++ m.payload)

/-- The event of a message. -/
theorem tryFrom_parts {m : RpcMsg} (hm : ∀ s, m.method = some s → NulFree s) {f : FrameData}
    (hf : HasParts f m) :
    ∃ e, RpcEvent.tryFrom f = .ok e ∧ e.Carries m := by
  obtain ⟨hh, hp⟩ | ⟨hh, hp⟩ := hf
  · have hparse := parse_msg hm f [] true
    rw [List.append_nil] at hparse
    refine ⟨_, ?_, carries_msg (f := f) true [] (fun _ => ?_) ?_ (fun _ => rfl) nofun⟩
    · rw [RpcEvent.tryFrom, hh]
      exact hparse
    · rw [List.append_nil]
      exact hh
    · rw [← hp]
      exact slice_all _
  · refine ⟨_, ?_, carries_msg (f := f) false m.payload (fun _ => ?_) ?_ nofun fun _ => hp⟩
    · rw [RpcEvent.tryFrom, hh]
      simp only
      rw [hp]
      exact parse_msg hm f m.payload false
    · exact congrArg some hp
    · rw [hp]
      exact slice_drop rfl (by simp)

/-- **Zero-copy and flattened frames are read alike**: from a frame with the header on its
own, and from one whose payload starts with it, the same event is made, and it gives
back what was sent. -/
theorem carries_of_parts (m : RpcMsg) (hm : ∀ s, m.method = some s → NulFree s) (f g : FrameData)
    (hf : f.header = some m.header ∧ f.payload = m.payload)
    (hg : g.header = none ∧ g.payload = m.header ++ m.payload) :
    ∃ e e', RpcEvent.tryFrom f = .ok e ∧ RpcEvent.tryFrom g = .ok e' ∧ e.Carries m ∧
      e'.Carries m := by
  obtain ⟨e, he, hc⟩ := tryFrom_parts hm (.inl hf)
  obtain ⟨e', he', hc'⟩ := tryFrom_parts hm (.inr hg)
  exact ⟨e, e', he, he', hc, hc'⟩

namespace Calls

/-- An error reply with data that has a zero byte. -/
def refusal : RpcMsg := .errorReply 7 ⟨-32601, some [1, 0]⟩

/-- It as an inter-thread client gets it, and as it comes from a socket. -/
def direct : FrameData := ⟨.message, some "w", none, some refusal.header, refusal.payload, 0, false⟩
def flattened : FrameData :=
  ⟨.message, some "w", none, none, [119, 0] ++ (refusal.header ++ refusal.payload), 2, false⟩

end Calls

open Calls in
/-- The code and the data come back. -/
theorem carries_of_parts_refusal :
    ∃ e e', RpcEvent.tryFrom direct = .ok e ∧ RpcEvent.tryFrom flattened = .ok e' ∧
    RpcError.tryFrom e = some (.ok ⟨-32601, some [1, 0]⟩) ∧
      RpcError.tryFrom e' = some (.ok ⟨-32601, some [1, 0]⟩) := by
  obtain ⟨e, e', he, he', hc, hc'⟩ :=
    carries_of_parts refusal nofun direct flattened ⟨rfl, rfl⟩ ⟨rfl, rfl⟩
  exact ⟨e, e', he, he', hc.error 7 _ rfl, hc'.error 7 _ rfl⟩

end Busrt
