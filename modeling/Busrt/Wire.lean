/-
# What the broker writes and its clients read

`handle_writer` writes each frame of a client's queue as a header of six bytes
(kind, length, realtime flag) and a body: the sender, the topic of a
publication, each ended by a zero byte, a header if there is one, and the
payload. A prepared frame (an acknowledgement) is written as it is.

`handle_read`, in the async and in the sync client, takes these bytes apart
again. What comes back is what was written as long as the sender's name has
no zero byte and the length fits its four bytes (`handleRead_writer`), and only
then (`intact_iff`): nothing checks a client's name for a zero byte.

Key definitions: `handleWriter`, `FrameData.bytes`, `incoming`, `handleRead`.
Key theorems: `get_data`, `handleRead_writer`, `intact_iff`.
-/
import Mathlib.Data.List.ReduceOption
import Busrt.Peer
import Busrt.Lib.Stream
import Busrt.Lib.Utf8

namespace Busrt

open Lib

/-! ### Text -/

/-- `str::as_bytes`. -/
def utf8 (s : String) : List UInt8 := s.toUTF8.data.toList

theorem utf8_eq_encode (s : String) : utf8 s = encode s.toList := by
  have h : s.toUTF8 = s.toList.utf8Encode := s.utf8Encode_toList.symm
  rw [utf8, h, List.utf8Encode, List.data_toByteArray]
  rfl

/-- No zero byte in it. -/
def NulFree (s : String) : Prop := 0 ∉ utf8 s

instance (s : String) : Decidable (NulFree s) := inferInstanceAs (Decidable (0 ∉ utf8 s))

/-- Text comes back from its bytes. -/
theorem fromUtf8_utf8 (s : String) : fromUtf8 (utf8 s) = .ok s := by
  have hb : (⟨(utf8 s).toArray⟩ : ByteArray) = s.toByteArray := rfl
  rw [fromUtf8, hb, String.fromUTF8?, dif_pos s.isValidUTF8]
  rfl

theorem utf8_inj {s t : String} (h : utf8 s = utf8 t) : s = t := by
  have hb : fromUtf8 (utf8 s) = fromUtf8 (utf8 t) := congrArg fromUtf8 h
  rw [fromUtf8_utf8, fromUtf8_utf8] at hb
  exact Except.ok.inj hb

theorem utf8_of_fromUtf8 {bs : List UInt8} {s : String} (h : fromUtf8 bs = .ok s) :
    utf8 s = bs := by
  unfold fromUtf8 String.fromUTF8? at h
  split at h
  · rename_i s' hs
    split at hs
    · obtain rfl := Option.some.inj hs
      cases h
      rfl
    · cases hs
  · cases h

/-! ### The writer -/

/-- `Flush`. -/
inductive Flush
  | no | scheduled | instant
  deriving DecidableEq, Repr

/-- `Flush::from(realtime)`. -/
def Flush.ofRealtime (realtime : Bool) : Flush := if realtime then .instant else .scheduled

/-- `FrameKind as u8`. -/
def FrameKind.code : FrameKind → UInt8
  | .prepared => 0xff
  | .message => 0x12
  | .broadcast => 0x13
  | .publish => 0x01
  | .acknowledge => 0xFE
  | .nop => 0x00

/-- `FrameKind::try_from`. -/
def FrameKind.tryFrom (code : UInt8) : Except ErrorKind FrameKind :=
  if code = 0x12 then .ok .message
  else if code = 0x13 then .ok .broadcast
  else if code = 0x01 then .ok .publish
  else if code = 0xFE then .ok .acknowledge
  else if code = 0x00 then .ok .nop
  else .error .data

/-- A text with its end, if it is there. -/
def field : Option String → List UInt8
  | some s => utf8 s ++ [0]
  | none => []

namespace FrameData

/-- `frame_len` of `handle_writer`. -/
def frameLen (f : FrameData) : ℕ :=
  let extraLen := (f.sender.map fun s => (utf8 s).length + 1).getD 0
  let extraLen := extraLen + (f.topic.map fun t => (utf8 t).length + 1).getD 0
  let extraLen := extraLen + (f.header.map List.length).getD 0
  extraLen + f.buf.length - f.payloadPos

/-- What a frame is about, after its sender and topic. -/
def content (f : FrameData) : List UInt8 := f.header.getD [] ++ f.payload

end FrameData

/-- `Broker::handle_writer`: the writes of one frame. -/
def handleWriter (f : FrameData) : List (List UInt8 × Flush) :=
  if f.kind = .prepared then [(f.buf, .ofRealtime f.realtime)]
  else
    (f.kind.code :: toLe 4 f.frameLen ++ [if f.realtime then 1 else 0] ++ field f.sender ++
        field f.topic, .no) ::
      (f.header.map fun h => (h, Flush.no)).toList ++ [(f.payload, .ofRealtime f.realtime)]

/-- The bytes of one frame. -/
def FrameData.bytes (f : FrameData) : List UInt8 := (handleWriter f).flatMap (·.1)

/-- A frame's header of six bytes, and its body. -/
theorem bytes_eq {f : FrameData} (hk : f.kind ≠ .prepared) :
    f.bytes = f.kind.code :: toLe 4 f.frameLen ++ [if f.realtime then 1 else 0] ++
      (field f.sender ++ field f.topic ++ f.content) := by
  rw [FrameData.bytes, handleWriter, if_neg hk, FrameData.content]
  cases f.header with
  | none => simp
  | some h => simp

theorem length_field (o : Option String) :
    (field o).length = (o.map fun s => (utf8 s).length + 1).getD 0 := by
  cases o with
  | none => rfl
  | some s => simp [field]

/-- The declared length is the body's. -/
theorem frameLen_eq {f : FrameData} (hp : f.payloadPos ≤ f.buf.length) :
    f.frameLen = (field f.sender ++ field f.topic ++ f.content).length := by
  have hh : (f.header.map List.length).getD 0 = (f.header.getD []).length := by
    cases f.header <;> rfl
  simp only [FrameData.frameLen, FrameData.content, FrameData.payload, List.length_append,
    length_field, hh, List.length_drop]
  omega

/-! ### The readers -/

/-- What a client's reader hands on: an acknowledgement or a frame. -/
inductive Incoming
  | ack (id : ℕ) (code : UInt8)
  | frame (f : FrameData)
  deriving DecidableEq, Repr

/-- The body of a frame. -/
def parseBody (kind : FrameKind) (buf : List UInt8) (realtime : Bool) :
    Except ErrorKind FrameData := do
  let (s, rest) := splitZero buf
  let sender ← fromUtf8 s
  if kind = .publish then
    match rest with
    | none => .error .data
    | some rest =>
      let (t, rest) := splitZero rest
      let topic ← fromUtf8 t
      if rest.isNone then .error .data
      else .ok ⟨kind, some sender, some topic, none, buf, s.length + t.length + 2, realtime⟩
  else if rest.isNone then .error .data
  else .ok ⟨kind, some sender, none, none, buf, s.length + 1, realtime⟩

/-- One round of the loop of `handle_read`: a ping gives nothing. -/
def getIncoming : List UInt8 → Got ErrorKind (Option Incoming)
  | k :: l₀ :: l₁ :: l₂ :: l₃ :: r :: rest =>
    match FrameKind.tryFrom k with
    | .error e => .fail e
    | .ok .nop => .item none rest
    | .ok .acknowledge => .item (some (.ack (ofLe [l₀, l₁, l₂, l₃]) r)) rest
    | .ok kind =>
      let len := ofLe [l₀, l₁, l₂, l₃]
      if rest.length < len then .more
      else match parseBody kind (rest.take len) (r != 0) with
        | .error e => .fail e
        | .ok f => .item (some (.frame f)) (rest.drop len)
  | _ => .more

/-- Everything a round can find. -/
theorem getIncoming_item {bs rest' : List UInt8} {o : Option Incoming}
    (h : getIncoming bs = .item o rest') :
    ∃ k l₀ l₁ l₂ l₃ r rest, bs = k :: l₀ :: l₁ :: l₂ :: l₃ :: r :: rest ∧
      ((o = none ∧ rest' = rest) ∨ (o = some (.ack (ofLe [l₀, l₁, l₂, l₃]) r) ∧ rest' = rest) ∨
        ∃ kind f, FrameKind.tryFrom k = .ok kind ∧ ofLe [l₀, l₁, l₂, l₃] ≤ rest.length ∧
          parseBody kind (rest.take (ofLe [l₀, l₁, l₂, l₃])) (r != 0) = .ok f ∧
            o = some (.frame f) ∧
          rest' = rest.drop (ofLe [l₀, l₁, l₂, l₃])) := by
  unfold getIncoming at h
  split at h
  · rename_i k l₀ l₁ l₂ l₃ r rest
    refine ⟨k, l₀, l₁, l₂, l₃, r, rest, rfl, ?_⟩
    split at h
    · cases h
    · cases h; exact .inl ⟨rfl, rfl⟩
    · cases h; exact .inr (.inl ⟨rfl, rfl⟩)
    · rename_i kind _ _ hk
      simp only at h
      split at h
      · cases h
      · rename_i hlen
        split at h
        · cases h
        · rename_i f hf
          cases h
          exact .inr (.inr ⟨kind, f, hk, not_lt.mp hlen, hf, rfl, rfl⟩)
  · cases h

/-- `handle_read`, one frame at a time. -/
def incoming : Parser ErrorKind (Option Incoming) where
  get := getIncoming
  get_nil := rfl
  item_lt h := by
    obtain ⟨k, l₀, l₁, l₂, l₃, r, rest, rfl, ⟨-, rfl⟩ | ⟨-, rfl⟩ | ⟨kind, f, -, -, -, -, rfl⟩⟩ :=
      getIncoming_item h
    · simp; omega
    · simp; omega
    · simp; omega

/-- `handle_read` on the bytes that have come. -/
def handleRead (bs : List UInt8) : List Incoming × Except ErrorKind (List UInt8) :=
  ((incoming.readAll bs).1.reduceOption, (incoming.readAll bs).2)

/-- `ipc::handle_read`. -/
def Ipc.handleRead (bs : List UInt8) : List Incoming × Except ErrorKind (List UInt8) :=
  Busrt.handleRead bs

/-- `sync::ipc::handle_read`: the same rounds, on a blocking reader. -/
def SyncIpc.handleRead (bs : List UInt8) : List Incoming × Except ErrorKind (List UInt8) :=
  Busrt.handleRead bs

/-! ### What is written comes back -/

/-- A frame that carries data: a message or a broadcast, or a publication with its
topic. -/
structure Data (f : FrameData) : Prop where
  kind : f.kind = .message ∨ f.kind = .broadcast ∨ f.kind = .publish
  sender : f.sender.isSome = true
  topic : f.topic.isSome = decide (f.kind = .publish)
  nulFree : ∀ t, f.topic = some t → NulFree t
  pos : f.payloadPos ≤ f.buf.length

/-- The sender's name has no zero byte, and the length fits its four bytes. -/
def Fits (f : FrameData) : Prop := (∀ s, f.sender = some s → NulFree s) ∧ f.frameLen < 2 ^ 32

/-- What a reader makes of a frame: the same kind, sender, topic and flag, no
header, and for a payload what was the header and the payload. -/
structure Reads (f g : FrameData) : Prop where
  kind : g.kind = f.kind
  sender : g.sender = f.sender
  topic : g.topic = f.topic
  realtime : g.realtime = f.realtime
  header : g.header = none
  payload : g.payload = f.content

theorem tryFrom_code {kind : FrameKind} (h : kind ≠ .prepared) :
    FrameKind.tryFrom kind.code = .ok kind := by
  cases kind with
  | prepared => exact absurd rfl h
  | _ => rfl

/-- The frame as a reader gets it: all of the body, and where its payload starts. -/
def FrameData.flat (f : FrameData) : FrameData :=
  ⟨f.kind, f.sender, f.topic, none, field f.sender ++ field f.topic ++ f.content,
    (field f.sender ++ field f.topic).length, f.realtime⟩

theorem reads_flat (f : FrameData) : Reads f f.flat :=
  ⟨rfl, rfl, rfl, rfl, rfl, by simp [FrameData.payload, FrameData.flat]⟩

/-- A body with a sender whose name has no zero byte. -/
theorem parseBody_data {f : FrameData} (hd : Data f) (hs : ∀ s, f.sender = some s → NulFree s) :
    parseBody f.kind (field f.sender ++ field f.topic ++ f.content) f.realtime = .ok f.flat := by
  obtain ⟨s, hs'⟩ := Option.isSome_iff_exists.mp hd.sender
  have hsplit : ∀ (n : String) (rest : List UInt8), NulFree n →
      splitZero (field (some n) ++ rest) = (utf8 n, some rest) := by
    intro n rest hn
    rw [field, List.append_assoc, List.singleton_append, splitZero_append _ hn]
  have htop := hd.topic
  by_cases hk : f.kind = .publish
  · rw [hk] at htop
    obtain ⟨t, ht⟩ := Option.isSome_iff_exists.mp (htop.trans (by decide))
    rw [FrameData.flat, hs', ht, hk, List.append_assoc]
    simp only [parseBody, hsplit s _ (hs s hs'), hsplit t _ (hd.nulFree t ht), fromUtf8_utf8,
      Option.isNone_some, if_true, bind, Except.bind]
    simp [field]
    omega
  · have ht : f.topic = none := by
      rw [decide_eq_false hk] at htop
      simpa using htop
    rw [FrameData.flat, hs', ht]
    simp only [parseBody, field, List.append_nil, hk, if_false, bind, Except.bind]
    rw [List.append_assoc, List.singleton_append, splitZero_append _ (hs s hs')]
    simp [fromUtf8_utf8]

theorem kind_ne {f : FrameData} (hd : Data f) :
    f.kind ≠ .prepared ∧ f.kind ≠ .nop ∧ f.kind ≠ .acknowledge := by
  rcases hd.kind with h | h | h <;> rw [h] <;> decide

/-- The bytes of a number, one by one. -/
theorem toLe_four (n : ℕ) : ∃ l₀ l₁ l₂ l₃, toLe 4 n = [l₀, l₁, l₂, l₃] := ⟨_, _, _, _, rfl⟩

/-- What the reader's round sees of a frame that is not prepared. -/
theorem getIncoming_bytes {f : FrameData} (hd : Data f) (rest : List UInt8) :
    getIncoming (f.bytes ++ rest) =
      let body := field f.sender ++ field f.topic ++ f.content ++ rest
      let len := f.frameLen % 2 ^ 32
      if body.length < len then .more
      else match parseBody f.kind (body.take len) f.realtime with
        | .error e => .fail e
        | .ok g => .item (some (.frame g)) (body.drop len) := by
  obtain ⟨hp, hn, ha⟩ := kind_ne hd
  have hle := ofLe_toLe 4 f.frameLen
  obtain ⟨l₀, l₁, l₂, l₃, hl⟩ := toLe_four f.frameLen
  rw [hl] at hle
  have hr : ((if f.realtime = true then 1 else 0 : UInt8) != 0) = f.realtime := by
    cases f.realtime <;> rfl
  rw [bytes_eq hp, hl]
  simp only [List.cons_append, List.nil_append, getIncoming, tryFrom_code hp, hle, hr]
  rcases hd.kind with h | h | h <;> rw [h] <;> rfl

/-- A frame that fits is read as it was, and the reader is at the next one. -/
theorem get_data {f : FrameData} (hd : Data f) (hf : Fits f) (rest : List UInt8) :
    getIncoming (f.bytes ++ rest) = .item (some (.frame f.flat)) rest := by
  have hlen : ¬ (field f.sender ++ field f.topic ++ f.content ++ rest).length <
      (field f.sender ++ field f.topic ++ f.content).length := by
    simp only [List.length_append]
    omega
  rw [getIncoming_bytes hd, Nat.mod_eq_of_lt hf.2, frameLen_eq hd.pos]
  simp only [if_neg hlen, List.take_left, List.drop_left, parseBody_data hd hf.1]

/-- The frames that the broker queues, and what a reader makes of them. -/
inductive Arrives : FrameData → Option Incoming → Prop
  | nop : Arrives .newNop none
  | ack (opId : List UInt8) (h : opId.length = 4) (code : UInt8) (realtime : Bool) :
      Arrives ⟨.prepared, none, none, none, OP_ACK :: opId ++ [code], 0, realtime⟩
        (some (.ack (ofLe opId) code))
  | data {f g : FrameData} (hd : Data f) (h : Reads f g) : Arrives f (some (.frame g))

theorem getIncoming_nop (rest : List UInt8) :
    getIncoming (FrameData.newNop.bytes ++ rest) = .item none rest := rfl

theorem getIncoming_ack {opId : List UInt8} (h : opId.length = 4) (code : UInt8) (realtime : Bool)
    (rest : List UInt8) :
    getIncoming (FrameData.bytes ⟨.prepared, none, none, none, OP_ACK :: opId ++ [code], 0,
      realtime⟩ ++ rest) =
      .item (some (.ack (ofLe opId) code)) rest := by
  obtain ⟨l₀, l₁, l₂, l₃, rfl⟩ : ∃ l₀ l₁ l₂ l₃, opId = [l₀, l₁, l₂, l₃] := List.length_eq_four.mp h
  rfl

/-- The frames that the broker queues: pings, acknowledgements, data. -/
inductive Queued : FrameData → Prop
  | nop : Queued .newNop
  | ack (opId : List UInt8) (h : opId.length = 4) (code : UInt8) (realtime : Bool) :
      Queued ⟨.prepared, none, none, none, OP_ACK :: opId ++ [code], 0, realtime⟩
  | data {f : FrameData} (hd : Data f) : Queued f

/-- A queued frame that fits, if it has to, is read. -/
theorem get_queued {f : FrameData} (hq : Queued f) (hf : Data f → Fits f) :
    ∃ o, Arrives f o ∧ ∀ rest, getIncoming (f.bytes ++ rest) = .item o rest := by
  cases hq with
  | nop => exact ⟨none, .nop, getIncoming_nop⟩
  | ack opId h code realtime =>
    exact ⟨_, .ack opId h code realtime, getIncoming_ack h code realtime⟩
  | data hd => exact ⟨_, .data hd (reads_flat f), get_data hd (hf hd)⟩

/-- **Broker to client**: both readers get the frames that were written, in their
order, whatever follows. -/
theorem handleRead_writer : ∀ fs : List FrameData, (∀ f ∈ fs, Queued f ∧ (Data f → Fits f)) →
    ∃ os : List (Option Incoming), List.Forall₂ Arrives fs os ∧ ∀ rest,
      incoming.readAll (fs.flatMap FrameData.bytes ++ rest) =
        (os ++ (incoming.readAll rest).1, (incoming.readAll rest).2) ∧
      Ipc.handleRead (fs.flatMap FrameData.bytes ++ rest) =
        (os.reduceOption ++ (Ipc.handleRead rest).1, (Ipc.handleRead rest).2) ∧
      SyncIpc.handleRead (fs.flatMap FrameData.bytes ++ rest) =
        (os.reduceOption ++ (SyncIpc.handleRead rest).1, (SyncIpc.handleRead rest).2) := by
  intro fs h
  have hall : ∃ os : List (Option Incoming), List.Forall₂ Arrives fs os ∧ ∀ rest,
      incoming.readAll (fs.flatMap FrameData.bytes ++ rest) =
        (os ++ (incoming.readAll rest).1, (incoming.readAll rest).2) := by
    induction fs with
    | nil => exact ⟨[], .nil, fun rest => rfl⟩
    | cons f fs ih =>
      obtain ⟨o, ho, hget⟩ := get_queued (h f List.mem_cons_self).1 (h f List.mem_cons_self).2
      obtain ⟨os, hos, hread⟩ := ih fun g hg => h g (List.mem_cons_of_mem _ hg)
      refine ⟨o :: os, .cons ho hos, fun rest => ?_⟩
      rw [List.flatMap_cons, List.append_assoc, Parser.readAll_item (hget _), hread]
      rfl
  obtain ⟨os, hos, hread⟩ := hall
  refine ⟨os, hos, fun rest => ⟨hread rest, ?_, ?_⟩⟩
  · simp only [Ipc.handleRead, handleRead, hread, List.reduceOption_append]
  · simp only [SyncIpc.handleRead, handleRead, hread, List.reduceOption_append]

namespace Streams

/-- A publication with a header of its own. -/
def event : FrameData := ⟨.publish, some "w", some "t", some [7], [1, 0, 2], 1, false⟩

theorem data_event :
    Data event := ⟨.inr (.inr rfl), rfl, rfl, fun t ht => Option.some.inj ht ▸ by decide, by decide⟩

theorem fits_event : Fits event := ⟨fun s hs => Option.some.inj hs ▸ by decide, by decide⟩

/-- A ping, an acknowledgement and a publication. -/
def queue : List FrameData :=
  [.newNop, ⟨.prepared, none, none, none, [OP_ACK, 5, 0, 0, 0, 1], 0, true⟩, event]

theorem queued : ∀ f ∈ queue, Queued f := by
  intro f hf
  simp only [queue, List.mem_cons, List.not_mem_nil, or_false] at hf
  obtain rfl | rfl | rfl := hf
  · exact .nop
  · exact .ack [5, 0, 0, 0] rfl 1 true
  · exact .data data_event

theorem fits : ∀ f ∈ queue, Data f → Fits f := by
  intro f hf hd
  simp only [queue, List.mem_cons, List.not_mem_nil, or_false] at hf
  obtain rfl | rfl | rfl := hf
  · exact absurd rfl (kind_ne hd).2.1
  · exact absurd rfl (kind_ne hd).1
  · exact fits_event

end Streams

open Streams in
/-- The queue is read as it was written. -/
theorem handleRead_writer_queue :
    ∃ os, List.Forall₂ Arrives queue os ∧ incoming.readAll (queue.flatMap FrameData.bytes) =
      (os, .ok []) := by
  obtain ⟨os, hos, hread⟩ := handleRead_writer queue fun f hf => ⟨queued f hf, fits f hf⟩
  refine ⟨os, hos, ?_⟩
  rw [← List.append_nil (queue.flatMap FrameData.bytes), (hread []).1, Parser.readAll_nil,
    List.append_nil]

/-! ### What a peer sends -/

/-- The target of a body: it has no zero byte, and the payload is what follows it. -/
theorem targetOf_ok {buf : List UInt8} {target : String} {pos : ℕ}
    (h : targetOf buf = .ok (target, pos)) :
    NulFree target ∧ pos = (utf8 target).length + 1 ∧ buf = utf8 target ++ 0 :: buf.drop pos := by
  unfold targetOf at h
  split at h
  · cases h
  · cases h
  · rename_i t rest ht hrest
    obtain ⟨rfl, rfl⟩ := Prod.mk.inj (Except.ok.inj h)
    obtain ⟨hb, hn⟩ :=
      splitZero_some (Prod.ext rfl hrest : splitZero buf = ((splitZero buf).1, some rest))
    rw [NulFree, utf8_of_fromUtf8 ht]
    refine ⟨hn, rfl, ?_⟩
    have hdrop : (utf8 t ++ 0 :: rest).drop ((utf8 t).length + 1) = rest := by simp
    rw [← utf8_of_fromUtf8 ht] at hb ⊢
    rw [hb, hdrop]

theorem targetOf_le {buf : List UInt8} {target : String} {pos : ℕ}
    (h : targetOf buf = .ok (target, pos)) :
    pos ≤ buf.length := by
  obtain ⟨-, hp, hb⟩ := targetOf_ok h
  rw [hb, hp]
  simp

/-- What a client sends is data, under its name. -/
theorem data_outgoing {c : BrokerClient} {n : ℕ} {r : Request} {fr : Frame}
    (h : r.outgoing c n = some fr) :
    Data fr.data ∧ fr.data.sender = some c.name ∧ fr.data.content = fr.data.payload := by
  unfold Request.outgoing at h
  split at h
  · cases h
  · rename_i target pos ht
    have hle := targetOf_le ht
    have hnul := (targetOf_ok ht).1
    split at h
    · cases h
      exact ⟨⟨.inl rfl, rfl, rfl, nofun, hle⟩, rfl, rfl⟩
    · cases h
      exact ⟨⟨.inr (.inl rfl), rfl, rfl, nofun, hle⟩, rfl, rfl⟩
    · cases h
      exact ⟨⟨.inr (.inr rfl), rfl, rfl, fun t ht => Option.some.inj ht ▸ hnul, hle⟩, rfl, rfl⟩
    · split at h
      · cases h
      · rename_i receiver pos' ht'
        cases h
        have hle' := targetOf_le ht'
        rw [List.length_drop] at hle'
        exact ⟨⟨.inr (.inr rfl), rfl, rfl,
          fun t ht => Option.some.inj ht ▸ hnul, by simp only [Request.frame]; omega⟩,
          rfl, rfl⟩
    · cases h

variable {S : Submap}

/-- The parts of a body that is sent on: the target or the topic, the receiver of a
publication that has one, and the payload. -/
structure Request.Parts (r : Request) (target : String) (receiver : Option String)
    (payload : List UInt8) : Prop where
  targetNulFree : NulFree target
  receiverNulFree : ∀ x, receiver = some x → NulFree x
  isSome : receiver.isSome = decide (r.op = .publishTopicFor)
  buf : r.buf = field (some target) ++ field receiver ++ payload

/-- The act delivers the frame, to those whom the target or the topic selects, and the access
rules were asked about that one. -/
inductive Authorised (aaa : Option (ClientAaa S)) (op : FrameOp) (target : String)
    (receiver : Option String) (f : Frame) : Act → Prop
  | send (hop : op = .message) (ha : allowed aaa (·.allowP2pAny) (·.allowP2pTo) target = true)
      (timeout : Bool) (reply : Reply) :
      Authorised aaa op target receiver f (.send target f timeout reply)
  | broadcast (hop : op = .broadcast)
      (ha : allowed aaa (·.allowBroadcastAny) (·.allowBroadcastTo) target = true) (timeout : Bool) :
      Authorised aaa op target receiver f (.fan (.broadcast target) f timeout)
  | publish (hop : op = .publishTopic)
      (ha : allowed aaa (·.allowPublishAny) (·.allowPublishTo) target = true) (timeout : Bool) :
      Authorised aaa op target receiver f (.fan (.publish target) f timeout)
  | publishFor (hop : op = .publishTopicFor) {x : String} (hx : receiver = some x)
      (ha : allowed aaa (·.allowPublishAny) (·.allowPublishTo) target = true) (timeout : Bool) :
      Authorised aaa op target receiver f (.fan (.publishFor target x) f timeout)

/-- The frame an act is to deliver. -/
def Act.frame : Act → Option Frame
  | .send _ f _ _ | .fan _ f _ | .safeSend _ f _ _ | .put _ f _ _ => some f
  | _ => none

/-- The topic of what is sent on. -/
def FrameOp.topicOf (op : FrameOp) (target : String) : Option String :=
  if op = .publishTopic ∨ op = .publishTopicFor then some target else none

theorem frame_of_ackIf {c : BrokerClient} {n : ℕ} {opId : List UInt8} {qos : QoS} {code : UInt8}
    {a : Act} (h : a ∈ ackIf c n opId qos code) : a.frame = none := by
  obtain ⟨rfl, -⟩ := mem_ackIf c n h
  rfl

/-- Behind a check of the rules there is one act that delivers. -/
theorem authorised_guarded {aaa : Option (ClientAaa S)} {c : BrokerClient} {n : ℕ} {r : Request}
    {ok : Bool} {a b : Act} {acts : List Act} {f f' : Frame} {target : String}
    {receiver : Option String} (hacts : ∀ x ∈ acts, x.frame = none)
    (hb : ok = true → Authorised aaa r.op target receiver f b) (hf : b.frame = some f)
    (h : a ∈ guarded c n r ok (b :: acts)) (ha : a.frame = some f') :
    f' = f ∧ Authorised aaa r.op target receiver f a := by
  unfold guarded at h
  split at h
  · rcases List.mem_cons.mp h with rfl | h
    · exact ⟨Option.some.inj (ha.symm.trans hf), hb ‹_›⟩
    · rw [hacts a h] at ha
      cases ha
  · rw [frame_of_ackIf h] at ha
    cases ha

/-- What is sent on has the topic and the payload of the request, and the topic is the one that
is authorised and matched. -/
theorem parts_outgoing {c : BrokerClient} {n : ℕ} {r : Request} {fr : Frame}
    (h : r.outgoing c n = some fr) :
    ∃ target receiver payload, r.Parts target receiver payload ∧
      fr.data.topic = r.op.topicOf target ∧
      fr.data.payload = payload ∧ ∀ (aaa : Option (ClientAaa S)) (a : Act)
      (f : Frame), a ∈ plan aaa c n r →
        a.frame = some f → f = fr ∧ Authorised aaa r.op target receiver fr a := by
  have hacks : ∀ x ∈ ackIf c n r.opId r.qos RESPONSE_OK, x.frame = none :=
    fun x hx => frame_of_ackIf hx
  unfold Request.outgoing at h
  split at h
  · cases h
  · rename_i target pos ht
    obtain ⟨hn, hpos, hbuf⟩ := targetOf_ok ht
    have hone : r.op ≠ .publishTopicFor → r.Parts target none (r.buf.drop pos) := fun hop =>
      ⟨hn, nofun, by simp [hop], by rw [hbuf]; simp [field, hpos]⟩
    split at h
    · rename_i hop
      cases h
      refine ⟨target, none, r.buf.drop pos,
        hone (by rw [hop]; decide), by rw [hop]; rfl, rfl, fun aaa a f ha hf => ?_⟩
      unfold plan at ha
      simp only [hop, ht] at ha
      exact authorised_guarded (fun x hx => by cases hx) (fun ho => .send hop ho _ _) rfl ha hf
    · rename_i hop
      cases h
      refine ⟨target, none, r.buf.drop pos,
        hone (by rw [hop]; decide), by rw [hop]; rfl, rfl, fun aaa a f ha hf => ?_⟩
      unfold plan at ha
      simp only [hop, ht] at ha
      exact authorised_guarded hacks (fun ho => .broadcast hop ho _) rfl ha hf
    · rename_i hop
      cases h
      refine ⟨target, none, r.buf.drop pos,
        hone (by rw [hop]; decide), by rw [hop]; rfl, rfl, fun aaa a f ha hf => ?_⟩
      unfold plan at ha
      simp only [hop, ht] at ha
      exact authorised_guarded hacks (fun ho => .publish hop ho _) rfl ha hf
    · rename_i hop
      split at h
      · cases h
      · rename_i receiver pos' ht'
        cases h
        obtain ⟨hn', hpos', hbuf'⟩ := targetOf_ok ht'
        refine ⟨target, some receiver, r.buf.drop (pos + pos'),
          ⟨hn, ?_, by simp [hop], ?_⟩, by rw [hop]; rfl, rfl,
          fun aaa a f ha hf => ?_⟩
        · rintro x hx
          exact Option.some.inj hx ▸ hn'
        · calc r.buf = utf8 target ++ 0 :: r.buf.drop pos := hbuf
            _ = utf8 target ++ 0 :: (utf8 receiver ++
              0 :: (r.buf.drop pos).drop pos') := by rw [← hbuf']
            _ = field (some target) ++ field (some receiver) ++ r.buf.drop (pos + pos') := by
              simp [field, List.drop_drop]
        · unfold plan at ha
          simp only [hop, ht, ht'] at ha
          exact authorised_guarded hacks (fun ho => .publishFor hop rfl ho _) rfl ha hf
    · cases h

/-- What arrives is an acknowledgement, or has the sender, the topic and the
content of the frame. -/
inductive Intact : FrameData → Incoming → Prop
  | ack (opId : List UInt8) (h : opId.length = 4) (code : UInt8) (realtime : Bool) :
      Intact ⟨.prepared, none, none, none, OP_ACK :: opId ++ [code], 0, realtime⟩
        (.ack (ofLe opId) code)
  | data {f g : FrameData} (hs : g.sender = f.sender) (ht : g.topic = f.topic)
      (hp : g.payload = f.content) :
      Intact f (.frame g)

/-- Everything of a client's queue arrives intact, pings left out. -/
def Delivers (fs : List FrameData) : Prop :=
  ∃ es, (handleRead (fs.flatMap FrameData.bytes)).1 = es ∧
    List.Forall₂ Intact (fs.filter (·.kind ≠ .nop)) es

/-- What a reader's frame says of the bytes it is read from. -/
theorem parseBody_ok {kind : FrameKind} {buf : List UInt8} {realtime : Bool} {g : FrameData}
    (h : parseBody kind buf realtime = .ok g) :
    (∀ s, g.sender = some s → NulFree s) ∧ g.payloadPos = (field g.sender ++ field g.topic).length ∧
      g.payloadPos ≤ g.buf.length ∧ g.buf = buf := by
  rcases hz : splitZero buf with ⟨s, rest⟩
  simp only [parseBody, hz, bind, Except.bind] at h
  split at h
  · cases h
  · rename_i sender hs
    have hu := utf8_of_fromUtf8 hs
    rcases rest with _ | rest
    · simp at h
    obtain ⟨hb, hn⟩ := splitZero_some hz
    have hnul : ∀ x, some sender = some x → NulFree x := by
      intro x hx
      rw [← Option.some.inj hx, NulFree, hu]
      exact hn
    split at h
    · simp only at h
      split at h
      · cases h
      · rename_i topic ht
        have hu' := utf8_of_fromUtf8 ht
        split at h
        · cases h
        · rename_i hr
          rcases hr' : (splitZero rest).2 with _ | rest'
          · exact absurd (by rw [hr']; rfl) hr
          obtain ⟨hb', -⟩ :=
            splitZero_some (Prod.ext rfl hr' : splitZero rest = ((splitZero rest).1, some rest'))
          cases h
          refine ⟨hnul, ?_, ?_, rfl⟩
          · simp [field, hu, hu']
            omega
          · have hl := congrArg List.length hb'
            simp only [hb, List.length_append, List.length_cons] at hl ⊢
            omega
    · simp only [Option.isNone_some, Bool.false_eq_true, if_false, Except.ok.injEq] at h
      subst h
      refine ⟨hnul, ?_, ?_, rfl⟩
      · simp [field, hu]
      · simp [hb]

/-- A frame that arrives intact fits. -/
theorem fits_of_intact {f g : FrameData} {rest rest' : List UInt8} (hd : Data f)
    (h : getIncoming (f.bytes ++ rest) = .item (some (.frame g)) rest') (hs : g.sender = f.sender)
    (ht : g.topic = f.topic) (hp : g.payload = f.content) : Fits f := by
  rw [getIncoming_bytes hd] at h
  simp only at h
  split at h
  · cases h
  · rename_i hlen
    split at h
    · cases h
    · rename_i g' hg
      cases h
      obtain ⟨hnul, hpos, hle, hbuf⟩ := parseBody_ok hg
      refine ⟨fun s hs' => hnul s (hs.trans hs'), ?_⟩
      -- sender, topic and payload are all of what was declared
      have hsize : g.buf.length = f.frameLen := by
        have hpl := congrArg List.length hp
        rw [FrameData.payload, List.length_drop] at hpl
        rw [frameLen_eq hd.pos, ← hs, ← ht, List.length_append, ← hpos, ← hpl]
        omega
      rw [hbuf, List.length_take, Nat.min_eq_left (not_lt.mp hlen)] at hsize
      rw [← hsize]
      exact Nat.mod_lt _ (by norm_num)

/-- What a reader hands on, round by round. -/
theorem handleRead_item {bs rest : List UInt8} {o : Option Incoming}
    (h : getIncoming bs = .item o rest) :
    (handleRead bs).1 = o.toList ++ (handleRead rest).1 := by
  rw [handleRead, handleRead, Parser.readAll_item (p := incoming) h]
  cases o <;> rfl

/-- If the first data frame of a queue arrives intact, the reader is at the next. -/
theorem delivers_cons {f : FrameData} {fs : List FrameData} (hd : Data f) (h : Delivers (f :: fs)) :
    Fits f ∧ Delivers fs := by
  obtain ⟨es, hes, hall⟩ := h
  rw [List.filter_cons_of_pos (by simpa using (kind_ne hd).2.1)] at hall
  rw [List.flatMap_cons] at hes
  rcases hg : getIncoming (f.bytes ++ fs.flatMap FrameData.bytes) with _ | e | ⟨o, rest⟩
  · rw [handleRead, Parser.readAll_more (p := incoming) hg] at hes
    subst hes
    cases hall
  · rw [handleRead, Parser.readAll_fail (p := incoming) hg] at hes
    subst hes
    cases hall
  · rw [handleRead_item hg] at hes
    obtain ⟨g, rfl⟩ : ∃ g, o = some (.frame g) := by
      rw [getIncoming_bytes hd] at hg
      simp only at hg
      split at hg
      · cases hg
      · split at hg
        · cases hg
        · cases hg
          exact ⟨_, rfl⟩
    subst hes
    cases hall with
    | cons hi htail =>
      cases hi with
      | data hs ht hp =>
        have hfits := fits_of_intact hd hg hs ht hp
        rw [get_data hd hfits] at hg
        cases hg
        exact ⟨hfits, _, rfl, htail⟩

/-- **Sender and topic integrity**: what clients send is queued under their names, with the topic
that was authorised and matched and the payload that was sent, and everything in a client's
queue arrives intact iff the names of the senders have no zero byte and the lengths fit. -/
theorem intact_iff (fs : List FrameData) (hq : ∀ f ∈ fs, Queued f) :
    (∀ (c : BrokerClient) (n : ℕ) (r : Request) (fr : Frame), Peer.validName c.name = true →
      r.outgoing c n = some fr → Queued fr.data ∧ Data fr.data ∧ fr.data.sender = some c.name ∧
        ∃ target receiver payload, r.Parts target receiver payload ∧
          fr.data.topic = r.op.topicOf target ∧
          fr.data.content = payload ∧ ∀ (aaa : Option (ClientAaa S)) (a : Act) (f : Frame),
            a ∈ plan aaa c n r → a.frame = some f → f = fr ∧
              Authorised aaa r.op target receiver fr a) ∧
    (Delivers fs ↔ ∀ f ∈ fs, Data f → Fits f) := by
  refine ⟨fun c n r fr _ h => ?_, ?_⟩
  · obtain ⟨hd, hs, hc⟩ := data_outgoing h
    obtain ⟨target, receiver, payload, hparts, ht, hp, hplan⟩ := parts_outgoing (S := S) h
    exact ⟨.data hd, hd, hs, target, receiver, payload, hparts, ht, hc.trans hp, hplan⟩
  induction fs with
  | nil => exact ⟨nofun, fun _ => ⟨[], rfl, .nil⟩⟩
  | cons f fs ih =>
    have ih := ih fun g hg => hq g (List.mem_cons_of_mem _ hg)
    rw [List.forall_mem_cons, ← ih]
    cases hq f List.mem_cons_self with
    | nop =>
      have hr : (handleRead ((FrameData.newNop :: fs).flatMap FrameData.bytes)).1 =
          (handleRead (fs.flatMap FrameData.bytes)).1 := handleRead_item (getIncoming_nop _)
      have hnd : ¬ Data FrameData.newNop := fun hd => (kind_ne hd).2.1 rfl
      rw [Delivers, hr]
      exact ⟨fun h => ⟨fun hd => absurd hd hnd, h⟩, fun h => h.2⟩
    | ack opId hl code realtime =>
      have hr := handleRead_item (getIncoming_ack hl code realtime (fs.flatMap FrameData.bytes))
      constructor
      · rintro ⟨es, hes, hall⟩
        rw [List.flatMap_cons, hr] at hes
        subst hes
        cases hall with
        | cons _ htail => exact ⟨fun hd => absurd rfl (kind_ne hd).1, _, rfl, htail⟩
      · rintro ⟨-, es, hes, hall⟩
        refine ⟨_, rfl, ?_⟩
        rw [List.flatMap_cons, hr, hes]
        exact .cons (.ack opId hl code realtime) hall
    | data hd =>
      constructor
      · intro h
        exact ⟨fun _ => (delivers_cons hd h).1, (delivers_cons hd h).2⟩
      · rintro ⟨hf, es, hes, hall⟩
        have hreads := reads_flat f
        refine ⟨_, rfl, ?_⟩
        rw [List.flatMap_cons, handleRead_item (get_data hd (hf hd) _), hes,
          List.filter_cons_of_pos (by simpa using (kind_ne hd).2.1)]
        exact .cons (.data hreads.sender hreads.topic hreads.payload) hall

namespace Streams

/-- A client that calls itself `a`, a zero byte, and `b`. -/
def split : BrokerClient := ⟨0, "a\x00b", .localIpc, none, none⟩

/-- A message with an empty payload to `w`. -/
def message : Request := .numbered 1 .message .no [119, 0]

/-- What the client sends. -/
def sent : FrameData := ⟨.message, some "a\x00b", none, none, [119, 0], 2, false⟩

end Streams

open Streams in
/-- A queue that arrives intact. -/
theorem intact_iff_queue : Delivers queue ∧ Queued (message.frame split 0 .message none 2).data :=
  have h := intact_iff (S := reference) queue queued
  ⟨h.2.mpr fits, (h.1 split 0 message _ (by decide) (by decide)).1⟩

open Streams in
/-- The broker accepts the name, and what the client sends arrives from `a`. -/
theorem sender_cut :
    Peer.validName split.name = true ∧ message.outgoing split 0 = some ⟨.op split 0, sent⟩ ∧
    Queued sent ∧ ((handleRead sent.bytes).1.head?.map fun
      | .frame g => (g.sender, g.payload)
      | .ack _ _ => (none, [])) = some (some "a", [98, 0]) ∧ ¬ Delivers [sent] := by
  have hout : message.outgoing split 0 = some ⟨.op split 0, sent⟩ := by decide
  have hq := (data_outgoing hout).1
  refine ⟨by decide, hout, .data hq, by decide, ?_⟩
  rintro h
  have hf := (delivers_cons hq h).1
  exact absurd (hf.1 _ rfl) (by decide)

end Busrt
