/-
# The clients in Python and JavaScript

The readers of the other languages take the same six bytes apart as those in
Rust, and then go their own ways. The synchronous client in Python splits a body
at its zero bytes, with any kind of frame it has no name for; the asynchronous one
reads the sender and the topic up to their zero bytes, wherever the frame ends,
with a limit to their length; the one in JavaScript keeps the body and a position,
and decodes a text whatever its bytes are.

What a reader in Rust reads, they all read, with the same sender, primary sender,
topic and payload, on any stream, and the asynchronous one as long as the texts
keep to its limit (`readers_agree`). What they write the broker reads as what was
meant, if what they count is bytes (`broker_reads`).

Key definitions: `Py.getFrame`, `PyAsync.getFrame`, `Js.getFrame`, `ScriptFrame`,
`ScriptFrame.Proper`.
Key theorems: `readers_agree`, `broker_reads`.
-/
import Busrt.Lengths

namespace Busrt

open Lib

/-! ### What the readers hand on -/

/-- Why a reader gives up. -/
inductive ReadError
  | tooFewParts
  | notText
  | limitOverrun
  deriving DecidableEq, Repr

/-- An acknowledgement or a frame. -/
inductive BusEvent (F : Type)
  | ack (opId : ℕ) (code : UInt8)
  | frame (f : F)
  deriving DecidableEq, Repr

/-- The six bytes of a header, as these readers take them: a ping, an
acknowledgement, or a kind, a length, and what `body` makes of what follows. -/
def framed {F : Type} (body : UInt8 → ℕ → List UInt8 → Got ReadError (Option (BusEvent F))) :
    List UInt8 → Got ReadError (Option (BusEvent F))
  | k :: l₀ :: l₁ :: l₂ :: l₃ :: r :: rest =>
    if k = 0 then .item none rest
    else if k = 0xFE then .item (some (.ack (ofLe [l₀, l₁, l₂, l₃]) r)) rest
    else body k (ofLe [l₀, l₁, l₂, l₃]) rest
  | _ => .more

/-- A body of the declared length. -/
def wholeBody {F : Type} (parse : UInt8 → List UInt8 → Except ReadError F) (k : UInt8) (len : ℕ)
    (rest : List UInt8) :
    Got ReadError (Option (BusEvent F)) :=
  if rest.length < len then .more
  else match parse k (rest.take len) with
    | .error e => .fail e
    | .ok f => .item (some (.frame f)) (rest.drop len)

/-- `bytes.decode`. -/
def decodeText (bs : List UInt8) : Except ReadError String :=
  (fromUtf8 bs).mapError fun _ => .notText

theorem decodeText_of_fromUtf8 {bs : List UInt8} {s : String} (h : fromUtf8 bs = .ok s) :
    decodeText bs = .ok s := by
  rw [decodeText, h]
  rfl

namespace Py

/-- `Frame`, as the reader fills it. -/
structure Inbound where
  type : UInt8
  sender : String
  primarySender : String
  topic : Option String
  payload : List UInt8
  deriving DecidableEq, Repr

/-- `data.split(b'\x00', maxsplit=..)`, and the texts. -/
def parse (type : UInt8) (data : List UInt8) : Except ReadError Inbound :=
  match splitZero data with
  | (_, none) => .error .tooFewParts
  | (sender, some rest) =>
    if type = 1 then
      match splitZero rest with
      | (_, none) => .error .tooFewParts
      | (topic, some payload) => do
        let topic ← decodeText topic
        let sender ← decodeText sender
        return ⟨type, sender, primaryName sender, some topic, payload⟩
    else do
      let sender ← decodeText sender
      return ⟨type, sender, primaryName sender, none, rest⟩

/-- One round of the loop of `_t_reader`. -/
def getFrame : List UInt8 → Got ReadError (Option (BusEvent Inbound)) := framed (wholeBody parse)

end Py

namespace PyAsync

/-- `reader.readuntil(b'\x00')`, with the limit of its buffer: a text without its
zero byte and what follows it, `none` if it has not come. -/
def readuntil (limit : ℕ) (bs : List UInt8) : Except ReadError (Option (List UInt8 × List UInt8)) :=
  if limit < (splitZero bs).1.length then .error .limitOverrun
  else .ok ((splitZero bs).2.map fun rest => ((splitZero bs).1, rest))

/-- The payload: what is left of the length, if anything. -/
def readPayload (f : List UInt8 → Py.Inbound) (dataLen : ℕ) (rest : List UInt8) :
    Got ReadError (Option (BusEvent Py.Inbound)) :=
  if rest.length < dataLen then .more
  else .item (some (.frame (f (rest.take dataLen)))) (rest.drop dataLen)

/-- `read_frame`. -/
def readFrame (limit : ℕ) (tp : UInt8) (dataLen : ℕ) (rest : List UInt8) :
    Got ReadError (Option (BusEvent Py.Inbound)) :=
  match readuntil limit rest with
  | .error e => .fail e
  | .ok none => .more
  | .ok (some (s, rest)) =>
    match decodeText s with
    | .error e => .fail e
    | .ok sender =>
      if tp = 1 then
        match readuntil limit rest with
        | .error e => .fail e
        | .ok none => .more
        | .ok (some (t, rest)) =>
          match decodeText t with
          | .error e => .fail e
          | .ok topic =>
            readPayload (⟨tp, sender, primaryName sender, some topic, ·⟩)
              (dataLen - (s.length + 1) - (t.length + 1)) rest
      else readPayload (⟨tp, sender, primaryName sender, none, ·⟩) (dataLen - (s.length + 1)) rest

/-- One round of the loop of `_t_reader`. -/
def getFrame (limit : ℕ) : List UInt8 → Got ReadError (Option (BusEvent Py.Inbound)) :=
  framed (readFrame limit)

/-- `buf_size`. -/
def bufSize : ℕ := 8192

end PyAsync

namespace Js

/-- `Frame`, as the reader fills it: the body, and where the payload is in it. -/
structure Inbound where
  busOp : UInt8
  sender : String
  primarySender : String
  topic : Option String
  payload : List UInt8
  payloadPos : ℕ
  deriving DecidableEq, Repr

/-- `Frame.getPayload`. -/
def Inbound.getPayload (f : Inbound) : List UInt8 := f.payload.drop f.payloadPos

/-- `Buffer.toString`: bytes that are no text are replaced, by `lossy`. -/
def toText (lossy : List UInt8 → String) (bs : List UInt8) : String :=
  match fromUtf8 bs with
  | .ok s => s
  | .error _ => lossy bs

/-- The body of a frame. -/
def parse (lossy : List UInt8 → String) (busOp : UInt8) (payload : List UInt8) :
    Except ReadError Inbound :=
  match splitZero payload with
  | (_, none) => .error .tooFewParts
  | (s, some rest) =>
    let sender := toText lossy s
    let i := s.length + 1
    if busOp = 1 then
      match splitZero rest with
      | (_, none) => .error .tooFewParts
      | (t, some _) =>
        .ok ⟨busOp, sender, primaryName sender, some (toText lossy t), payload, i + (t.length + 1)⟩
    else .ok ⟨busOp, sender, primaryName sender, none, payload, i⟩

/-- One round of the loop of `_tReader`. -/
def getFrame (lossy : List UInt8 → String) :
    List UInt8 → Got ReadError (Option (BusEvent Inbound)) :=
  framed (wholeBody (parse lossy))

end Js

/-! ### On streams -/

section Framed

variable {F : Type} {body : UInt8 → ℕ → List UInt8 → Got ReadError (Option (BusEvent F))}

/-- An item takes at least its header. -/
theorem framed_lt (hbody : ∀ {k n bs o rest}, body k n bs = .item o rest → rest.length ≤ bs.length)
    {bs rest : List UInt8} {o : Option (BusEvent F)} (h : framed body bs = .item o rest) :
    rest.length < bs.length := by
  unfold framed at h
  split at h
  · split at h
    · cases h; simp; omega
    · split at h
      · cases h; simp; omega
      · have := hbody h
        simp; omega
  · cases h

theorem wholeBody_le {parse : UInt8 → List UInt8 → Except ReadError F} {k : UInt8} {n : ℕ}
    {bs rest : List UInt8} {o : Option (BusEvent F)} (h : wholeBody parse k n bs = .item o rest) :
    rest.length ≤ bs.length := by
  unfold wholeBody at h
  split at h
  · cases h
  · split at h
    · cases h
    · cases h; simp

theorem readPayload_le {f : List UInt8 → Py.Inbound} {n : ℕ} {bs rest : List UInt8}
    {o : Option (BusEvent Py.Inbound)} (h : PyAsync.readPayload f n bs = .item o rest) :
    rest.length ≤ bs.length := by
  unfold PyAsync.readPayload at h
  split at h
  · cases h
  · cases h; simp

theorem readuntil_le {limit : ℕ} {bs s rest : List UInt8}
    (h : PyAsync.readuntil limit bs = .ok (some (s, rest))) :
    rest.length ≤ bs.length := by
  unfold PyAsync.readuntil at h
  split at h
  · cases h
  · obtain ⟨r, hr, he⟩ := Option.map_eq_some_iff.mp (Except.ok.inj h)
    cases he
    rw [(splitZero_some (Prod.ext rfl hr : splitZero bs = ((splitZero bs).1, some rest))).1]
    simp; omega

theorem readFrame_le {limit : ℕ} {k : UInt8} {n : ℕ} {bs rest : List UInt8}
    {o : Option (BusEvent Py.Inbound)} (h : PyAsync.readFrame limit k n bs = .item o rest) :
    rest.length ≤ bs.length := by
  unfold PyAsync.readFrame at h
  split at h
  · cases h
  · cases h
  · rename_i hs
    have hle := readuntil_le hs
    split at h
    · cases h
    · split at h
      · split at h
        · cases h
        · cases h
        · rename_i ht
          have hle' := readuntil_le ht
          split at h
          · cases h
          · exact (readPayload_le h).trans (hle'.trans hle)
      · exact (readPayload_le h).trans hle

end Framed

/-- `Client._t_reader`, of the synchronous client. -/
def Py.tReader : Parser ReadError (Option (BusEvent Py.Inbound)) :=
  ⟨Py.getFrame, rfl, framed_lt wholeBody_le⟩

/-- `Client._t_reader`, of the asynchronous client. -/
def PyAsync.tReader (limit : ℕ) : Parser ReadError (Option (BusEvent Py.Inbound)) :=
  ⟨PyAsync.getFrame limit, rfl, framed_lt readFrame_le⟩

/-- `Bus._tReader`. -/
def Js.tReader (lossy : List UInt8 → String) : Parser ReadError (Option (BusEvent Js.Inbound)) :=
  ⟨Js.getFrame lossy, rfl, framed_lt wholeBody_le⟩

/-! ### What the readers in Rust read -/

/-- An event, as another reader hands it on. -/
def Incoming.seen {F : Type} (view : FrameData → F) : Incoming → BusEvent F
  | .ack id code => .ack id code
  | .frame f => .frame (view f)

/-- A frame in Python. -/
def Py.view (f : FrameData) : Py.Inbound :=
  let sender := f.sender.getD ""
  ⟨f.kind.code, sender, primaryName sender, f.topic, f.payload⟩

/-- A frame in JavaScript. -/
def Js.view (f : FrameData) : Js.Inbound :=
  let sender := f.sender.getD ""
  ⟨f.kind.code, sender, primaryName sender, f.topic, f.buf, f.payloadPos⟩

theorem FrameKind.code_of_tryFrom {k : UInt8} {kind : FrameKind}
    (h : FrameKind.tryFrom k = .ok kind) : kind.code = k := by
  unfold FrameKind.tryFrom at h
  repeat' split at h
  all_goals first | (cases h; simp_all [FrameKind.code]) | cases h

/-- The parts of a body that a reader in Rust takes. -/
inductive Parts (kind : FrameKind) (buf : List UInt8) (f : FrameData) : Prop
  | publish (hk : kind = .publish) (s t p : List UInt8) (sender topic : String)
      (hb : splitZero buf = (s, some (t ++ 0 :: p))) (ht : 0 ∉ t)
      (hs : fromUtf8 s = .ok sender) (ht' : fromUtf8 t = .ok topic)
      (hf : f.kind = kind ∧ f.sender = some sender ∧ f.topic = some topic ∧ f.buf = buf ∧
        f.payloadPos = s.length + 1 + (t.length + 1) ∧ f.payload = p)
  | other (hk : kind ≠ .publish) (s p : List UInt8) (sender : String)
      (hb : splitZero buf = (s, some p)) (hs : fromUtf8 s = .ok sender)
      (hf : f.kind = kind ∧ f.sender = some sender ∧ f.topic = none ∧ f.buf = buf ∧
        f.payloadPos = s.length + 1 ∧
        f.payload = p)

theorem parts_of_parseBody {kind : FrameKind} {buf : List UInt8} {realtime : Bool} {f : FrameData}
    (h : parseBody kind buf realtime = .ok f) : Parts kind buf f := by
  rcases hz : splitZero buf with ⟨s, rest⟩
  simp only [parseBody, hz, bind, Except.bind] at h
  split at h
  · cases h
  · rename_i sender hs
    rcases rest with _ | rest
    · simp at h
    obtain ⟨hb, -⟩ := splitZero_some hz
    split at h
    · rename_i hk
      simp only at h
      split at h
      · cases h
      · rename_i topic ht
        split at h
        · cases h
        · rename_i hr
          rcases hz' : splitZero rest with ⟨t, _ | p⟩
          · rw [hz'] at hr
            exact absurd rfl hr
          · obtain ⟨hb', hn⟩ := splitZero_some hz'
            rw [hz'] at ht h
            cases h
            refine .publish hk s t p sender topic (hb' ▸ hz) hn hs ht ⟨rfl, rfl, rfl, rfl, ?_, ?_⟩
            · simp only; omega
            · simp only [FrameData.payload, hb, hb']
              rw [show s.length + t.length + 2 =
                (s ++ 0 :: t).length + 1 by simp; omega, ← List.cons_append,
                ← List.append_assoc]
              exact drop_target _ _
    · rename_i hk
      simp only [Option.isNone_some, Bool.false_eq_true, if_false, Except.ok.injEq] at h
      subst h
      refine .other hk s rest sender hz hs ⟨rfl, rfl, rfl, rfl, rfl, ?_⟩
      simp only [FrameData.payload, hb]
      exact drop_target _ _

section Agree

variable {F : Type} {body : UInt8 → ℕ → List UInt8 → Got ReadError (Option (BusEvent F))}
  {view : FrameData → F}
  {C : FrameData → Prop} {kind : FrameKind} {buf bs rest : List UInt8} {f : FrameData}

theorem code_eq_one (kind : FrameKind) : kind.code = 1 ↔ kind = .publish := by
  cases kind <;> decide

theorem framed_kind (hn : kind ≠ .nop) (ha : kind ≠ .acknowledge) (l₀ l₁ l₂ l₃ r : UInt8)
    (rest : List UInt8) :
    framed body (kind.code :: l₀ :: l₁ :: l₂ :: l₃ :: r :: rest) =
      body kind.code (ofLe [l₀, l₁, l₂, l₃]) rest := by
  have h0 : kind.code ≠ 0 := by cases kind <;> first | decide | exact absurd rfl hn
  have hfe : kind.code ≠ 0xFE := by cases kind <;> first | decide | exact absurd rfl ha
  rw [framed, if_neg h0, if_neg hfe]

/-- A frame that a reader in Rust takes is taken whole. -/
theorem framed_of_incoming
    (hbody : ∀ {kind f len rest}, Parts kind (rest.take len) f → len ≤ rest.length → C f →
      body kind.code len rest = .item (some (.frame (view f))) (rest.drop len))
    {o : Option Incoming} (h : getIncoming bs = .item o rest)
    (hC : ∀ f, o = some (.frame f) → C f) :
    framed body bs = .item (o.map (Incoming.seen view)) rest := by
  unfold getIncoming at h
  split at h
  · rename_i k l₀ l₁ l₂ l₃ r tail
    split at h
    · cases h
    · rename_i hk
      cases h
      rw [← FrameKind.code_of_tryFrom hk]
      rfl
    · rename_i hk
      cases h
      rw [← FrameKind.code_of_tryFrom hk]
      rfl
    · rename_i kind hnop hack hk
      simp only at h
      split at h
      · cases h
      · rename_i hlen
        split at h
        · cases h
        · rename_i f hf
          cases h
          rw [← FrameKind.code_of_tryFrom hk, framed_kind hnop hack]
          exact hbody (parts_of_parseBody hf) (not_lt.mp hlen) (hC f rfl)
  · cases h

/-- A reader of whole bodies waits where one in Rust waits. -/
theorem framed_more {parse : UInt8 → List UInt8 → Except ReadError F} (h : getIncoming bs = .more) :
    framed (wholeBody parse) bs = .more := by
  unfold getIncoming at h
  split at h
  · rename_i k l₀ l₁ l₂ l₃ r tail
    split at h
    · cases h
    · cases h
    · cases h
    · rename_i kind hnop hack hk
      simp only at h
      split at h
      · rename_i hlen
        rw [← FrameKind.code_of_tryFrom hk, framed_kind hnop hack]
        exact if_pos hlen
      · split at h
        · cases h
        · cases h
  · rename_i hshort
    unfold framed
    split
    · exact absurd rfl (hshort _ _ _ _ _ _ _)
    · rfl

theorem Py.parse_parts (h : Parts kind buf f) : Py.parse kind.code buf = .ok (Py.view f) := by
  cases h with
  | publish hk s t p sender topic hb ht hs ht' hf =>
    obtain ⟨hkind, hsender, htopic, -, -, hpay⟩ := hf
    simp only [Py.parse, hb, splitZero_append t ht, hk, decodeText_of_fromUtf8 hs,
      decodeText_of_fromUtf8 ht', Py.view, hkind, hsender, htopic, hpay]
    rfl
  | other hk s p sender hb hs hf =>
    obtain ⟨hkind, hsender, htopic, -, -, hpay⟩ := hf
    simp only [Py.parse, hb, code_eq_one, hk, if_false, decodeText_of_fromUtf8 hs, Py.view, hkind,
      hsender, htopic, hpay]
    rfl

theorem Js.parse_parts (lossy : List UInt8 → String) (h : Parts kind buf f) :
    Js.parse lossy kind.code buf = .ok (Js.view f) := by
  cases h with
  | publish hk s t p sender topic hb ht hs ht' hf =>
    obtain ⟨hkind, hsender, htopic, hbuf, hpos, -⟩ := hf
    simp only [Js.parse, hb, splitZero_append t ht, hk, Js.toText, hs, ht', Js.view, hkind, hsender,
      htopic, hbuf, hpos]
    rfl
  | other hk s p sender hb hs hf =>
    obtain ⟨hkind, hsender, htopic, hbuf, hpos, -⟩ := hf
    simp only [Js.parse, hb, code_eq_one, hk, if_false, Js.toText, hs, Js.view, hkind, hsender,
      htopic, hbuf, hpos]
    rfl

theorem wholeBody_parts {parse : UInt8 → List UInt8 → Except ReadError F}
    (hparse : ∀ {kind buf f}, Parts kind buf f → parse kind.code buf = .ok (view f)) {len : ℕ}
    (h : Parts kind (rest.take len) f) (hlen : len ≤ rest.length) :
    wholeBody parse kind.code len rest = .item (some (.frame (view f))) (rest.drop len) := by
  rw [wholeBody, if_neg (not_lt.mpr hlen), hparse h]

/-- The texts of a frame are within a limit. -/
def FrameData.Short (limit : ℕ) (f : FrameData) : Prop :=
  (∀ s ∈ f.sender, (utf8 s).length ≤ limit) ∧ ∀ t ∈ f.topic, (utf8 t).length ≤ limit

theorem readuntil_append {limit : ℕ} {s : List UInt8} (hs : 0 ∉ s) (hl : s.length ≤ limit)
    (rest : List UInt8) :
    PyAsync.readuntil limit (s ++ 0 :: rest) = .ok (some (s, rest)) := by
  rw [PyAsync.readuntil, splitZero_append s hs, if_neg (not_lt.mpr hl)]
  rfl

theorem readPayload_append (g : List UInt8 → Py.Inbound) (p tail : List UInt8) {n : ℕ}
    (hn : n = p.length) :
    PyAsync.readPayload g n (p ++ tail) = .item (some (.frame (g p))) tail := by
  subst hn
  rw [PyAsync.readPayload, if_neg (by simp), List.take_left, List.drop_left]

theorem readFrame_parts {limit len : ℕ} (h : Parts kind (rest.take len) f)
    (hlen : len ≤ rest.length) (hC : f.Short limit) :
    PyAsync.readFrame limit kind.code len rest =
      .item (some (.frame (Py.view f))) (rest.drop len) := by
  have htake : (rest.take len).length = len := List.length_take_of_le hlen
  rw [← List.take_append_drop len rest]
  generalize rest.take len = buf at h htake
  generalize rest.drop len = tail
  rw [← htake, List.drop_left]
  cases h with
  | publish hk s t p sender topic hb ht hs ht' hf =>
    obtain ⟨hkind, hsender, htopic, -, -, hpay⟩ := hf
    obtain ⟨hbuf, hns⟩ := splitZero_some hb
    have hls := hC.1 sender hsender
    have hlt := hC.2 topic htopic
    rw [utf8_of_fromUtf8 hs] at hls
    rw [utf8_of_fromUtf8 ht'] at hlt
    subst hbuf
    simp only [PyAsync.readFrame, List.append_assoc, List.cons_append, readuntil_append hns hls,
      readuntil_append ht hlt, decodeText_of_fromUtf8 hs, decodeText_of_fromUtf8 ht', hk, Py.view,
      hkind, hsender, htopic, hpay]
    exact readPayload_append _ p tail (by simp only [List.length_append, List.length_cons]; omega)
  | other hk s p sender hb hs hf =>
    obtain ⟨hkind, hsender, htopic, -, -, hpay⟩ := hf
    obtain ⟨hbuf, hns⟩ := splitZero_some hb
    have hls := hC.1 sender hsender
    rw [utf8_of_fromUtf8 hs] at hls
    subst hbuf
    simp only [PyAsync.readFrame, List.append_assoc, List.cons_append, readuntil_append hns hls,
      code_eq_one, hk, if_false, decodeText_of_fromUtf8 hs, Py.view, hkind, hsender, htopic, hpay]
    exact readPayload_append _ p tail (by simp only [List.length_append, List.length_cons]; omega)

end Agree

/-- What a reader hands on of the bytes that have come: pings give nothing. -/
def events {F : Type} (p : Parser ReadError (Option (BusEvent F))) (bs : List UInt8) :
    List (BusEvent F) × Except ReadError (List UInt8) :=
  ((p.readAll bs).1.reduceOption, (p.readAll bs).2)

section Events

variable {F : Type} {p : Parser ReadError (Option (BusEvent F))} {view : FrameData → F}
  {C : FrameData → Prop}

theorem events_starts (bs : List UInt8) (hitem : ∀ bs o rest, getIncoming bs = .item o rest →
      (∀ f, o = some (.frame f) → C f) → p.get bs = .item (o.map (Incoming.seen view)) rest)
    (hC : ∀ f, .frame f ∈ (handleRead bs).1 → C f) :
    (handleRead bs).1.map (Incoming.seen view) <+: (events p bs).1 := by
  have hpre := Parser.readAll_starts (p := incoming) (q := p) (f := Option.map (Incoming.seen view))
    (C := fun o => ∀ f, o = some (.frame f) → C f) hitem bs fun o ho f hf => hC f ?_
  · rw [handleRead, events, ← List.reduceOption_map]
    exact hpre.filterMap id
  · subst hf
    exact List.mem_filterMap.mpr ⟨_, ho, rfl⟩

theorem events_eq (bs : List UInt8)
    (hitem : ∀ bs o rest, getIncoming bs = .item o rest →
      p.get bs = .item (o.map (Incoming.seen view)) rest)
    (hmore : ∀ bs, getIncoming bs = .more → p.get bs = .more) {rest : List UInt8}
    (hok : (handleRead bs).2 = .ok rest) :
    events p bs = ((handleRead bs).1.map (Incoming.seen view), .ok rest) := by
  rw [events, Parser.readAll_refines (p := incoming) hitem hmore bs hok, handleRead,
    ← List.reduceOption_map]

end Events

/-- **The readers agree**: what the readers in Rust read of a stream the others read too,
the asynchronous one in Python if the texts keep to its limit. Where those in Rust
wait for more, so do the synchronous one in Python and the one in JavaScript. -/
theorem readers_agree (lossy : List UInt8 → String) (limit : ℕ) (bs : List UInt8) :
    (Ipc.handleRead bs).1.map (Incoming.seen Py.view) <+: (events Py.tReader bs).1 ∧
    (Ipc.handleRead bs).1.map (Incoming.seen Js.view) <+: (events (Js.tReader lossy) bs).1 ∧
    ((∀ f, .frame f ∈ (Ipc.handleRead bs).1 → f.Short limit) →
      (Ipc.handleRead bs).1.map (Incoming.seen Py.view) <+: (events (PyAsync.tReader limit) bs).1) ∧
    ∀ rest, (Ipc.handleRead bs).2 = .ok rest →
      events Py.tReader bs = ((Ipc.handleRead bs).1.map (Incoming.seen Py.view), .ok rest) ∧
      events (Js.tReader lossy) bs =
        ((Ipc.handleRead bs).1.map (Incoming.seen Js.view), .ok rest) := by
  have hpy : ∀ bs o rest, getIncoming bs = .item o rest →
      Py.tReader.get bs = .item (o.map (Incoming.seen Py.view)) rest := fun bs o rest h =>
    framed_of_incoming (C := fun _ => True) (fun hp hl _ => wholeBody_parts Py.parse_parts hp hl) h
      fun _ _ => trivial
  have hjs : ∀ bs o rest, getIncoming bs = .item o rest →
      (Js.tReader lossy).get bs = .item (o.map (Incoming.seen Js.view)) rest := fun bs o rest h =>
    framed_of_incoming (C := fun _ => True)
      (fun hp hl _ => wholeBody_parts (Js.parse_parts lossy) hp hl) h
      fun _ _ => trivial
  refine ⟨events_starts (C := fun _ => True) bs
    (fun bs o rest h _ => hpy bs o rest h) fun _ _ => trivial,
    events_starts (C := fun _ => True) bs (fun bs o rest h _ => hjs bs o rest h) fun _ _ =>
      trivial, fun hC => ?_,
    fun rest hok => ⟨events_eq bs hpy (fun bs h => framed_more h) hok,
      events_eq bs hjs (fun bs h => framed_more h) hok⟩⟩
  exact events_starts bs (fun bs o rest h hC => framed_of_incoming readFrame_parts h hC) hC

/-! ### What they write -/

/-- A frame that one of these clients sends, with the id it takes. -/
inductive ScriptFrame
  | py (frameId : UInt32) (target : Option String) (frame : Py.Frame)
  | js (frameId : UInt32) (frame : Js.Frame) (target : Option String)
  deriving DecidableEq, Repr

/-- `OP_..`, and `BusOp`: the operations of these clients. -/
def busOp (type : UInt8) : Option FrameOp :=
  if type = 1 then some .publishTopic
  else if type = 2 then some .subscribeTopic
  else if type = 3 then some .unsubscribeTopic
  else if type = 0x12 then some .message
  else if type = 0x13 then some .broadcast
  else none

/-- A list of topics, as the broker gets it: it has no empty lists. -/
def asTopics (ts : List String) : List String := if ts = [] then [""] else ts

def Js.OpTopic.topics : Js.OpTopic → List String
  | .one topic => [topic.getD ""]
  | .many ts => ts

namespace ScriptFrame

def frameId : ScriptFrame → UInt32
  | py id _ _ | js id _ _ => id

def type : ScriptFrame → UInt8
  | py _ _ frame => frame.type
  | js _ frame _ => frame.busOp

def qos : ScriptFrame → QoS
  | py _ _ frame => frame.qos
  | js _ frame _ => frame.qos

/-- What goes to the socket, if nothing is raised. -/
def writes : ScriptFrame → Option (List (List UInt8))
  | py id target frame => Py.send id target frame
  | js id frame target => Js.send id frame target

def bytes (s : ScriptFrame) : List UInt8 := (s.writes.getD []).flatten

/-- What is meant by it: topics, or a target with a payload, which begins with the header. -/
def fields : ScriptFrame → Fields
  | py _ target frame =>
    if ofTopics frame.type then .topics (asTopics frame.topics)
    else
      .target (target.getD "")
        (frame.header.getD [] ++ (frame.payload.map Payload.encode).getD [])
  | js _ frame target =>
    if ofTopics frame.busOp then .topics (asTopics frame.opTopic.topics)
    else
      .target (target.getD "")
        (frame.header.getD [] ++ (frame.payload.map Payload.encode).getD [])

/-- The body of a frame that means this. -/
def bodyOf : Fields → List UInt8
  | .topics ts => [0].intercalate (ts.map utf8)
  | .target t p => utf8 t ++ 0 :: p
  | .publishFor t r p => utf8 t ++ 0 :: (utf8 r ++ 0 :: p)

/-- What it counts is bytes. -/
def Counted : ScriptFrame → Prop
  | py _ target frame => Py.Counted target frame
  | js _ frame _ => Js.Counted frame

/-- The texts that must have no zero byte. -/
def texts (s : ScriptFrame) : List String :=
  match s.fields with
  | .topics ts => ts
  | .target t _ => [t]
  | .publishFor t r _ => [t, r]

end ScriptFrame

theorem intercalate_asTopics (ts : List String) :
    [0].intercalate (ts.map utf8) = [0].intercalate ((asTopics ts).map utf8) := by
  unfold asTopics
  split
  · rename_i h
    rw [h]
    rfl
  · rfl

/-- Topics with a zero byte after each but the last. -/
theorem dropLast_flatten : ∀ ts : List String,
    ((ts.flatMap fun v => [utf8 v, [0]]).dropLast).flatten = [0].intercalate (ts.map utf8)
  | [] => rfl
  | [t] => by simp
  | t :: u :: ts => by
    have ih := dropLast_flatten (u :: ts)
    have hne : ((u :: ts).flatMap fun v => [utf8 v, [0]]) ≠ [] := by simp
    rw [List.flatMap_cons, List.cons_append, List.cons_append, List.nil_append,
      List.dropLast_cons_of_ne_nil (by simp), List.dropLast_cons_of_ne_nil hne, List.flatten_cons,
      List.flatten_cons, ih]
    simp only [List.map_cons, List.intercalate_cons_cons, List.append_assoc]

theorem buf_eq (o : Js.OpTopic) : o.buf = [0].intercalate (o.topics.map utf8) := by
  cases o with
  | one topic => simp [Js.OpTopic.buf, Js.OpTopic.topics]
  | many ts => exact dropLast_flatten ts

theorem code_of_busOp {type : UInt8} {op : FrameOp} (h : busOp type = some op) :
    op.code = type ∧ op ≠ .nop ∧ (ofTopics type = true ↔ op = .subscribeTopic ∨
      op = .unsubscribeTopic) ∧
      op ≠ .publishTopicFor ∧ op ≠ .excludeTopic ∧ op ≠ .unexcludeTopic := by
  unfold busOp at h
  repeat' split at h
  all_goals first | (cases h; subst_vars; decide) | cases h

/-- A frame of a binding is one of the broker's frames, with what is meant in its body. -/
theorem bytes_scriptFrame {s : ScriptFrame} {ws : List (List UInt8)} {op : FrameOp}
    (hw : s.writes = some ws) (hc : s.Counted) (hop : busOp s.type = some op) :
    s.bytes = frameBytes s.frameId op s.qos (ScriptFrame.bodyOf s.fields) := by
  have hcode := (code_of_busOp hop).1
  rw [ScriptFrame.bytes, hw, Option.getD_some, frameBytes, hcode]
  cases s with
  | py id target frame =>
    simp only [ScriptFrame.writes, Py.send] at hw
    simp only [ScriptFrame.fields, ScriptFrame.frameId, ScriptFrame.type, ScriptFrame.qos]
    split at hw
    · rename_i ht
      obtain ⟨len, hlen, hws⟩ := Option.bind_eq_some_iff.mp hw
      cases hws
      obtain ⟨-, rfl⟩ := u32le_some hlen
      rw [if_pos ht, ScriptFrame.bodyOf, ← intercalate_asTopics, List.flatten_singleton]
    · rename_i ht
      obtain ⟨t, rfl, hsend⟩ := Option.bind_eq_some_iff.mp hw
      obtain ⟨p, hp, hsend⟩ := Option.bind_eq_some_iff.mp hsend
      split at hsend
      · cases hsend
      · obtain ⟨len, hlen, hws⟩ := Option.bind_eq_some_iff.mp hsend
        cases hws
        obtain ⟨-, rfl⟩ := u32le_some hlen
        obtain ⟨hct, hcp⟩ := hc.resolve_left ht
        have h1 := (length_utf8_eq_iff t).mpr (hct t rfl)
        have h2 := p.len_eq_iff.mpr (hcp p hp)
        have hn : t.length + p.len + 1 + (frame.header.map List.length).getD 0 =
            (utf8 t ++ 0 :: (frame.header.getD [] ++ p.encode)).length := by
          cases frame.header <;> simp <;> omega
        rw [if_neg ht, ScriptFrame.bodyOf, Option.getD_some, hp, Option.map_some, Option.getD_some,
          hn]
        simp
  | js id frame target =>
    simp only [ScriptFrame.writes, Js.send, bind, Option.bind] at hw
    simp only [ScriptFrame.fields, ScriptFrame.frameId, ScriptFrame.type, ScriptFrame.qos]
    split at hw
    · rename_i ht
      split at hw
      · cases hw
      · rename_i len hlen
        cases hw
        obtain ⟨-, rfl⟩ := u32le_some hlen
        rw [if_pos ht, ScriptFrame.bodyOf, ← intercalate_asTopics, ← buf_eq, List.flatten_singleton]
    · rename_i ht
      split at hw
      · cases hw
      · split at hw
        · cases hw
        · rename_i len hlen
          cases hw
          obtain ⟨-, rfl⟩ := u32le_some hlen
          have hcp := hc.resolve_left ht
          have hn : (utf8 (target.getD "")).length + (frame.payload.map Payload.length).getD 0 + 1 +
              (frame.header.map List.length).getD 0 =
              (utf8 (target.getD "") ++ 0 ::
                (frame.header.getD [] ++ (frame.payload.map Payload.encode).getD [])).length := by
            cases hp : frame.payload with
            | none => cases frame.header <;> simp; omega
            | some p =>
              have hlen := p.length_eq_iff.mpr (hcp p hp)
              cases frame.header <;> simp <;> omega
          rw [if_neg ht, ScriptFrame.bodyOf, hn]
          cases frame.payload <;> simp

/-- The request that the broker is to read. -/
def ScriptFrame.request (s : ScriptFrame) (op : FrameOp) : Request :=
  ⟨toLe 4 s.frameId.toNat, op, s.qos, bodyOf s.fields, rfl⟩

/-- A frame of an operation that was sent, with counted bytes, NUL-free texts and a length that is
allowed. -/
structure ScriptFrame.Proper (l : Limits) (s : ScriptFrame) : Prop where
  written : s.writes.isSome = true
  counted : s.Counted
  known : (busOp s.type).isSome = true
  nulFree : ∀ t ∈ s.texts, NulFree t
  fits : l.Allows (bodyOf s.fields).length

/-- The operation of a frame. -/
def ScriptFrame.op (s : ScriptFrame) : FrameOp := (busOp s.type).getD .nop

theorem fields_scriptFrame {l : Limits} {s : ScriptFrame} (h : s.Proper l) :
    (s.request s.op).fields = .ok s.fields := by
  obtain ⟨op, hop⟩ := Option.isSome_iff_exists.mp h.known
  obtain ⟨-, -, htopics, hpub, hex, hunex⟩ := code_of_busOp hop
  have hnul := h.nulFree
  unfold ScriptFrame.texts at hnul
  rw [ScriptFrame.op, hop, Option.getD_some]
  by_cases ht : ofTopics s.type = true
  · obtain ⟨ts, hts, hne⟩ : ∃ ts, s.fields = .topics ts ∧ ts ≠ [] := by
      have hne : ∀ ts, asTopics ts ≠ [] := by
        intro ts
        unfold asTopics
        split
        · simp
        · assumption
      cases s with
      | py id target frame => exact ⟨_, if_pos ht, hne _⟩
      | js id frame target => exact ⟨_, if_pos ht, hne _⟩
    rw [hts] at hnul ⊢
    have hsplit : splitZeros ([0].intercalate (ts.map utf8)) = ts.map utf8 := by
      refine List.splitOn_intercalate 0 (fun b hb => ?_) (by simpa using hne)
      obtain ⟨t, ht, rfl⟩ := List.mem_map.mp hb
      exact hnul t ht
    rcases htopics.mp ht with rfl | rfl
    · simp only [Request.fields, ScriptFrame.request, hts, ScriptFrame.bodyOf, hsplit, topicsOf_map,
        if_true]
    · simp only [Request.fields, ScriptFrame.request, hts, ScriptFrame.bodyOf, hsplit, topicsOf_map,
        if_true]
  · obtain ⟨t, p, htp⟩ : ∃ t p, s.fields = .target t p := by
      cases s with
      | py id target frame => exact ⟨_, _, if_neg ht⟩
      | js id frame target => exact ⟨_, _, if_neg ht⟩
    rw [htp] at hnul ⊢
    have hn := hnul t List.mem_cons_self
    rw [htopics, not_or] at ht
    cases op with
    | message | broadcast | publishTopic =>
      simp only [Request.fields, ScriptFrame.request, htp, ScriptFrame.bodyOf, targetOf_append hn,
        drop_target]
    | nop => exact absurd rfl (code_of_busOp hop).2.1
    | subscribeTopic => exact absurd rfl ht.1
    | unsubscribeTopic => exact absurd rfl ht.2
    | publishTopicFor => exact absurd rfl hpub
    | excludeTopic => exact absurd rfl hex
    | unexcludeTopic => exact absurd rfl hunex

namespace Scripts

/-- A message from Python, and topics from JavaScript, one of them with a letter of two bytes. -/
def frames : List ScriptFrame :=
  [.py 1 (some "w")
      { type := 0x12, qos := .processed, header := some [0], payload := some (.bytes [7, 0, 8]) },
    .js 2 { busOp := 2, opTopic := .many ["a/#", "é"] } none]

end Scripts

end Busrt
