/-
# The declared length of a frame

Every frame says in four bytes how long its body is. The Rust clients and the
broker cast the length to these four bytes, so that from 2³² on it wraps. The
broker adds up the body of a frame again when it writes it: the name of the
sender comes in, and the topic of a publication stays, so a frame that fitted
on its way in may not fit on its way out.

The other clients check: the one in JavaScript throws before it writes anything,
the one in Python raises. But a payload may be a text there, such as what an error
says, and of a text they count the units of UTF-16 or the characters and write
the bytes of its encoding, the one in Python also of the target.

Key definitions: `Declares`, `Fields.outLen`, `Payload`, `Js.send`, `Py.send`.
Key theorems: `declares_bytes`, `declares_outgoing`, `Js.declares_send`, `Py.declares_send`,
`declares_iff`.
-/
import Busrt.Encode

namespace Busrt

open Lib

/-- The number in the four bytes from `pos` on is how many bytes follow the first `hdr`. -/
def Declares (pos hdr : ℕ) (bs : List UInt8) : Prop :=
  hdr ≤ bs.length ∧ ofLe ((bs.drop pos).take 4) = bs.length - hdr

instance (pos hdr : ℕ) (bs : List UInt8) : Decidable (Declares pos hdr bs) :=
  inferInstanceAs (Decidable (_ ∧ _))

theorem declares_of_parts {pos hdr : ℕ} {pre mid body : List UInt8} (n : ℕ)
    (hpos : pre.length = pos) (hhdr : pre.length + 4 + mid.length = hdr) :
    Declares pos hdr (pre ++ toLe 4 n ++ mid ++ body) ↔ n % 2 ^ 32 = body.length := by
  have htake : ((pre ++ toLe 4 n ++ mid ++ body).drop pos).take 4 = toLe 4 n := by
    rw [List.append_assoc, List.append_assoc, List.drop_left' hpos,
      List.take_left' (length_toLe 4 n)]
  have hlen : (pre ++ toLe 4 n ++ mid ++ body).length = hdr + body.length := by
    simp only [List.length_append, length_toLe]
    omega
  have hle : ofLe (toLe 4 n) = n % 2 ^ 32 := ofLe_toLe 4 n
  rw [Declares, htake, hlen, hle, Nat.add_sub_cancel_left]
  exact and_iff_right (Nat.le_add_right _ _)

theorem mod_eq_self_iff {n : ℕ} : n % 2 ^ 32 = n ↔ n < 2 ^ 32 :=
  ⟨fun h => h ▸ Nat.mod_lt n (by decide), Nat.mod_eq_of_lt⟩

/-! ### Characters and bytes -/

theorem length_utf8 (s : String) : (utf8 s).length = (s.toList.map Char.utf8Size).sum := by
  simp [utf8_eq_encode, encode, List.length_flatMap]

/-- Every character is one byte. -/
def IsAscii (s : String) : Prop := ∀ c ∈ s.toList, c.val ≤ 127

instance (s : String) : Decidable (IsAscii s) :=
  @List.decidableBAll Char (fun c => c.val ≤ 127) (fun c => UInt32.decLe c.val 127) s.toList

/-- `length` of a string in JavaScript: the units of UTF-16. -/
def utf16Length (s : String) : ℕ := (s.toList.map fun c => if c.val ≤ 0xffff then 1 else 2).sum

/-- Units of which a character has at most as many as bytes, and as many only in ASCII. -/
def Units (f : Char → ℕ) : Prop := ∀ c, f c ≤ c.utf8Size ∧ (c.utf8Size = f c ↔ c.val ≤ 127)

theorem units_one : Units fun _ => 1 := fun c => ⟨c.utf8Size_pos, Char.utf8Size_eq_one_iff⟩

theorem units_utf16 : Units fun c => if c.val ≤ 0xffff then 1 else 2 := by
  intro c
  have hone := @Char.utf8Size_eq_one_iff c
  have hpos := c.utf8Size_pos
  have hle : c.val ≤ 127 → c.val ≤ 0xffff := fun h => UInt32.le_trans h (by decide)
  dsimp only
  split
  · exact ⟨hpos, hone⟩
  · rename_i hbig
    have hfour : c.utf8Size = 4 := Char.utf8Size_eq_four_iff.mpr (by simpa using hbig)
    rw [hfour]
    exact ⟨by decide, iff_of_false (by decide) fun h => hbig (hle h)⟩

theorem sum_units {f : Char → ℕ} (hf : Units f) : ∀ cs : List Char,
    (cs.map f).sum ≤ (cs.map Char.utf8Size).sum ∧
      ((cs.map Char.utf8Size).sum = (cs.map f).sum ↔ ∀ c ∈ cs, c.val ≤ 127)
  | [] => by simp
  | c :: cs => by
    obtain ⟨hle, heq⟩ := sum_units hf cs
    obtain ⟨hc, hceq⟩ := hf c
    rw [List.map_cons, List.map_cons, List.sum_cons, List.sum_cons, List.forall_mem_cons, ← heq,
      ← hceq]
    omega

theorem length_eq_sum (s : String) : s.length = (s.toList.map fun _ => 1).sum := by
  simp [← String.length_toList]

/-- There are at least as many bytes as characters. -/
theorem length_le_utf8 (s : String) : s.length ≤ (utf8 s).length := by
  rw [length_utf8, length_eq_sum]
  exact (sum_units units_one _).1

/-- There are as many only in ASCII. -/
theorem length_utf8_eq_iff (s : String) : (utf8 s).length = s.length ↔ IsAscii s := by
  rw [length_utf8, length_eq_sum]
  exact (sum_units units_one _).2

/-! ### The clients in Rust -/

/-- A client's frame declares its length exactly if the body is below 2³². -/
theorem declares_bytes (id : UInt32) (o : ClientOp) :
    Declares 5 9 (Ipc.bytes id o) ↔ o.body.length < 2 ^ 32 := by
  by_cases hp : o = .ping
  · subst hp
    have hping : Declares 5 9 PING_FRAME := by decide
    exact iff_of_true hping (by decide)
  · rw [bytes_frame id hp, frameBytes, ← mod_eq_self_iff,
      ← List.append_nil (_ ++ toLe 4 o.body.length)]
    exact declares_of_parts _ (by simp) (by simp)

/-! ### The broker -/

/-- So does a frame that `handle_writer` writes. -/
theorem declares_data {f : FrameData} (hk : f.kind ≠ .prepared) (hp : f.payloadPos ≤ f.buf.length) :
    Declares 1 6 f.bytes ↔
      (field f.sender).length + (field f.topic).length + (f.header.getD []).length +
        f.payload.length < 2 ^ 32 := by
  have hbody : (field f.sender ++ field f.topic ++ f.content).length =
      (field f.sender).length + (field f.topic).length + (f.header.getD []).length +
        f.payload.length := by
    simp only [FrameData.content, List.length_append]
    omega
  rw [← hbody, ← mod_eq_self_iff, bytes_eq hk, frameLen_eq hp, ← List.singleton_append]
  exact declares_of_parts _ rfl rfl

/-- The body that goes out for what came in: the name of the sender is in it, a target or a receiver
is not. -/
def Fields.outLen (name : String) (op : FrameOp) : Fields → ℕ
  | .target t p =>
    (utf8 name).length + 1 + (if op = .publishTopic then (utf8 t).length + 1 else 0) + p.length
  | .publishFor t _ p => (utf8 name).length + 1 + ((utf8 t).length + 1) + p.length
  | .topics _ => 0

/-- An accepted message, broadcast or publication goes out with its length as long as that is below
2³². -/
theorem declares_outgoing (c : BrokerClient) (n : ℕ) {r : Request} {f : Fields}
    (hop : r.op.carries = true) (hf : r.fields = .ok f) :
    ∃ fr, r.outgoing c n = some fr ∧
      (Declares 1 6 fr.data.bytes ↔ f.outLen c.name r.op < 2 ^ 32) := by
  obtain ⟨fr, hfr⟩ := outgoing_of_fields c n hop hf
  obtain ⟨hbuf, hpos, -⟩ := reencode_outgoing hfr
  refine ⟨fr, hfr, ?_⟩
  unfold Request.outgoing at hfr
  split at hfr
  · cases hfr
  · rename_i target pos ht
    cases ho : r.op with
    | message | broadcast | publishTopic =>
      simp only [Request.fields, ho, ht] at hf hfr
      cases hf
      cases hfr
      rw [declares_data (fun hk => by cases hk) hpos]
      simp [Request.frame, FrameData.payload, Fields.outLen, field]
    | publishTopicFor =>
      simp only [Request.fields, ho, ht] at hf hfr
      split at hf
      · cases hf
      · rename_i receiver pos' ht'
        simp only [ht'] at hfr
        cases hf
        cases hfr
        rw [declares_data (fun hk => by cases hk) hpos]
        simp [Request.frame, FrameData.payload, Fields.outLen, field]
    | _ => rw [ho] at hop; cases hop

/-- A frame of an internal client. -/
theorem declares_local {kind : FrameKind} (hk : kind ≠ .prepared) (c : BrokerClient)
    (topic : Option String) (header : Option (List UInt8)) (payload : List UInt8) (qos : QoS) :
    Declares 1 6 (localFrame kind c topic header payload qos).data.bytes ↔
      (utf8 c.name).length + 1 + (field topic).length + (header.getD []).length +
        payload.length < 2 ^ 32 := by
  have hs : (utf8 c.name).length + 1 = (field (some c.name)).length := by simp [field]
  rw [hs]
  exact declares_data hk (Nat.zero_le _)

/-! ### The other clients -/

/-- `writeUInt32LE`, and `to_bytes(4, 'little')`: a number that does not fit is an exception. -/
def u32le (n : ℕ) : Option (List UInt8) := if n < 2 ^ 32 then some (toLe 4 n) else none

theorem u32le_some {n : ℕ} {bs : List UInt8} (h : u32le n = some bs) :
    n < 2 ^ 32 ∧ bs = toLe 4 n := by
  unfold u32le at h
  split at h
  · rename_i hn
    cases h
    exact ⟨hn, rfl⟩
  · cases h

/-- The operations whose body is a list of topics. -/
def ofTopics (op : UInt8) : Bool := op == 2 || op == 3

/-- A header that declares `n`, before a body in two writes. -/
theorem declares_header {id : UInt32} {flags : UInt8} {n : ℕ} (body : List UInt8) (h : n < 2 ^ 32) :
    Declares 5 9 (toLe 4 id.toNat ++ [flags] ++ toLe 4 n ++ body) ↔ n = body.length := by
  have hparts : Declares 5 9 (toLe 4 id.toNat ++ [flags] ++ toLe 4 n ++ [] ++ body) ↔
      n % 2 ^ 32 = body.length :=
    declares_of_parts n (by simp) (by simp)
  rwa [List.append_nil, Nat.mod_eq_of_lt h] at hparts

/-- What can be a payload: bytes, or a text. -/
inductive Payload
  | bytes (bs : List UInt8)
  | str (s : String)
  deriving DecidableEq, Repr

namespace Payload

/-- The bytes that are written. -/
def encode : Payload → List UInt8
  | bytes bs => bs
  | str s => utf8 s

/-- `len`, in Python: of a `str`, the characters. -/
def len : Payload → ℕ
  | bytes bs => bs.length
  | str s => s.length

/-- `length`, in JavaScript. -/
def length : Payload → ℕ
  | bytes bs => bs.length
  | str s => utf16Length s

/-- Every character that is counted is one byte. -/
def IsAscii : Payload → Prop
  | bytes _ => True
  | str s => Busrt.IsAscii s

instance : ∀ p : Payload, Decidable p.IsAscii
  | bytes _ => inferInstanceAs (Decidable True)
  | str s => inferInstanceAs (Decidable (Busrt.IsAscii s))

theorem len_le : ∀ p : Payload, p.len ≤ p.encode.length
  | bytes _ => le_rfl
  | str s => length_le_utf8 s

theorem len_eq_iff : ∀ p : Payload, p.encode.length = p.len ↔ p.IsAscii
  | bytes _ => iff_of_true rfl trivial
  | str s => length_utf8_eq_iff s

theorem length_le : ∀ p : Payload, p.length ≤ p.encode.length
  | bytes _ => le_rfl
  | str s => (sum_units units_utf16 _).1.trans_eq (length_utf8 s).symm

theorem length_eq_iff : ∀ p : Payload, p.encode.length = p.length ↔ p.IsAscii
  | bytes _ => iff_of_true rfl trivial
  | str s => by
    rw [encode, length_utf8]
    exact (sum_units units_utf16 _).2

end Payload

namespace Js

/-- `FrameInterface.op_topic`. -/
inductive OpTopic
  | one (topic : Option String)
  | many (topics : List String)
  deriving DecidableEq, Repr

/-- `FrameInterface`, as far as `_send` reads it. -/
structure Frame where
  busOp : UInt8
  qos : QoS := .no
  opTopic : OpTopic := .one none
  header : Option (List UInt8) := none
  payload : Option Payload := none
  deriving DecidableEq, Repr

/-- `Buffer.from` of the topics. -/
def OpTopic.buf : OpTopic → List UInt8
  | .one topic => utf8 (topic.getD "")
  | .many topics => (topics.flatMap fun v => [utf8 v, [0]]).dropLast.flatten

/-- `Bus._send`: what goes to the socket, unless it throws. -/
def send (frameId : UInt32) (frame : Frame) (target : Option String) : Option (List (List UInt8)) :=
  let flags := frame.busOp ||| frame.qos.code <<< 6
  if ofTopics frame.busOp then do
    let payload := frame.opTopic.buf
    let len ← u32le payload.length
    some [toLe 4 frameId.toNat ++ [flags] ++ len ++ payload]
  else
    let targetBuf := utf8 (target.getD "")
    let frameLen := targetBuf.length + (frame.payload.map Payload.length).getD 0 + 1 +
      (frame.header.map List.length).getD 0
    if 0xffffffff < frameLen then none
    else do
      let len ← u32le frameLen
      some ((toLe 4 frameId.toNat ++ [flags] ++ len ++ targetBuf ++ [0] ++ frame.header.getD []) ::
        (frame.payload.map Payload.encode).toList)

/-- Topics and targets are counted in bytes; the payload of other frames is to be ASCII if it is a
text. -/
def Counted (frame : Frame) : Prop := ofTopics frame.busOp = true ∨ ∀ p ∈ frame.payload, p.IsAscii

instance (frame : Frame) : Decidable (Counted frame) := inferInstanceAs (Decidable (_ ∨ _))

/-- What the client in JavaScript writes declares its length if every counted unit is one byte. -/
theorem declares_send {id : UInt32} {frame : Frame} {target : Option String}
    {ws : List (List UInt8)} (h : send id frame target = some ws) :
    Declares 5 9 ws.flatten ↔ Counted frame := by
  unfold send at h
  simp only [bind, Option.bind] at h
  split at h
  · rename_i htopics
    split at h
    · cases h
    · rename_i len hlen
      cases h
      obtain ⟨hlt, rfl⟩ := u32le_some hlen
      rw [List.flatten_singleton]
      exact iff_of_true ((declares_header _ hlt).mpr rfl) (.inl htopics)
  · rename_i htopics
    split at h
    · cases h
    · split at h
      · cases h
      · rename_i len hlen
        cases h
        obtain ⟨hlt, rfl⟩ := u32le_some hlen
        have hcounted : Counted frame ↔ ∀ p ∈ frame.payload, p.encode.length = p.length := by
          simp only [Counted, htopics, Bool.false_eq_true, false_or, Payload.length_eq_iff]
        rw [hcounted, List.flatten_cons]
        simp only [List.append_assoc]
        rw [← List.append_assoc (toLe 4 _), ← List.append_assoc, declares_header _ hlt]
        cases frame.payload with
        | none => cases frame.header <;> simp; omega
        | some p =>
          have hle := p.length_le
          cases frame.header <;> simp <;> omega

end Js

namespace Py

/-- `Frame`, as far as `send` reads it. -/
structure Frame where
  type : UInt8
  qos : QoS := .no
  topics : List String := []
  header : Option (List UInt8) := none
  payload : Option Payload := none
  deriving DecidableEq, Repr

/-- `Client.send`: what goes to the socket, unless it raises. -/
def send (frameId : UInt32) (target : Option String) (frame : Frame) : Option (List (List UInt8)) :=
  let flags := frame.type ||| frame.qos.code <<< 6
  if ofTopics frame.type then do
    let payload := [0].intercalate (frame.topics.map utf8)
    let len ← u32le payload.length
    some [toLe 4 frameId.toNat ++ [flags] ++ len ++ payload]
  else do
    -- `len(None)` raises
    let target ← target
    let payload ← frame.payload
    let frameLen := target.length + payload.len + 1 + (frame.header.map List.length).getD 0
    if 0xffffffff < frameLen then none
    else
      let len ← u32le frameLen
      some [toLe 4 frameId.toNat ++ [flags] ++ len ++ utf8 target ++ [0] ++
        frame.header.getD [], payload.encode]

/-- Topics are counted in bytes; of other frames the target and the payload are to be ASCII. -/
def Counted (target : Option String) (frame : Frame) : Prop :=
  ofTopics frame.type = true ∨ (∀ t ∈ target, Busrt.IsAscii t) ∧ ∀ p ∈ frame.payload, p.IsAscii

instance (target : Option String) (frame : Frame) : Decidable (Counted target frame) :=
  inferInstanceAs (Decidable (_ ∨ _))

/-- What the client in Python writes declares its length if every counted character is one byte. -/
theorem declares_send {id : UInt32} {target : Option String} {frame : Frame}
    {ws : List (List UInt8)} (h : send id target frame = some ws) :
    Declares 5 9 ws.flatten ↔ Counted target frame := by
  unfold send at h
  simp only at h
  split at h
  · rename_i htopics
    obtain ⟨len, hlen, hws⟩ := Option.bind_eq_some_iff.mp h
    cases hws
    obtain ⟨hlt, rfl⟩ := u32le_some hlen
    rw [List.flatten_singleton]
    exact iff_of_true ((declares_header _ hlt).mpr rfl) (.inl htopics)
  · rename_i htopics
    obtain ⟨t, ht, hsend⟩ := Option.bind_eq_some_iff.mp h
    obtain ⟨p, hp, hsend⟩ := Option.bind_eq_some_iff.mp hsend
    split at hsend
    · cases hsend
    · obtain ⟨len, hlen, hws⟩ := Option.bind_eq_some_iff.mp hsend
      cases hws
      obtain ⟨hlt, rfl⟩ := u32le_some hlen
      have hcounted : Counted target frame ↔ (utf8 t).length = t.length ∧
          p.encode.length = p.len := by
        simp [Counted, htopics, ht, hp, length_utf8_eq_iff, p.len_eq_iff]
      have hchars := length_le_utf8 t
      have hle := p.len_le
      simp only [List.flatten_cons, List.flatten_nil, List.append_nil, List.append_assoc]
      rw [hcounted, ← List.append_assoc (toLe 4 _), ← List.append_assoc, declares_header _ hlt]
      cases frame.header <;> simp <;> omega

end Py

/-! ### All of them -/

/-- **The declared length**: of a frame by a Rust client or by the broker it is right exactly if the
body is below 2³², of one by the JavaScript or the Python client if it has counted bytes. -/
theorem declares_iff (id : UInt32) :
    (∀ o, (Declares 5 9 (Ipc.bytes id o) ↔ o.body.length < 2 ^ 32) ∧
      (Declares 5 9 (SyncIpc.bytes id o) ↔ o.body.length < 2 ^ 32)) ∧
    (∀ c n (r : Request) f, r.op.carries = true → r.fields = .ok f →
      ∃ fr, r.outgoing c n = some fr ∧
      (Declares 1 6 fr.data.bytes ↔ f.outLen c.name r.op < 2 ^ 32)) ∧
    (∀ kind c topic header payload qos, kind ≠ .prepared →
      (Declares 1 6 (localFrame kind c topic header payload qos).data.bytes ↔
        (utf8 c.name).length + 1 + (field topic).length + (header.getD []).length +
          payload.length < 2 ^ 32)) ∧
    (∀ frame target ws, Js.send id frame target = some ws →
      (Declares 5 9 ws.flatten ↔ Js.Counted frame)) ∧
    ∀ target frame ws, Py.send id target frame = some ws →
      (Declares 5 9 ws.flatten ↔ Py.Counted target frame) :=
  ⟨fun o => ⟨declares_bytes id o, bytes_sync id o ▸ declares_bytes id o⟩,
    fun c n _ _ hop hf => declares_outgoing c n hop hf,
    fun _ c topic header payload qos hk => declares_local hk c topic header payload qos,
    fun _ _ _ h => Js.declares_send h, fun _ _ _ h => Py.declares_send h⟩

namespace Oversize

/-- A publication with `n` zero bytes. -/
def publication (n : ℕ) : ClientOp := .publish "t" (List.replicate n 0) .no

/-- What the broker reads of it. -/
def request (n : ℕ) : Request :=
  ⟨toLe 4 (1 : UInt32).toNat, .publishTopic, .no, (publication n).body, rfl⟩

/-- The publisher. -/
def publisher : BrokerClient := ⟨0, "w", .localIpc, none, none⟩

/-- A message without a payload. -/
def empty : Py.Frame := { type := 0x12, payload := some (.bytes []) }

/-- The answer to the call 5 where the function throws an `Error`: the code of an internal error,
and what it says. -/
def thrown (message : String) : Js.Frame :=
  { busOp := 0x12, header := some [0x12, 5, 0, 0, 0, 0xa5, 0x80], payload := some (.str message) }

theorem length_body (n : ℕ) : (publication n).body.length = n + 2 := by
  have ht : (utf8 "t").length = 1 := by decide
  simp [publication, ClientOp.body, ht]
  omega

theorem fields_request (n : ℕ) : (request n).fields = .ok (.target "t" (List.replicate n 0)) :=
  (fields_body 1 (o := publication n) nofun rfl
    (by simp only [publication, ClientOp.texts]; decide)).fields

/-- Up to the last length that a client can write the broker reads the publication. -/
theorem get_publication {n : ℕ} (h : n + 2 < 2 ^ 32) :
    getRequest {} (Ipc.bytes 1 (publication n)) = .item (some (request n)) [] := by
  have hop : FrameOp.publishTopic ≠ .nop := nofun
  have hfit : ({} : Limits).Allows (publication n).body.length := ⟨length_body n ▸ h, nofun⟩
  have hget := getRequest_frame (fun _ => rfl) 1 .no hop hfit []
  rw [List.append_nil] at hget
  rw [bytes_frame 1 (o := publication n) nofun]
  exact hget

end Oversize

open Oversize in
/-- The publication that the reader of the broker takes, an error for `é` in JavaScript, and a
message in Python. -/
theorem declares_iff_read :
    (∃ fr, (request 0).outgoing publisher 0 = some fr ∧ Declares 1 6 fr.data.bytes) ∧
    (∃ ws, Js.send 1 (thrown "e") (some "é") = some ws ∧ Declares 5 9 ws.flatten) ∧
    ∃ ws, Py.send 1 (some "e") empty = some ws ∧ Declares 5 9 ws.flatten := by
  obtain ⟨-, hread, -, hjs, hpy⟩ := declares_iff 1
  obtain ⟨fr, hfr, hiff⟩ := hread publisher 0 (request 0) _ rfl (fields_request 0)
  exact ⟨⟨fr, hfr, hiff.mpr (by decide)⟩,
    ⟨_, rfl, (hjs (thrown "e") (some "é") _ rfl).mpr (by decide)⟩,
    ⟨_, rfl, (hpy (some "e") empty _ rfl).mpr (by decide)⟩⟩

open Oversize in
/-- Four gigabytes wrap in a client, and in the broker although it has read them; in an error of
JavaScript and in a target of Python one letter is enough. -/
theorem wraps :
    ¬ Declares 5 9 (Ipc.bytes 1 (publication (2 ^ 32 - 2))) ∧
    (getRequest {} (Ipc.bytes 1 (publication (2 ^ 32 - 3))) =
      .item (some (request (2 ^ 32 - 3))) [] ∧
      ∃ fr, (request (2 ^ 32 - 3)).outgoing publisher 0 = some fr ∧ ¬ Declares 1 6 fr.data.bytes) ∧
    (∃ ws, Js.send 1 (thrown "é") (some "w") = some ws ∧ ¬ Declares 5 9 ws.flatten) ∧
    ∃ ws, Py.send 1 (some "é") empty = some ws ∧ ¬ Declares 5 9 ws.flatten := by
  refine ⟨?_, ⟨get_publication (by norm_num), ?_⟩, ⟨_, rfl, by decide⟩, _, rfl, by decide⟩
  · rw [declares_bytes, length_body]
    norm_num
  · obtain ⟨fr, hfr, hiff⟩ :=
      declares_outgoing publisher 0 (r := request (2 ^ 32 - 3)) rfl (fields_request _)
    refine ⟨fr, hfr, ?_⟩
    have hw : (utf8 publisher.name).length = 1 := by decide
    have ht : (utf8 "t").length = 1 := by decide
    have hop : (request (2 ^ 32 - 3)).op = .publishTopic := rfl
    rw [hiff, Fields.outLen, hw, ht, List.length_replicate, if_pos hop]
    norm_num

end Busrt
