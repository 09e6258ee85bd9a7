/-
# Topics and their handlers

`TopicBroker` has two maps, of topics and of prefixes, each kept in the order of
the bytes of its keys. A frame goes to the handler of its topic, if there is one,
and otherwise to that of the first prefix in this order with which the topic
begins; as a text comes before all that begin with it, that is the shortest. The
rest of the topic begins with a character, since the bytes of a text begin with
the bytes of another only where the text begins with it.

What is registered is the first call for each topic and for each prefix
(`kept`), and the maps hold exactly that (`Stores.register`).

Key definitions: `TopicBroker`, `TopicBroker.process`, `Publication.subtopic`, `kept`, `Gets`.
Key theorems: `built_stores`, `process_gets`, `process_returns`, `dispatch_exact`.
-/
import Busrt.Wire
import Busrt.Lib.Prog
import Busrt.Lib.SortedMap

namespace Busrt

open Lib

/-! ### Texts and their bytes -/

namespace Topics

scoped instance linearOrderUInt8 : LinearOrder UInt8 where
  le_refl := UInt8.le_refl
  le_trans _ _ _ := UInt8.le_trans
  lt_iff_le_not_ge a b := by
    rw [UInt8.lt_iff_toNat_lt, UInt8.le_iff_toNat_le, UInt8.le_iff_toNat_le]
    omega
  le_antisymm _ _ := UInt8.le_antisymm
  le_total := UInt8.le_total
  toDecidableLE := fun a b => inferInstanceAs (Decidable (a ≤ b))

end Topics

open Topics

/-- `str::is_char_boundary`. -/
def isCharBoundary (s : String) (pos : ℕ) : Bool :=
  pos == 0 || match (utf8 s)[pos]? with
    | none => pos == (utf8 s).length
    | some b => !isContinuation b

/-- `&s[pos..]`, which panics where this is `none`. -/
def sliceFrom (s : String) (pos : ℕ) : Option String :=
  if isCharBoundary s pos then (fromUtf8 ((utf8 s).drop pos)).toOption else none

/-- `str::starts_with`, by the bytes of the pattern. -/
def startsWith (s : String) (pfx : List UInt8) : Bool := pfx.isPrefixOf (utf8 s)

/-! ### The broker of topics -/

/-- `Publication`. -/
structure Publication where
  subtopicPos : ℕ
  frame : Frame
  handlerId : ℕ

/-- `Publication::subtopic`. -/
def Publication.subtopic (p : Publication) : Option String :=
  p.frame.data.topic.bind fun topic => sliceFrom topic p.subtopicPos

/-- The two maps. -/
inductive Table
  | topics | prefixes
  deriving DecidableEq, Repr

/-- `TopicBroker`. The keys are the bytes of topics and prefixes, a value is the sender of a
channel and a handler id. -/
structure TopicBroker (Tx : Type) where
  prefixes : SortedMap (List UInt8) (Tx × ℕ)
  topics : SortedMap (List UInt8) (Tx × ℕ)

/-- Sending to a channel: whether it was taken, or the channel is closed. -/
inductive SendOp (Tx : Type)
  | send (tx : Tx) (p : Publication)

def SendOp.Ans (Tx : Type) : SendOp Tx → Type := fun _ => Bool

variable {Tx : Type}

namespace TopicBroker

/-- `TopicBroker::new`. -/
def new (Tx : Type) : TopicBroker Tx := ⟨.empty, .empty⟩

/-- One of the maps. -/
def table (b : TopicBroker Tx) : Table → SortedMap (List UInt8) (Tx × ℕ)
  | .topics => b.topics
  | .prefixes => b.prefixes

/-- The broker with another map. -/
def setTable (b : TopicBroker Tx) (m : SortedMap (List UInt8) (Tx × ℕ)) : Table → TopicBroker Tx
  | .topics => { b with topics := m }
  | .prefixes => { b with prefixes := m }

/-- An entry, if it is vacant. -/
def register (b : TopicBroker Tx) (t : Table) (name : String) (handlerId : ℕ) (tx : Tx)
    (busy : String) :
    TopicBroker Tx × Except Error Unit :=
  match (b.table t).get (utf8 name) with
  | none => (b.setTable ((b.table t).insert (utf8 name) (tx, handlerId)) t, .ok ())
  | some _ => (b, .error (Error.busy busy))

/-- `register_topic_tx`. -/
def registerTopicTx (b : TopicBroker Tx) (topic : String) (tx : Tx) :
    TopicBroker Tx × Except Error Unit :=
  b.register .topics topic 0 tx "topic already registered"

/-- `register_topic_tx_with_handler_id`. -/
def registerTopicTxWithHandlerId (b : TopicBroker Tx) (topic : String) (handlerId : ℕ) (tx : Tx) :
    TopicBroker Tx × Except Error Unit :=
  b.register .topics topic handlerId tx "topic already registered"

/-- `register_prefix_tx`. -/
def registerPrefixTx (b : TopicBroker Tx) (pfx : String) (tx : Tx) :
    TopicBroker Tx × Except Error Unit :=
  b.register .prefixes pfx 0 tx "topic prefix already registered"

/-- `register_prefix_tx_with_handler_id`. -/
def registerPrefixTxWithHandlerId (b : TopicBroker Tx) (pfx : String) (handlerId : ℕ) (tx : Tx) :
    TopicBroker Tx × Except Error Unit :=
  b.register .prefixes pfx handlerId tx "topic prefix already registered"

/-- `register_topic`; `tx` is the sender of the channel it makes, and what it returns. -/
def registerTopic (b : TopicBroker Tx) (topic : String) (tx : Tx) :
    TopicBroker Tx × Except Error Tx :=
  let (b, r) := b.registerTopicTx topic tx
  (b, r.map fun _ => tx)

/-- `register_topic_with_handler_id`. -/
def registerTopicWithHandlerId (b : TopicBroker Tx) (topic : String) (handlerId : ℕ) (tx : Tx) :
    TopicBroker Tx × Except Error Tx :=
  let (b, r) := b.registerTopicTxWithHandlerId topic handlerId tx
  (b, r.map fun _ => tx)

/-- `register_prefix`. -/
def registerPrefix (b : TopicBroker Tx) (pfx : String) (tx : Tx) :
    TopicBroker Tx × Except Error Tx :=
  let (b, r) := b.registerPrefixTx pfx tx
  (b, r.map fun _ => tx)

/-- `register_prefix_with_handler_id`. -/
def registerPrefixWithHandlerId (b : TopicBroker Tx) (pfx : String) (handlerId : ℕ) (tx : Tx) :
    TopicBroker Tx × Except Error Tx :=
  let (b, r) := b.registerPrefixTxWithHandlerId pfx handlerId tx
  (b, r.map fun _ => tx)

/-- `tx.send(..).await?`, and `Ok(None)`; the error is that of `From<SendError>`. -/
def sendTo (tx : Tx) (p : Publication) : Prog (SendOp.Ans Tx) (Except Error (Option Frame)) :=
  .op (.send tx p) fun taken : Bool => .ret (if taken then .ok none else .error ⟨.eof, none⟩)

/-- `TopicBroker::process`. -/
def process (b : TopicBroker Tx) (frame : Frame) :
    Prog (SendOp.Ans Tx) (Except Error (Option Frame)) :=
  match frame.data.topic with
  | none => .ret (.ok (some frame))
  | some topic =>
    match b.topics.get (utf8 topic) with
    | some (tx, handlerId) => sendTo tx ⟨0, frame, handlerId⟩
    | none =>
      -- the loop returns at the first that matches
      match b.prefixes.entries.find? fun e => startsWith topic e.1 with
      | some (pfx, tx, handlerId) => sendTo tx ⟨pfx.length, frame, handlerId⟩
      | none => .ret (.ok (some frame))

end TopicBroker

/-! ### Calls of the registrations -/

/-- What a registration asks for. -/
structure Registration (Tx : Type) where
  table : Table
  name : String
  handlerId : ℕ
  tx : Tx

/-- A call of one of the eight functions. -/
inductive RegisterCall (Tx : Type)
  | topic (topic : String) (tx : Tx)
  | topicWithHandlerId (topic : String) (handlerId : ℕ) (tx : Tx)
  | topicTx (topic : String) (tx : Tx)
  | topicTxWithHandlerId (topic : String) (handlerId : ℕ) (tx : Tx)
  | pfx (pfx : String) (tx : Tx)
  | pfxWithHandlerId (pfx : String) (handlerId : ℕ) (tx : Tx)
  | pfxTx (pfx : String) (tx : Tx)
  | pfxTxWithHandlerId (pfx : String) (handlerId : ℕ) (tx : Tx)

namespace RegisterCall

/-- Without the channel that is returned. -/
def unit (x : TopicBroker Tx × Except Error Tx) : TopicBroker Tx × Except Error Unit :=
  (x.1, x.2.map fun _ => ())

/-- What it does, and whether it succeeds. -/
def apply (b : TopicBroker Tx) : RegisterCall Tx → TopicBroker Tx × Except Error Unit
  | topic s tx => unit (b.registerTopic s tx)
  | topicWithHandlerId s id tx => unit (b.registerTopicWithHandlerId s id tx)
  | topicTx s tx => b.registerTopicTx s tx
  | topicTxWithHandlerId s id tx => b.registerTopicTxWithHandlerId s id tx
  | pfx s tx => unit (b.registerPrefix s tx)
  | pfxWithHandlerId s id tx => unit (b.registerPrefixWithHandlerId s id tx)
  | pfxTx s tx => b.registerPrefixTx s tx
  | pfxTxWithHandlerId s id tx => b.registerPrefixTxWithHandlerId s id tx

/-- What it asks for. -/
def registration : RegisterCall Tx → Registration Tx
  | topic s tx | topicTx s tx => ⟨.topics, s, 0, tx⟩
  | topicWithHandlerId s id tx | topicTxWithHandlerId s id tx => ⟨.topics, s, id, tx⟩
  | pfx s tx | pfxTx s tx => ⟨.prefixes, s, 0, tx⟩
  | pfxWithHandlerId s id tx | pfxTxWithHandlerId s id tx => ⟨.prefixes, s, id, tx⟩

end RegisterCall

/-- The text of the refusal. -/
def Table.busy : Table → String
  | .topics => "topic already registered"
  | .prefixes => "topic prefix already registered"

/-- The broker after some calls. -/
def built (calls : List (RegisterCall Tx)) : TopicBroker Tx :=
  calls.foldl (fun b c => (c.apply b).1) (.new Tx)

/-! ### What is registered -/

/-- Two registrations for the same entry. -/
def Registration.Same (r r' : Registration Tx) : Prop := r.table = r'.table ∧ r.name = r'.name

instance Registration.decidableSame (r r' : Registration Tx) : Decidable (r.Same r') :=
  inferInstanceAs (Decidable (_ ∧ _))

/-- What counts of some calls: for every topic and every prefix the first. -/
def kept (calls : List (RegisterCall Tx)) : List (Registration Tx) :=
  calls.foldl
    (fun regs c =>
      if ∃ r ∈ regs, c.registration.Same r then regs else regs ++ [c.registration]) []

/-- The registration that gets a topic: that of the topic itself, and without one that of the
shortest prefix with which it begins. -/
def Gets (regs : List (Registration Tx)) (topic : String) (r : Registration Tx) : Prop :=
  r ∈ regs ∧ match r.table with
    | .topics => r.name = topic
    | .prefixes =>
      (∀ r' ∈ regs, r'.table = .topics → r'.name ≠ topic) ∧ r.name.toList <+: topic.toList ∧
        ∀ r' ∈ regs, r'.table = .prefixes → r'.name.toList <+: topic.toList →
          r.name.length ≤ r'.name.length

/-! ### Bytes and characters -/

theorem startsWith_iff (topic pfx : String) :
    startsWith topic (utf8 pfx) = true ↔ pfx.toList <+: topic.toList := by
  rw [startsWith, List.isPrefixOf_iff_prefix, utf8_eq_encode, utf8_eq_encode, encode_begins]

/-- Cutting a text after one with which it begins leaves the rest. -/
theorem sliceFrom_append (p s : String) : sliceFrom (p ++ s) (utf8 p).length = some s := by
  have happ : utf8 (p ++ s) = utf8 p ++ utf8 s := by
    rw [utf8_eq_encode, utf8_eq_encode, utf8_eq_encode, String.toList_append, encode_append]
  have hdrop : (utf8 (p ++ s)).drop (utf8 p).length = utf8 s := by rw [happ, List.drop_left]
  have hget : (utf8 (p ++ s))[(utf8 p).length]? = (utf8 s).head? := by
    rw [happ, List.getElem?_append_right le_rfl, Nat.sub_self, List.head?_eq_getElem?]
  have hboundary : isCharBoundary (p ++ s) (utf8 p).length = true := by
    rw [isCharBoundary, hget, Bool.or_eq_true]
    right
    cases hs : (utf8 s).head? with
    | none =>
      have hnil : utf8 s = [] := List.head?_eq_none_iff.mp hs
      simp [happ, hnil]
    | some b =>
      rw [utf8_eq_encode] at hs
      simp [head_encode hs]
  rw [sliceFrom, if_pos hboundary, hdrop, fromUtf8_utf8]
  rfl

/-- A text cut at its start is the text. -/
theorem sliceFrom_zero (s : String) : sliceFrom s 0 = some s := by
  have h : isCharBoundary s 0 = true := rfl
  rw [sliceFrom, if_pos h, List.drop_zero, fromUtf8_utf8]
  rfl

/-! ### The maps hold what counts -/

/-- The entries of the maps are these registrations. -/
def Stores (b : TopicBroker Tx) (regs : List (Registration Tx)) : Prop :=
  ∀ t e, e ∈ (b.table t).entries ↔ ∃ r ∈ regs, r.table = t ∧ e = (utf8 r.name, r.tx, r.handlerId)

@[simp] theorem table_setTable (b : TopicBroker Tx) (m : SortedMap (List UInt8) (Tx × ℕ))
    (t t' : Table) :
    (b.setTable m t).table t' = if t' = t then m else b.table t' := by
  cases t <;> cases t' <;> rfl

theorem stores_new : Stores (.new Tx) [] := by
  intro t e
  cases t <;> simp [TopicBroker.new, TopicBroker.table, SortedMap.empty]

namespace Stores

variable {b : TopicBroker Tx} {regs : List (Registration Tx)}

/-- The value of a name. -/
theorem get_of_mem (h : Stores b regs) {r : Registration Tx} (hr : r ∈ regs) :
    (b.table r.table).get (utf8 r.name) = some (r.tx, r.handlerId) :=
  ((b.table r.table).get_eq_some _ _).mpr ((h _ _).mpr ⟨r, hr, rfl, rfl⟩)

theorem mem_of_get (h : Stores b regs) {t : Table} {name : String} {tx : Tx} {id : ℕ}
    (hget : (b.table t).get (utf8 name) = some (tx, id)) : ⟨t, name, id, tx⟩ ∈ regs := by
  obtain ⟨r, hr, rfl, he⟩ := (h _ _).mp (((b.table t).get_eq_some _ _).mp hget)
  rw [Prod.mk.injEq, Prod.mk.injEq] at he
  obtain ⟨hname, rfl, rfl⟩ := he
  rwa [utf8_inj hname]

/-- A registration of a name that is taken is refused and changes nothing; any other is added. -/
theorem register (h : Stores b regs) (r : Registration Tx) :
    if ∃ r' ∈ regs, r.Same r' then
      b.register r.table r.name r.handlerId r.tx r.table.busy =
        (b, .error (Error.busy r.table.busy))
    else (b.register r.table r.name r.handlerId r.tx r.table.busy).2 = .ok () ∧
      Stores (b.register r.table r.name r.handlerId r.tx r.table.busy).1 (regs ++ [r]) := by
  by_cases htaken : ∃ r' ∈ regs, r.Same r'
  · rw [if_pos htaken]
    obtain ⟨r', hr', ht, hn⟩ := htaken
    have hget := h.get_of_mem hr'
    rw [← ht, ← hn] at hget
    rw [TopicBroker.register, hget]
  · rw [if_neg htaken]
    have hget : (b.table r.table).get (utf8 r.name) = none := by
      cases hg : (b.table r.table).get (utf8 r.name) with
      | none => rfl
      | some v => exact absurd ⟨_, h.mem_of_get hg, rfl, rfl⟩ htaken
    have hreg : b.register r.table r.name r.handlerId r.tx r.table.busy =
        (b.setTable ((b.table r.table).insert (utf8 r.name) (r.tx, r.handlerId)) r.table,
          .ok ()) := by
      rw [TopicBroker.register, hget]
    rw [hreg]
    refine ⟨rfl, fun t e => ?_⟩
    rw [table_setTable]
    simp only [List.mem_append, List.mem_singleton, or_and_right, exists_or, exists_eq_left]
    by_cases ht : t = r.table
    · have hfree : e ∈ (b.table r.table).entries → e.1 ≠ utf8 r.name :=
        fun he => ((b.table r.table).get_eq_none _).mp hget e he
      rw [if_pos ht, SortedMap.mem_insert, and_iff_left_of_imp hfree, ht, ← h, or_comm]
      exact or_congr_right (and_iff_right rfl).symm
    · rw [if_neg ht, ← h]
      exact (or_iff_left fun hr => ht hr.1.symm).symm

/-- The same registrations in another order make the same broker. -/
theorem eq_of_perm {b' : TopicBroker Tx} {regs' : List (Registration Tx)} (h : Stores b regs)
    (h' : Stores b' regs') (hp : regs.Perm regs') : b = b' := by
  have htable : ∀ t, b.table t = b'.table t := by
    intro t
    refine SortedMap.ext_mem fun e => ?_
    rw [h, h']
    exact exists_congr fun r => and_congr_left fun _ => hp.mem_iff
  have ht := htable .topics
  have hpfx := htable .prefixes
  cases b
  cases b'
  simp only [TopicBroker.table] at ht hpfx
  rw [ht, hpfx]

end Stores

/-- All eight functions register. -/
theorem apply_eq (c : RegisterCall Tx) (b : TopicBroker Tx) : c.apply b =
    b.register c.registration.table c.registration.name c.registration.handlerId c.registration.tx
      c.registration.table.busy := by
  have hunit : ∀ (x : TopicBroker Tx × Except Error Unit) (tx : Tx),
      RegisterCall.unit (x.1, x.2.map fun _ => tx) = x := by
    rintro ⟨b, _ | _⟩ tx <;> rfl
  cases c with
  | topic s tx | topicWithHandlerId s id tx | pfx s tx | pfxWithHandlerId s id tx =>
    exact hunit _ tx
  | topicTx s tx | topicTxWithHandlerId s id tx | pfxTx s tx | pfxTxWithHandlerId s id tx => rfl

theorem kept_concat (calls : List (RegisterCall Tx)) (c : RegisterCall Tx) : kept (calls ++ [c]) =
    if ∃ r ∈ kept calls, c.registration.Same r then kept calls
    else kept calls ++ [c.registration] := by
  rw [kept, List.foldl_append]
  rfl

/-- After any calls the maps hold what counts of them. -/
theorem built_stores (calls : List (RegisterCall Tx)) : Stores (built calls) (kept calls) := by
  induction calls using List.reverseRecOn with
  | nil => exact stores_new
  | append_singleton calls c ih =>
    have hbuilt : built (calls ++ [c]) = (c.apply (built calls)).1 := by
      rw [built, List.foldl_append]
      rfl
    have hreg := ih.register c.registration
    rw [hbuilt, kept_concat, apply_eq]
    by_cases htaken : ∃ r ∈ kept calls, c.registration.Same r
    · rw [if_pos htaken] at hreg ⊢
      rw [hreg]
      exact ih
    · rw [if_neg htaken] at hreg ⊢
      exact hreg.2

/-! ### Who gets a frame -/

section Process

variable {b : TopicBroker Tx} {regs : List (Registration Tx)} (h : Stores b regs) {frame : Frame}
  {topic : String}
  (ht : frame.data.topic = some topic)

include h

/-- There is no handler of the topic itself. -/
theorem get_topic_none (hno : ∀ r ∈ regs, r.table = .topics → r.name ≠ topic) :
    b.topics.get (utf8 topic) = none := by
  cases hg : b.topics.get (utf8 topic) with
  | none => rfl
  | some v => exact absurd rfl (hno _ (h.mem_of_get (t := .topics) hg) rfl)

/-- The scan finds the registration of the shortest prefix, and only that. -/
theorem find_iff {r : Registration Tx} (hr : r ∈ regs) (hp : r.table = .prefixes) :
    b.prefixes.entries.find? (fun e => startsWith topic e.1) =
      some (utf8 r.name, r.tx, r.handlerId) ↔
      r.name.toList <+: topic.toList ∧
        ∀ r' ∈ regs, r'.table = .prefixes → r'.name.toList <+: topic.toList →
          r.name.length ≤ r'.name.length := by
  have hmem : (utf8 r.name, r.tx, r.handlerId) ∈ b.prefixes.entries :=
    (h .prefixes _).mpr ⟨r, hr, hp, rfl⟩
  rw [SortedMap.find_eq_some, and_iff_right hmem, startsWith_iff]
  refine and_congr_right fun hbegin => ?_
  -- the order of the bytes of two of them, and their lengths
  have hle : ∀ s : String, s.toList <+: topic.toList →
      (utf8 r.name ≤ utf8 s ↔ r.name.length ≤ s.length) := by
    intro s hs
    have hr' : encode r.name.toList <+: encode topic.toList := encode_begins.mpr hbegin
    have hs' : encode s.toList <+: encode topic.toList := encode_begins.mpr hs
    rw [utf8_eq_encode, utf8_eq_encode, ← String.length_toList, ← String.length_toList]
    constructor
    · intro hlt
      have hlen := (le_iff_length_le hr' hs').mp hlt
      exact (encode_begins.mp (List.prefix_of_prefix_length_le hr' hs' hlen)).length_le
    · intro hlen
      exact le_of_begins (encode_begins.mpr (List.prefix_of_prefix_length_le hbegin hs hlen))
  constructor
  · intro hleast r' hr' hp' hb'
    exact (hle _ hb').mp (hleast _ ((h .prefixes _).mpr ⟨r', hr', hp', rfl⟩)
      ((startsWith_iff _ _).mpr hb'))
  · rintro hshort e he hs
    obtain ⟨r', hr', hp', rfl⟩ := (h .prefixes e).mp he
    have hb' := (startsWith_iff _ _).mp hs
    exact (hle _ hb').mpr (hshort r' hr' hp' hb')

include ht

/-- The registration that gets the topic is sent one publication, with the rest of the topic. -/
theorem process_gets {r : Registration Tx} (hr : Gets regs topic r) :
    ∃ p : Publication, b.process frame = TopicBroker.sendTo r.tx p ∧ p.frame = frame ∧
      p.handlerId = r.handlerId ∧
      ∃ s, p.subtopic = some s ∧ (r.table = .topics → s = topic) ∧
        (r.table = .prefixes → r.name ++ s = topic) := by
  obtain ⟨hmem, hr⟩ := hr
  cases htable : r.table with
  | topics =>
    rw [htable] at hr
    simp only at hr
    have hget := h.get_of_mem hmem
    rw [htable, hr] at hget
    refine ⟨⟨0, frame, r.handlerId⟩, ?_, rfl, rfl, topic, ?_, fun _ => rfl, nofun⟩
    · rw [TopicBroker.process, ht]
      simp only
      rw [show b.topics.get (utf8 topic) = _ from hget]
    · rw [Publication.subtopic, ht, Option.bind_some, sliceFrom_zero]
  | prefixes =>
    rw [htable] at hr
    obtain ⟨hno, hbegin, hshort⟩ := hr
    obtain ⟨rest, hrest⟩ := hbegin
    have htopic : r.name ++ String.ofList rest = topic := by
      rw [← String.toList_inj, String.toList_append, String.toList_ofList, hrest]
    refine ⟨⟨(utf8 r.name).length, frame, r.handlerId⟩, ?_, rfl, rfl, String.ofList rest, ?_, nofun,
      fun _ => htopic⟩
    · rw [TopicBroker.process, ht]
      simp only
      rw [get_topic_none h hno]
      simp only
      rw [(find_iff h hmem htable).mpr ⟨⟨rest, hrest⟩, hshort⟩]
    · rw [Publication.subtopic, ht, Option.bind_some, ← htopic, sliceFrom_append]

/-- Without one the frame comes back. -/
theorem process_returns (hno : ∀ r, ¬Gets regs topic r) :
    b.process frame = .ret (.ok (some frame)) := by
  have hfree : ∀ r ∈ regs, r.table = .topics → r.name ≠ topic := by
    intro r hr hp hn
    refine hno r ⟨hr, ?_⟩
    rw [hp]
    exact hn
  rw [TopicBroker.process, ht]
  simp only
  rw [get_topic_none h hfree]
  simp only
  cases hfind : b.prefixes.entries.find? fun e => startsWith topic e.1 with
  | none => rfl
  | some e =>
    obtain ⟨r, hr, hp, rfl⟩ := (h .prefixes e).mp (List.mem_of_find?_eq_some hfind)
    refine absurd ⟨hr, ?_⟩ (hno r)
    rw [hp]
    exact ⟨hfree, (find_iff h hr hp).mp hfind⟩

end Process

/-- **Dispatch is exact and does not depend on the order of the registrations.** A name that is
taken is refused; a frame goes to the handler of its topic, or else of the shortest registered
prefix of it: one send to its channel, of one publication with the rest of the topic, and nothing
else. It comes back, and nothing is sent, if there is none. -/
theorem dispatch_exact (calls : List (RegisterCall Tx)) :
    (∀ c : RegisterCall Tx, if ∃ r ∈ kept calls, c.registration.Same r then
        c.apply (built calls) = (built calls, .error (Error.busy c.registration.table.busy))
      else (c.apply (built calls)).2 = .ok () ∧
        kept (calls ++ [c]) = kept calls ++ [c.registration]) ∧
    (∀ (frame : Frame) (topic : String) (r : Registration Tx), frame.data.topic = some topic →
      Gets (kept calls) topic r → ∃ p : Publication,
        (built calls).process frame =
          .op (.send r.tx p)
          (fun taken : Bool => .ret (if taken then .ok none else .error ⟨.eof, none⟩)) ∧
        p.frame = frame ∧ p.handlerId = r.handlerId ∧
        ∃ s, p.subtopic = some s ∧ (r.table = .topics → s = topic) ∧
          (r.table = .prefixes → r.name ++ s = topic)) ∧
    (∀ frame : Frame, (∀ topic r, frame.data.topic = some topic → ¬Gets (kept calls) topic r) →
      (built calls).process frame = .ret (.ok (some frame))) ∧
    ∀ calls' : List (RegisterCall Tx), (kept calls).Perm (kept calls') →
      ∀ frame, (built calls').process frame = (built calls).process frame := by
  have h := built_stores calls
  refine ⟨fun c => ?_, fun frame topic r ht hr => process_gets h ht hr, fun frame hno => ?_,
    fun calls' hp frame => ?_⟩
  · have hreg := h.register c.registration
    rw [apply_eq, kept_concat]
    by_cases htaken : ∃ r ∈ kept calls, c.registration.Same r
    · rw [if_pos htaken] at hreg ⊢
      exact hreg
    · rw [if_neg htaken] at hreg
      rw [if_neg htaken, if_neg htaken]
      exact ⟨hreg.1, rfl⟩
  · cases ht : frame.data.topic with
    | none => rw [TopicBroker.process, ht]
    | some topic => exact process_returns h ht fun r => hno topic r ht
  · rw [h.eq_of_perm (built_stores calls') hp]

end Busrt
