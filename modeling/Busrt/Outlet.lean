/-
# The end of a connection that writes

`handle_writer` takes the frames out of a client's queue one after another, and
hands each to the buffered writer in one to three writes, the last of which is to
be flushed at once or later. Here it runs with the futures of the writer, frames
come into the queue at any time, writes and flushes may fail or time out, and the
client reads what has got to the socket.

What the client has read at any time are the first frames that were queued, in
their order, and the beginning of the next one, whatever has failed
(`reads_in_order`). While nothing fails, a realtime frame is with the client when
its last write returns, and what is not there yet gets there without further
frames (`delivers_all`).

Key definitions: `Outlet`, `outletStep`, `TtlBufWriter.given`, `Prompt`, `Outlet.Running`.
Key theorems: `given_step`, `finish`, `drain`, `reads_in_order`, `delivers_all`.
-/
import Busrt.Flusher

namespace Busrt

open Lib

/-! ### `handle_writer` at work -/

/-- The queue of a client, what `handle_writer` has yet to write of a frame it has taken,
and the writer. For the record the frames taken; `ended` once it has returned. -/
structure Outlet where
  rx : List FrameData
  todo : List (List UInt8 × Flush)
  w : TtlBufWriter
  taken : List FrameData
  ended : Bool
  deriving DecidableEq, Repr

inductive OutletLabel
  /-- A frame is put in the queue. -/
  | queue (f : FrameData)
  /-- `rx.recv()`. -/
  | recv
  /-- The next `writer.write`. -/
  | call
  /-- A step of this write, of the flusher, or of the future that works on drop. -/
  | future (m : Stroke)
  /-- The write fails or times out, and `handle_writer` returns the error. -/
  | fail
  /-- The flusher gives up waiting for the lock, or the flush. -/
  | failFlusher
  | failDropper
  /-- The queue is closed and empty, and `handle_writer` returns. -/
  | close
  /-- The writer is dropped. -/
  | drop
  deriving DecidableEq, Repr

/-- The steps by which no write is called and nothing is dropped. -/
def Stroke.own : Stroke → Bool
  | write .. | drop => false
  | _ => true

theorem Stroke.call_of_own {m : Stroke} (h : m.own = true) : m.call = none := by
  cases m <;> first | rfl | cases h

namespace Outlet

def new : Outlet := ⟨[], [], .new, [], false⟩

/-- `handle_writer` is between two writes. -/
def Ready (s : Outlet) : Prop := s.ended = false ∧ s.w.pen = .idle

instance (s : Outlet) : Decidable s.Ready := inferInstanceAs (Decidable (_ ∧ _))

end Outlet

/-- One step; none if it has to wait. -/
def outletStep (s : Outlet) : OutletLabel → Option Outlet
  | .queue f => some { s with rx := s.rx ++ [f] }
  | .recv =>
    match s.rx with
    | f :: rx =>
      if s.Ready ∧ s.todo = [] then
        some { s with rx, todo := handleWriter f, taken := s.taken ++ [f] }
      else none
    | [] => none
  | .call =>
    match s.todo with
    | (buf, flush) :: todo =>
      if s.Ready then (s.w.step (.write buf flush)).map fun w => { s with w, todo } else none
    | [] => none
  | .future m =>
    if m.own then (s.w.step m).map fun w => { s with w } else none
  | .fail =>
    -- the future is dropped, and its lock with it
    if s.ended = false ∧ s.w.pen ≠ .idle then
      some { s with ended := true, w := { s.w with pen := .idle } }
    else none
  | .failFlusher =>
    if s.w.flusher = .locking ∨ s.w.flusher = .flushing then
      some { s with w := { s.w with flusher := .receiving } }
    else none
  | .failDropper =>
    if s.w.dropper = .flushing then some { s with w := { s.w with dropper := .done } } else none
  | .close => if s.Ready ∧ s.todo = [] ∧ s.rx = [] then some { s with ended := true } else none
  | .drop => if s.ended then (s.w.step .drop).map fun w => { s with w } else none

def OutletSteps (s : Outlet) (l : OutletLabel) (s' : Outlet) : Prop := outletStep s l = some s'

/-- The frame that is queued. -/
def OutletLabel.queued : OutletLabel → Option FrameData
  | queue f => some f
  | _ => none

/-! ### What the writer was given -/

namespace TtlBufWriter

variable {w w' : TtlBufWriter} {m : Stroke}

/-- The bytes of all writes: out, in the buffer, being handed over, or waiting for the lock. -/
def given (w : TtlBufWriter) : List UInt8 :=
  w.inner ++ w.buffer ++ w.pen.rest ++ bytesOf w.pen.pending

/-- A step loses nothing and changes no order. -/
theorem given_step (hs : w.step m = some w') : w'.given = w.given ++ bytesOf m.call.toList := by
  cases m <;> simp only [TtlBufWriter.step] at hs
  case write buf flush =>
    split at hs
    · rename_i hp
      obtain rfl := Option.some.inj hs
      simp [given, hp.1, Pen.rest, Pen.pending, Stroke.call, bytesOf]
    · cases hs
  case lock =>
    split at hs
    · rename_i buf flush hp
      split at hs
      · cases hs
      · obtain rfl := Option.some.inj hs
        simp [given, hp, Pen.rest, Pen.pending, Stroke.call, bytesOf]
    · cases hs
  case accept k =>
    split at hs
    · rename_i rest flush hp
      obtain rfl := Option.some.inj hs
      simp [given, hp, Pen.rest, Pen.pending, Stroke.call, bytesOf]
    · cases hs
  case spill k =>
    split at hs
    · obtain rfl := Option.some.inj hs
      simp [given, Stroke.call, bytesOf]
    · cases hs
  case written =>
    split at hs
    all_goals try cases hs
    all_goals
      rename_i hp
      simp [given, hp, Pen.rest, Pen.pending, Stroke.call, bytesOf]
  case look =>
    split at hs
    · rename_i hp
      obtain rfl := Option.some.inj hs
      cases w.token <;> simp [given, hp, Pen.rest, Pen.pending, Stroke.call, bytesOf]
    · cases hs
  case flushed | send =>
    split at hs
    · rename_i hp
      obtain rfl := Option.some.inj hs
      simp [given, hp, Pen.rest, Pen.pending, Stroke.call, bytesOf]
    · cases hs
  all_goals
    split at hs
    · obtain rfl := Option.some.inj hs
      simp [given, Stroke.call, bytesOf]
    · cases hs

/-- What is out came first. -/
theorem inner_isPrefix (w : TtlBufWriter) : w.inner <+: w.given := by
  rw [given, List.append_assoc, List.append_assoc]
  exact List.prefix_append _ _

/-- A writer that is between two writes stays there. -/
theorem idle_step (hs : w.step m = some w') (hm : m.call = none) (hp : w.pen = .idle) :
    w'.pen = .idle := by
  cases m <;> simp only [TtlBufWriter.step, hp] at hs
  case write => cases hm
  all_goals first
    | cases hs
    | (split at hs
       · obtain rfl := Option.some.inj hs
         first | exact hp | simp_all
       · cases hs)

end TtlBufWriter

namespace Outlet

variable {s s' : Outlet} {l : OutletLabel}

/-- The writer was given the frames taken, but for what is to be written yet; after a
failure, the beginning of them. -/
structure Inv (s : Outlet) : Prop where
  given : s.w.given <+: s.taken.flatMap FrameData.bytes
  live : s.ended = false → s.w.given ++ bytesOf s.todo = s.taken.flatMap FrameData.bytes
  ended : s.ended = true → s.w.pen = .idle

theorem Inv.new : Inv new := ⟨List.nil_prefix, fun _ => rfl, fun ho => (by cases ho)⟩

theorem Inv.step (h : Inv s) (hs : OutletSteps s l s') : Inv s' := by
  cases l <;> simp only [OutletSteps, outletStep] at hs
  case queue f =>
    obtain rfl := Option.some.inj hs
    exact ⟨h.given, h.live, h.ended⟩
  case recv =>
    split at hs
    · rename_i f rx hrx
      split at hs
      · rename_i hr
        obtain rfl := Option.some.inj hs
        have hlive := h.live hr.1.1
        rw [hr.2] at hlive
        have hbytes : s.w.given ++ bytesOf (handleWriter f) = (s.taken ++ [f]).flatMap
            FrameData.bytes := by
          rw [List.flatMap_append, List.flatMap_singleton, ← hlive]
          simp [bytesOf, FrameData.bytes]
        exact ⟨⟨_, hbytes⟩, fun _ => hbytes, h.ended⟩
      · cases hs
    · cases hs
  case call =>
    split at hs
    · rename_i buf flush todo htodo
      split at hs
      · rename_i hr
        obtain ⟨w, hw, rfl⟩ := Option.map_eq_some_iff.mp hs
        have hlive := h.live hr.1
        have hg : w.given ++ bytesOf todo = s.taken.flatMap FrameData.bytes := by
          rw [TtlBufWriter.given_step hw, ← hlive, htodo]
          simp [bytesOf, Stroke.call]
        exact ⟨⟨_, hg⟩, fun _ => hg, fun ho => by rw [hr.1] at ho; cases ho⟩
      · cases hs
    · cases hs
  case future m =>
    split at hs
    · rename_i hm
      obtain ⟨w, hw, rfl⟩ := Option.map_eq_some_iff.mp hs
      have hg := TtlBufWriter.given_step hw
      rw [Stroke.call_of_own hm, Option.toList_none, bytesOf, List.flatMap_nil,
        List.append_nil] at hg
      refine ⟨?_, fun ho => ?_, fun ho =>
        TtlBufWriter.idle_step hw (Stroke.call_of_own hm) (h.ended ho)⟩
      · exact hg ▸ h.given
      · exact hg ▸ h.live ho
    · cases hs
  case fail =>
    split at hs
    · obtain rfl := Option.some.inj hs
      refine ⟨List.IsPrefix.trans ?_ h.given, fun ho => (by cases ho), fun _ => rfl⟩
      simp only [TtlBufWriter.given, Pen.rest, Pen.pending, bytesOf, List.flatMap_nil,
        List.append_nil, List.append_assoc]
      exact (List.prefix_append_right_inj _).mpr (List.prefix_append _ _)
    · cases hs
  case failFlusher | failDropper =>
    split at hs
    · obtain rfl := Option.some.inj hs
      exact ⟨h.given, h.live, h.ended⟩
    · cases hs
  case close =>
    split at hs
    · rename_i hr
      obtain rfl := Option.some.inj hs
      exact ⟨h.given, fun ho => (by cases ho), fun _ => hr.1.2⟩
    · cases hs
  case drop =>
    split at hs
    · rename_i ho
      obtain ⟨w, hw, rfl⟩ := Option.map_eq_some_iff.mp hs
      have hg := TtlBufWriter.given_step hw
      rw [show Stroke.drop.call = none from rfl, Option.toList_none, bytesOf, List.flatMap_nil,
        List.append_nil] at hg
      exact ⟨hg ▸ h.given, fun hf => hg ▸ h.live hf,
        fun ho => TtlBufWriter.idle_step hw rfl (h.ended ho)⟩
    · cases hs

/-- The frames taken and those in the queue are those that were queued. -/
theorem queued_step (hs : OutletSteps s l s') : s'.taken ++ s'.rx =
    s.taken ++ s.rx ++ l.queued.toList := by
  cases l <;> simp only [OutletSteps, outletStep] at hs
  case queue f =>
    obtain rfl := Option.some.inj hs
    simp [OutletLabel.queued]
  case recv =>
    split at hs
    · rename_i f rx hrx
      split at hs
      · obtain rfl := Option.some.inj hs
        simp [hrx, OutletLabel.queued]
      · cases hs
    · cases hs
  case call =>
    split at hs
    · split at hs
      · obtain ⟨w, -, rfl⟩ := Option.map_eq_some_iff.mp hs
        simp [OutletLabel.queued]
      · cases hs
    · cases hs
  case future | drop =>
    split at hs
    · obtain ⟨w, -, rfl⟩ := Option.map_eq_some_iff.mp hs
      simp [OutletLabel.queued]
    · cases hs
  all_goals
    split at hs
    · obtain rfl := Option.some.inj hs
      simp [OutletLabel.queued]
    · cases hs

theorem queued_run {ls : List OutletLabel} (h : Run OutletSteps s ls s') :
    s'.taken ++ s'.rx = s.taken ++ s.rx ++ ls.filterMap OutletLabel.queued := by
  induction h with
  | nil => exact (List.append_nil _).symm
  | @cons s s₁ s₂ l ls hst _ ih =>
    rw [ih, queued_step hst, List.append_assoc]
    cases hq : l.queued <;> simp [hq]

end Outlet

/-! ### What the client reads -/

/-- The beginning of an item is no item. -/
theorem getIncoming_cut {bs bs' : List UInt8} {o : Option Incoming}
    (h : getIncoming bs' = .item o []) (hle : bs <+: bs') (hne : bs ≠ bs') :
    getIncoming bs = .more := by
  obtain ⟨k, l₀, l₁, l₂, l₃, r, tail, rfl, hitem⟩ := getIncoming_item h
  by_cases hshort : bs.length < 6
  · unfold getIncoming
    split
    · simp at hshort
      omega
    · rfl
  · obtain ⟨more, hmore⟩ := hle
    obtain ⟨tail', rfl⟩ : ∃ tail', bs = k :: l₀ :: l₁ :: l₂ :: l₃ :: r :: tail' := by
      rcases bs with _ | ⟨b₀, _ | ⟨b₁, _ | ⟨b₂, _ | ⟨b₃, _ | ⟨b₄, _ | ⟨b₅, tail'⟩⟩⟩⟩⟩⟩
      all_goals simp at hshort hmore
      obtain ⟨rfl, rfl, rfl, rfl, rfl, rfl, -⟩ := hmore
      exact ⟨tail', rfl⟩
    simp only [List.cons_append, List.cons.injEq, true_and] at hmore
    have hlt : tail'.length < tail.length := by
      rw [← hmore, List.length_append]
      refine Nat.lt_add_of_pos_right (List.length_pos_iff.mpr fun he => hne ?_)
      rw [← hmore, he, List.append_nil]
    obtain ⟨-, he⟩ | ⟨-, he⟩ | ⟨kind, f, hk, hlen, -, rfl, he⟩ := hitem
    · rw [← he] at hlt
      cases hlt
    · rw [← he] at hlt
      cases hlt
    · have hlen' : tail.length ≤ ofLe [l₀, l₁, l₂, l₃] := List.drop_eq_nil_iff.mp he.symm
      have hwait : tail'.length < ofLe [l₀, l₁, l₂, l₃] := hlt.trans_le hlen'
      unfold getIncoming at h ⊢
      simp only [hk] at h ⊢
      split at h
      · cases h
      · cases h
      · cases h
      · simp only [if_pos hwait]

/-- What a reader makes of a frame. -/
def FrameData.arrival (f : FrameData) : Option Incoming :=
  match getIncoming f.bytes with
  | .item o _ => o
  | _ => none

/-- A queued frame arrives, as soon as it is there whole. -/
theorem arrives_arrival {f : FrameData} (hq : Queued f) (hf : Data f → Fits f) :
    Arrives f f.arrival ∧ (∀ rest, incoming.get (f.bytes ++ rest) = .item f.arrival rest) ∧
      ∀ bs, bs <+: f.bytes → bs ≠ f.bytes → incoming.get bs = .more := by
  obtain ⟨o, ho, hget⟩ := get_queued hq hf
  have hnil := hget []
  rw [List.append_nil] at hnil
  have harr : f.arrival = o := by rw [FrameData.arrival, hnil]
  exact ⟨harr ▸ ho, harr ▸ hget, fun bs hle hne => getIncoming_cut hnil hle hne⟩

/-- The frames that the reader has, and the beginning of the next. -/
theorem handleRead_cut {fs : List FrameData} (h : ∀ f ∈ fs, Queued f ∧ (Data f → Fits f))
    {bs : List UInt8} (hle : bs <+: fs.flatMap FrameData.bytes) :
    ∃ k rest, bs = (fs.take k).flatMap FrameData.bytes ++ rest ∧
      handleRead bs = (((fs.take k).map FrameData.arrival).reduceOption, .ok rest) ∧
      ∀ f ∈ fs[k]?, rest.length < f.bytes.length := by
  obtain ⟨k, rest, hbs, hread, hlt⟩ := Parser.readAll_broken (p := incoming) fs
    (fun f hf => (arrives_arrival (h f hf).1 (h f hf).2).2.1)
      (fun f hf => (arrives_arrival (h f hf).1 (h f hf).2).2.2) bs hle
  exact ⟨k, rest, hbs, by rw [handleRead, hread], hlt⟩

theorem handleRead_broken {fs : List FrameData} (h : ∀ f ∈ fs, Queued f ∧ (Data f → Fits f))
    {bs : List UInt8} (hle : bs <+: fs.flatMap FrameData.bytes) :
    ∃ k rest os, List.Forall₂ Arrives (fs.take k) os ∧
      bs = (fs.take k).flatMap FrameData.bytes ++ rest ∧
        handleRead bs = (os.reduceOption, .ok rest) ∧
      ∀ f ∈ fs[k]?, rest.length < f.bytes.length := by
  obtain ⟨k, rest, hbs, hread, hlt⟩ := handleRead_cut h hle
  refine ⟨k, rest, (fs.take k).map FrameData.arrival, ?_, hbs, hread, hlt⟩
  rw [List.forall₂_map_right_iff, List.forall₂_same]
  intro f hf
  exact (arrives_arrival (h f (List.mem_of_mem_take hf)).1 (h f (List.mem_of_mem_take hf)).2).1

/-- **Read in order**: whatever has failed, what the client has read are the first frames
that were queued, in their order, and it waits for the rest of the next. -/
theorem reads_in_order {ls : List OutletLabel} {s : Outlet} (h : Run OutletSteps .new ls s)
    (hq : ∀ f ∈ ls.filterMap OutletLabel.queued, Queued f ∧ (Data f → Fits f)) :
    ∃ k rest os, List.Forall₂ Arrives ((ls.filterMap OutletLabel.queued).take k) os ∧
      s.w.inner = ((ls.filterMap OutletLabel.queued).take k).flatMap FrameData.bytes ++ rest ∧
      Ipc.handleRead s.w.inner = (os.reduceOption, .ok rest) ∧
      SyncIpc.handleRead s.w.inner = (os.reduceOption, .ok rest) ∧
      ∀ f ∈ (ls.filterMap OutletLabel.queued)[k]?, rest.length < f.bytes.length := by
  have hI : s.Inv := h.inv (fun s l s' hs hst => hs.step hst) .new
  have hrx : s.taken ++ s.rx = ls.filterMap OutletLabel.queued := Outlet.queued_run h
  have hle : s.w.inner <+: (ls.filterMap OutletLabel.queued).flatMap FrameData.bytes := by
    rw [← hrx, List.flatMap_append]
    exact s.w.inner_isPrefix.trans (hI.given.trans (List.prefix_append _ _))
  obtain ⟨k, rest, os, hos, hbs, hread, hlt⟩ := handleRead_broken hq hle
  exact ⟨k, rest, os, hos, hbs, hread, hread, hlt⟩

/-! ### While nothing fails -/

namespace TtlBufWriter

variable {w w' : TtlBufWriter} {m : Stroke}

/-- After a write that is flushed at once nothing is left in the buffer. -/
structure Prompt (w : TtlBufWriter) : Prop where
  flushed : w.pen.holds = false → ∀ buf, w.log.getLast? = some (buf, .instant) → w.buffer = []
  due : ∀ x, w.log.getLast? = some x → w.pen = .looking ∨ w.pen = .sending → x.2 ≠ .instant

theorem Prompt.new : Prompt new := ⟨fun _ _ h => (by cases h), fun _ h => (by cases h)⟩

/-- Only a write that holds the lock puts bytes into the buffer, and the last of the log is this
write. -/
theorem Prompt.step (h : Prompt w) (hI : Inv w) (hs : w.step m = some w') : Prompt w' := by
  have hkeep : w'.log = w.log → w'.pen = w.pen → (w.buffer = [] → w'.buffer = []) → Prompt w' := by
    intro hl hp hb
    exact ⟨fun hf buf hbuf => hb (h.flushed (hp ▸ hf) buf (hl ▸ hbuf)),
      fun x hx hd => h.due x (hl ▸ hx) (hp ▸ hd)⟩
  cases m <;> simp only [TtlBufWriter.step] at hs
  case write =>
    split at hs
    · rename_i hp
      obtain rfl := Option.some.inj hs
      exact ⟨fun _ => h.flushed (by rw [hp.1]; rfl), fun x _ hd => by simp at hd⟩
    · cases hs
  case lock =>
    split at hs
    · split at hs
      · cases hs
      · obtain rfl := Option.some.inj hs
        exact ⟨fun hf => (by cases hf), fun x _ hd => by simp at hd⟩
    · cases hs
  case accept =>
    split at hs
    · obtain rfl := Option.some.inj hs
      exact ⟨fun hf => (by cases hf), fun x _ hd => by simp at hd⟩
    · cases hs
  case spill =>
    split at hs
    · obtain rfl := Option.some.inj hs
      exact hkeep rfl rfl fun hb => by simp [hb]
    · cases hs
  case written =>
    split at hs
    · obtain rfl := Option.some.inj hs
      exact ⟨fun hf => (by cases hf), fun x _ hd => by simp at hd⟩
    · rename_i hp
      obtain rfl := Option.some.inj hs
      obtain ⟨log, buf, hlog⟩ := hI.last _ _ hp
      refine ⟨fun hf => (by cases hf), fun x hx hd => ?_⟩
      rw [hlog, List.getLast?_concat] at hx
      cases hx
      exact Flush.noConfusion
    · rename_i hp
      obtain rfl := Option.some.inj hs
      obtain ⟨log, buf, hlog⟩ := hI.last _ _ hp
      refine ⟨fun _ b hb => ?_, fun x _ hd => by simp at hd⟩
      rw [hlog, List.getLast?_concat] at hb
      cases hb
    · cases hs
  case flushed =>
    split at hs
    · rename_i hp
      obtain rfl := Option.some.inj hs
      exact ⟨fun _ _ _ => hp.2, fun x _ hd => by simp at hd⟩
    · cases hs
  case look =>
    split at hs
    · rename_i hp
      obtain rfl := Option.some.inj hs
      refine ⟨fun _ buf hbuf => absurd rfl (h.due _ hbuf (.inl hp)),
        fun x hx _ => h.due x hx (.inl hp)⟩
    · cases hs
  case send =>
    split at hs
    · rename_i hp
      obtain rfl := Option.some.inj hs
      exact ⟨fun _ buf hbuf => absurd rfl (h.due _ hbuf (.inr hp.1)), fun x _ hd => by simp at hd⟩
    · cases hs
  all_goals
    split at hs
    · obtain rfl := Option.some.inj hs
      exact hkeep rfl rfl id
    · cases hs

/-- The writer is in use, and has not failed. -/
structure Sound (w : TtlBufWriter) : Prop where
  inv : Inv w
  prompt : Prompt w
  kept : w.dropper = .receiving
  awake : w.flusher ≠ .aborted

theorem Sound.new : Sound new := ⟨inv_new, .new, rfl, by decide⟩

theorem Sound.step (h : Sound w) (hs : w.step m = some w') (hm : m ≠ .drop) : Sound w' := by
  refine ⟨h.inv.step hs, h.prompt.step h.inv hs, ?_, ?_⟩
  · have hkept := h.kept
    cases m <;> simp only [TtlBufWriter.step] at hs
    case drop => exact absurd rfl hm
    case lockDropper | flushedDropper =>
      split at hs
      · rename_i hd
        rw [hkept] at hd
        cases hd.1
      · cases hs
    case lock =>
      split at hs
      · split at hs
        · cases hs
        · obtain rfl := Option.some.inj hs
          exact hkept
      · cases hs
    all_goals
      split at hs
      all_goals first
        | (obtain rfl := Option.some.inj hs; exact hkept)
        | cases hs
  · have hawake := h.awake
    cases m <;> simp only [TtlBufWriter.step] at hs
    case abort =>
      split at hs
      · rename_i hd
        exact absurd h.kept hd
      · cases hs
    case recv | wake | lockFlusher | flushedFlusher =>
      split at hs
      · obtain rfl := Option.some.inj hs
        exact Flusher.noConfusion
      · cases hs
    case lock =>
      split at hs
      · split at hs
        · cases hs
        · obtain rfl := Option.some.inj hs
          exact hawake
      · cases hs
    all_goals
      split at hs
      all_goals first
        | (obtain rfl := Option.some.inj hs; exact hawake)
        | cases hs

/-- It gets there by its own steps. -/
def Reaches (w w' : TtlBufWriter) : Prop :=
  ∃ ms, (∀ m ∈ ms, Stroke.own m = true) ∧
    Run (fun w m w' => TtlBufWriter.step w m = some w') w ms w'

theorem Reaches.refl (w : TtlBufWriter) : Reaches w w := ⟨[], by simp, .nil w⟩

theorem Reaches.trans {w'' : TtlBufWriter} (h : Reaches w w') (h' : Reaches w' w'') :
    Reaches w w'' := by
  obtain ⟨ms, hm, hr⟩ := h
  obtain ⟨ms', hm', hr'⟩ := h'
  exact ⟨ms ++ ms', fun m hmem => (List.mem_append.mp hmem).elim (hm m) (hm' m), hr.append hr'⟩

theorem Reaches.single (h : w.step m = some w') (hm : m.own = true) : Reaches w w' :=
  ⟨[m], fun _ h => List.mem_singleton.mp h ▸ hm, .single h⟩

theorem Reaches.sound (h : Reaches w w') (hw : Sound w) : Sound w' := by
  obtain ⟨ms, hm, hr⟩ := h
  induction hr with
  | nil => exact hw
  | @cons w w₁ w₂ m ms hst _ ih =>
    have hown := hm m List.mem_cons_self
    exact ih (hw.step hst fun hd => by rw [hd] at hown; cases hown) fun m hmem =>
      hm m (List.mem_cons_of_mem _ hmem)

/-- Its own steps change nothing of what it was given. -/
theorem Reaches.log (h : Reaches w w') : w'.log ++ w'.pen.pending = w.log ++ w.pen.pending := by
  obtain ⟨ms, hm, hr⟩ := h
  rw [log_run hr, List.filterMap_eq_nil_iff.mpr fun m hmem => Stroke.call_of_own (hm m hmem),
    List.append_nil]

theorem rest_idle : Pen.rest .idle = [] := rfl

theorem pending_idle : Pen.pending .idle = [] := rfl

/-- Nobody else has the lock, in the end. -/
theorem Sound.unlock (h : Sound w) (hp : w.pen.holds = false) :
    ∃ w', Reaches w w' ∧ w'.pen = w.pen ∧ w'.locked = false := by
  by_cases hf : w.flusher = .flushing
  · have hspill : w.step (.spill w.buffer.length) =
        some { w with inner := w.inner ++ w.buffer, buffer := [] } := by
      simp [TtlBufWriter.step, spills, hf]
    have hflushed :
        TtlBufWriter.step { w with inner := w.inner ++ w.buffer, buffer := [] } .flushedFlusher =
        some { w with inner := w.inner ++ w.buffer, buffer := [], flusher := .receiving } := by
      simp [TtlBufWriter.step, hf]
    refine ⟨_, (Reaches.single hspill rfl).trans (.single hflushed rfl), rfl, ?_⟩
    simp [locked, hp, h.kept]
  · exact ⟨w, .refl w, rfl, by simp [locked, hp, hf, h.kept]⟩

theorem finish_flushing (hp : w.pen = .flushing) : ∃ w', Reaches w w' ∧ w'.pen = .idle := by
  have hspill : w.step (.spill w.buffer.length) =
      some { w with inner := w.inner ++ w.buffer, buffer := [] } := by
    simp [TtlBufWriter.step, spills, hp, Pen.spills]
  have hflushed : TtlBufWriter.step { w with inner := w.inner ++ w.buffer, buffer := [] } .flushed =
      some { w with inner := w.inner ++ w.buffer, buffer := [], pen := .idle } := by
    simp [TtlBufWriter.step, hp]
  exact ⟨_, (Reaches.single hspill rfl).trans (.single hflushed rfl), rfl⟩

theorem Sound.finish_sending (h : Sound w) (hp : w.pen = .sending) :
    ∃ w', Reaches w w' ∧ w'.pen = .idle := by
  have hsend : w.step .send = some { w with pen := .idle, token := true } := by
    simp [TtlBufWriter.step, hp, h.inv.room hp]
  exact ⟨_, .single hsend rfl, rfl⟩

theorem Sound.finish_looking (h : Sound w) (hp : w.pen = .looking) :
    ∃ w', Reaches w w' ∧ w'.pen = .idle := by
  have hlook : w.step .look = some { w with pen := if w.token then .idle else .sending } := by
    simp [TtlBufWriter.step, hp]
  have hgo : Reaches w { w with pen := if w.token then .idle else .sending } := .single hlook rfl
  cases ht : w.token with
  | true =>
    rw [ht] at hgo
    exact ⟨_, hgo, rfl⟩
  | false =>
    rw [ht] at hgo
    obtain ⟨w', hw', hidle⟩ := (hgo.sound h).finish_sending rfl
    exact ⟨w', hgo.trans hw', hidle⟩

/-- A write that has the lock returns. -/
theorem Sound.finish_writing (h : Sound w) {rest : List UInt8} {flush : Flush}
    (hp : w.pen = .writing rest flush) :
    ∃ w', Reaches w w' ∧ w'.pen = .idle := by
  have haccept : w.step (.accept rest.length) =
      some { w with pen := .writing [] flush, buffer := w.buffer ++ rest } := by
    simp [TtlBufWriter.step, hp]
  have hgo : Reaches w { w with pen := .writing [] flush, buffer := w.buffer ++ rest } :=
    .single haccept rfl
  have hnext : ∀ v, Reaches { w with pen := .writing [] flush, buffer := w.buffer ++ rest } v →
      (∃ w', Reaches v w' ∧ w'.pen = .idle) → ∃ w', Reaches w w' ∧ w'.pen = .idle := by
    rintro v hv ⟨w', hw', hidle⟩
    exact ⟨w', hgo.trans (hv.trans hw'), hidle⟩
  cases flush with
  | no => exact hnext _ (.single (m := .written) rfl rfl) ⟨_, .refl _, rfl⟩
  | scheduled =>
    have hlook : Reaches { w with pen := .writing [] .scheduled, buffer := w.buffer ++ rest }
        { w with pen := .looking, buffer := w.buffer ++ rest } := .single (m := .written) rfl rfl
    exact hnext _ hlook ((hlook.sound (hgo.sound h)).finish_looking rfl)
  | instant => exact hnext _ (.single (m := .written) rfl rfl) (finish_flushing rfl)

/-- **A write returns**, by the steps of the writer and its flusher. -/
theorem Sound.finish (h : Sound w) : ∃ w', Reaches w w' ∧ w'.pen = .idle := by
  cases hp : w.pen with
  | idle => exact ⟨w, .refl w, hp⟩
  | locking buf flush =>
    obtain ⟨v, hv, hpen, hlocked⟩ := h.unlock (by rw [hp]; rfl)
    have hlock : v.step .lock =
        some { v with pen := .writing buf flush, log := v.log ++ [(buf, flush)] } := by
      simp [TtlBufWriter.step, hpen, hp, hlocked]
    have hgo := hv.trans (.single hlock rfl)
    obtain ⟨w', hw', hidle⟩ := (hgo.sound h).finish_writing rfl
    exact ⟨w', hgo.trans hw', hidle⟩
  | writing rest flush => exact h.finish_writing hp
  | flushing => exact finish_flushing hp
  | looking => exact h.finish_looking hp
  | sending => exact h.finish_sending hp

/-- From where the flusher has yet to flush, the buffer gets empty. -/
theorem Sound.flush (h : Sound w) (hp : w.pen = .idle) (hc : w.covered = true) :
    ∃ w', Reaches w w' ∧ w'.pen = .idle ∧ w'.buffer = [] := by
  have hspill : ∀ {v : TtlBufWriter}, v.pen = .idle → v.flusher = .flushing →
      ∃ w', Reaches v w' ∧ w'.pen = .idle ∧ w'.buffer = [] := by
    intro v hpv hf
    have hs : v.step (.spill v.buffer.length) =
        some { v with inner := v.inner ++ v.buffer, buffer := [] } := by
      simp [TtlBufWriter.step, spills, hf]
    exact ⟨_, .single hs rfl, hpv, rfl⟩
  have hlock : ∀ {v : TtlBufWriter}, Sound v → v.pen = .idle → v.flusher = .locking →
      ∃ w', Reaches v w' ∧ w'.pen = .idle ∧ w'.buffer = [] := by
    intro v hv hpv hf
    have hs : v.step .lockFlusher = some { v with flusher := .flushing } := by
      simp [TtlBufWriter.step, hf, locked, hpv, Pen.holds, hv.kept]
    obtain ⟨w', hw', hrest⟩ := hspill (v := { v with flusher := .flushing }) hpv rfl
    exact ⟨w', (Reaches.single hs rfl).trans hw', hrest⟩
  have hwake : ∀ {v : TtlBufWriter}, Sound v → v.pen = .idle → v.flusher = .sleeping →
      ∃ w', Reaches v w' ∧ w'.pen = .idle ∧ w'.buffer = [] := by
    intro v hv hpv hf
    have hgo : Reaches v { v with flusher := .locking } :=
      .single (m := .wake) (by simp [TtlBufWriter.step, hf]) rfl
    obtain ⟨w', hw', hrest⟩ := hlock (hgo.sound hv) hpv rfl
    exact ⟨w', hgo.trans hw', hrest⟩
  cases hf : w.flusher with
  | receiving =>
    have ht : w.token = true := by simpa [covered, hf, h.kept] using hc
    have hgo : Reaches w { w with flusher := .sleeping, token := false } :=
      .single (m := .recv) (by simp [TtlBufWriter.step, hf, ht]) rfl
    obtain ⟨w', hw', hrest⟩ := hwake (hgo.sound h) hp rfl
    exact ⟨w', hgo.trans hw', hrest⟩
  | sleeping => exact hwake h hp hf
  | locking => exact hlock h hp hf
  | flushing => exact hspill hp hf
  | aborted => exact absurd hf h.awake

/-- **Drained**: if all that was written is due, all of it gets out. -/
theorem Sound.drain (h : Sound w) (hp : w.pen = .idle) (hd : Busrt.due w.log = bytesOf w.log) :
    ∃ w', Reaches w w' ∧ w'.pen = .idle ∧ w'.log = w.log ∧ w'.inner = bytesOf w.log := by
  have hfree : w.pen.holds = false := by rw [hp]; rfl
  have hlog : ∀ {w'}, Reaches w w' → w'.pen = .idle → w'.log = w.log := by
    intro w' hw' hp'
    have hl := hw'.log
    rwa [hp, hp', pending_idle, List.append_nil, List.append_nil] at hl
  have hout : ∀ {w'}, Reaches w w' → w'.pen = .idle → w'.buffer = [] →
      w'.inner = bytesOf w.log := by
    intro w' hw' hp' hb
    have ho := (hw'.sound h).inv.order
    rwa [hb, hp', rest_idle, List.append_nil, List.append_nil, hlog hw' hp'] at ho
  have howed := h.inv.owed
  rw [base_of_free hfree] at howed
  rcases howed with hle | hc
  · have ho := h.inv.order
    rw [hp, rest_idle, List.append_nil] at ho
    have hb : w.buffer = [] := by
      rw [hd, ← ho, List.length_append] at hle
      exact List.length_eq_zero_iff.mp (by omega)
    exact ⟨w, .refl w, hp, rfl, hout (.refl w) hp hb⟩
  · obtain ⟨w', hw', hp', hb⟩ := h.flush hp hc
    exact ⟨w', hw', hp', hlog hw' hp', hout hw' hp' hb⟩

end TtlBufWriter

namespace OutletLabel

/-- What `handle_writer` and its writer do by themselves. -/
def progress : OutletLabel → Bool
  | recv | call | future _ => true
  | _ => false

/-- The connection is up, and nothing fails. -/
def lasting : OutletLabel → Bool
  | queue _ => true
  | l => l.progress

theorem lasting_of_progress {l : OutletLabel} (h : l.progress = true) : l.lasting = true := by
  cases l <;> first | rfl | exact h

end OutletLabel

namespace Outlet

variable {s s' : Outlet} {l : OutletLabel}

/-- As long as nothing fails: the writer is sound, and its writes are those of the frames. -/
structure Running (s : Outlet) : Prop where
  sound : s.w.Sound
  live : s.ended = false
  writes : s.w.log ++ s.w.pen.pending ++ s.todo = s.taken.flatMap handleWriter

theorem Running.new : Running new := ⟨.new, rfl, rfl⟩

theorem Running.step (h : Running s) (hl : l.lasting = true)
    (hs : OutletSteps s l s') : Running s' := by
  cases l <;> simp only [OutletSteps, outletStep] at hs
  case queue f =>
    obtain rfl := Option.some.inj hs
    exact ⟨h.sound, h.live, h.writes⟩
  case recv =>
    split at hs
    · rename_i f rx hrx
      split at hs
      · rename_i hr
        obtain rfl := Option.some.inj hs
        have hw := h.writes
        rw [hr.2, List.append_nil] at hw
        refine ⟨h.sound, h.live, ?_⟩
        simp only [hw, List.flatMap_append, List.flatMap_singleton]
      · cases hs
    · cases hs
  case call =>
    split at hs
    · rename_i buf flush todo htodo
      split at hs
      · rename_i hr
        obtain ⟨w, hw, rfl⟩ := Option.map_eq_some_iff.mp hs
        refine ⟨h.sound.step hw Stroke.noConfusion, h.live, ?_⟩
        rw [TtlBufWriter.log_step hw, ← h.writes, htodo]
        simp [Stroke.call]
      · cases hs
    · cases hs
  case future m =>
    split at hs
    · rename_i hm
      obtain ⟨w, hw, rfl⟩ := Option.map_eq_some_iff.mp hs
      refine ⟨h.sound.step hw (fun hd => by rw [hd] at hm; cases hm), h.live, ?_⟩
      rw [TtlBufWriter.log_step hw, Stroke.call_of_own hm, Option.toList_none, List.append_nil]
      exact h.writes
    · cases hs
  all_goals cases hl

/-- The outlet gets there by itself. -/
def Proceeds (s s' : Outlet) : Prop :=
  ∃ ls, (∀ l ∈ ls, OutletLabel.progress l = true) ∧ Run OutletSteps s ls s'

theorem Proceeds.refl (s : Outlet) : Proceeds s s := ⟨[], by simp, .nil s⟩

theorem Proceeds.trans {s'' : Outlet} (h : Proceeds s s') (h' : Proceeds s' s'') :
    Proceeds s s'' := by
  obtain ⟨ls, hl, hr⟩ := h
  obtain ⟨ls', hl', hr'⟩ := h'
  exact ⟨ls ++ ls', fun l hmem => (List.mem_append.mp hmem).elim (hl l) (hl' l), hr.append hr'⟩

theorem Proceeds.single (h : OutletSteps s l s') (hl : l.progress = true) : Proceeds s s' :=
  ⟨[l], fun _ h => List.mem_singleton.mp h ▸ hl, .single h⟩

theorem Proceeds.running (h : Proceeds s s') (hs : Running s) : Running s' := by
  obtain ⟨ls, hl, hr⟩ := h
  induction hr with
  | nil => exact hs
  | @cons s s₁ s₂ l ls hst _ ih =>
    have hp := hl l List.mem_cons_self
    exact ih (hs.step (OutletLabel.lasting_of_progress hp) hst) fun l hmem =>
      hl l (List.mem_cons_of_mem _ hmem)

theorem Proceeds.frames (h : Proceeds s s') : s'.taken ++ s'.rx = s.taken ++ s.rx := by
  obtain ⟨ls, hl, hr⟩ := h
  have hnone : ls.filterMap OutletLabel.queued = [] := by
    refine List.filterMap_eq_nil_iff.mpr fun l hmem => ?_
    have hp := hl l hmem
    cases l <;> first | rfl | cases hp
  rw [queued_run hr, hnone, List.append_nil]

/-- The steps of the writer. -/
theorem proceeds_of_reaches {w : TtlBufWriter} (h : s.w.Reaches w) : Proceeds s { s with w } := by
  obtain ⟨ms, hm, hr⟩ := h
  generalize hv : s.w = v at hr
  induction hr generalizing s with
  | nil =>
    subst hv
    exact .refl s
  | @cons v v₁ v₂ m ms hst _ ih =>
    subst hv
    have hstep : OutletSteps s (.future m) { s with w := v₁ } := by
      simp [OutletSteps, outletStep, hm m List.mem_cons_self, hst]
    exact (Proceeds.single hstep rfl).trans
      (ih (s := { s with w := v₁ }) (fun m hmem => hm m (List.mem_cons_of_mem _ hmem)) rfl)

/-- All writes of the frame are made. -/
theorem Running.write_all (h : Running s) :
    ∃ s', Proceeds s s' ∧ s'.w.pen = .idle ∧ s'.todo = [] ∧ s'.rx = s.rx := by
  induction htodo : s.todo generalizing s with
  | nil =>
    obtain ⟨w, hw, hidle⟩ := h.sound.finish
    exact ⟨_, proceeds_of_reaches hw, hidle, htodo, rfl⟩
  | cons x todo ih =>
    obtain ⟨buf, flush⟩ := x
    obtain ⟨w, hw, hidle⟩ := h.sound.finish
    have hgo : Proceeds s { s with w } := proceeds_of_reaches hw
    have hsound := hw.sound h.sound
    have hcall : OutletSteps { s with w }
        .call { s with w := { w with pen := .locking buf flush }, todo } := by
      simp [OutletSteps, outletStep, htodo, Ready, h.live, hidle, TtlBufWriter.step, hsound.kept]
    have hnext := hgo.trans (.single hcall rfl)
    obtain ⟨s', hs', hrest⟩ := ih (hnext.running h) rfl
    exact ⟨s', hnext.trans hs', hrest⟩

/-- All frames are taken and written. -/
theorem Running.take_all (h : Running s) : ∃ s', Proceeds s s' ∧ s'.w.pen = .idle ∧
    s'.todo = [] ∧ s'.rx = [] := by
  induction hrx : s.rx generalizing s with
  | nil =>
    obtain ⟨s', hs', hidle, htodo, hrx'⟩ := h.write_all
    exact ⟨s', hs', hidle, htodo, hrx'.trans hrx⟩
  | cons f rx ih =>
    obtain ⟨v, hv, hidle, htodo, hrxv⟩ := h.write_all
    have hrecv : OutletSteps v .recv { v with
        rx, todo := handleWriter f, taken := v.taken ++ [f] } := by
      simp [OutletSteps, outletStep, hrxv, hrx, Ready, (hv.running h).live, hidle, htodo]
    have hnext := hv.trans (.single hrecv rfl)
    obtain ⟨s', hs', hrest⟩ := ih (hnext.running h) rfl
    exact ⟨s', hnext.trans hs', hrest⟩

end Outlet

/-- The last write of a frame is to be flushed. -/
theorem getLast_handleWriter (f : FrameData) :
    ∃ buf, (handleWriter f).getLast? = some (buf, .ofRealtime f.realtime) := by
  unfold handleWriter
  split
  · exact ⟨f.buf, rfl⟩
  · exact ⟨f.payload, List.getLast?_concat⟩

theorem getLast_writes (fs : List FrameData) (f : FrameData) :
    ∃ buf, ((fs ++ [f]).flatMap handleWriter).getLast? = some (buf, .ofRealtime f.realtime) := by
  obtain ⟨buf, hbuf⟩ := getLast_handleWriter f
  refine ⟨buf, ?_⟩
  rw [List.flatMap_append, List.flatMap_singleton, List.getLast?_append, hbuf]
  rfl

/-- So all of a number of frames is due. -/
theorem due_writes (fs : List FrameData) :
    due (fs.flatMap handleWriter) = bytesOf (fs.flatMap handleWriter) := by
  rcases List.eq_nil_or_concat fs with rfl | ⟨fs, f, rfl⟩
  · rfl
  · obtain ⟨buf, hbuf⟩ := getLast_writes fs f
    obtain ⟨l, hl⟩ := List.getLast?_eq_some_iff.mp hbuf
    have hflush : Flush.ofRealtime f.realtime ≠ .no := by unfold Flush.ofRealtime; split <;> decide
    rw [List.concat_eq_append, hl, due, List.rdropWhile_concat_neg _ _ _ (by simpa using hflush)]

theorem bytesOf_writes (fs : List FrameData) :
    bytesOf (fs.flatMap handleWriter) = fs.flatMap FrameData.bytes := by
  rw [bytesOf, List.flatMap_assoc]
  rfl

/-- Frames that are out are with the client. -/
theorem handleRead_bytes {fs : List FrameData} (h : ∀ f ∈ fs, Queued f ∧ (Data f → Fits f)) :
    ∃ os, List.Forall₂ Arrives fs os ∧ Ipc.handleRead (fs.flatMap FrameData.bytes) =
      (os.reduceOption, .ok []) := by
  obtain ⟨os, hos, hread⟩ := handleRead_writer fs h
  have hipc := (hread []).2.1
  rw [List.append_nil] at hipc
  refine ⟨os, hos, ?_⟩
  rw [hipc, Ipc.handleRead, handleRead, Parser.readAll_nil]
  simp

/-- **All is delivered**: while nothing fails, a realtime frame is with the client when its
last write has returned; and by the steps of `handle_writer` and its writer alone
every frame that was queued gets to the client. -/
theorem delivers_all {ls : List OutletLabel} {s : Outlet}
    (h : Run (Guarded OutletSteps fun _ l => l.lasting = true) .new ls s)
    (hq : ∀ f ∈ ls.filterMap OutletLabel.queued, Queued f ∧ (Data f → Fits f)) :
    (∀ fs f, s.taken = fs ++ [f] → f.realtime = true → s.Ready → s.todo = [] →
      ∃ os, List.Forall₂ Arrives s.taken os ∧
        Ipc.handleRead s.w.inner = (os.reduceOption, .ok [])) ∧
    ∃ s', Outlet.Proceeds s s' ∧ ∃ os, List.Forall₂ Arrives (ls.filterMap OutletLabel.queued) os ∧
      Ipc.handleRead s'.w.inner = (os.reduceOption, .ok []) := by
  have hrun : s.Running := h.inv (fun s l s' hs hst => hs.step hst.1 hst.2) .new
  have hframes : s.taken ++ s.rx = ls.filterMap OutletLabel.queued :=
    Outlet.queued_run (h.mono fun _ _ _ hst => hst.2)
  constructor
  · intro fs f hf hrt hready htodo
    have hlog := hrun.writes
    rw [htodo, hready.2, TtlBufWriter.pending_idle, List.append_nil, List.append_nil] at hlog
    obtain ⟨buf, hlast⟩ := getLast_writes fs f
    rw [hrt, ← hf, ← hlog] at hlast
    have hbuf := hrun.sound.prompt.flushed (by rw [hready.2]; rfl) buf hlast
    have hinner := hrun.sound.inv.order
    rw [hbuf, hready.2, TtlBufWriter.rest_idle, List.append_nil, List.append_nil, hlog,
      bytesOf_writes] at hinner
    rw [hinner]
    exact handleRead_bytes fun g hg => hq g (hframes ▸ List.mem_append_left _ hg)
  · obtain ⟨v, hv, hidle, htodo, hrx⟩ := hrun.take_all
    have hvrun := hv.running hrun
    have hlog := hvrun.writes
    rw [htodo, hidle, TtlBufWriter.pending_idle, List.append_nil, List.append_nil] at hlog
    obtain ⟨w, hw, -, -, hinner⟩ := hvrun.sound.drain hidle (by rw [hlog]; exact due_writes _)
    have htaken := hv.frames
    rw [hrx, List.append_nil, hframes] at htaken
    refine ⟨_, hv.trans (Outlet.proceeds_of_reaches hw), ?_⟩
    rw [hinner, hlog, bytesOf_writes, htaken]
    exact handleRead_bytes hq

namespace Served

/-- A ping is written, and an acknowledgement is begun; a publication waits. -/
def begun : List OutletLabel :=
  Streams.queue.map .queue ++
    [.recv, .call, .future .lock, .future (.accept 6), .future .written, .call, .future .lock,
      .future .written, .future .look, .future .send, .recv, .call, .future .lock,
      .future (.accept 6), .future (.spill 8)]

/-- The acknowledgement is written. -/
def acked : List OutletLabel := begun ++ [.future .written, .future (.spill 4), .future .flushed]

theorem lasting_acked : ∀ l ∈ acked, l.lasting = true := by decide

theorem proper : ∀ f ∈ Streams.queue, Queued f ∧ (Data f → Fits f) :=
  fun f hf => ⟨Streams.queued f hf, Streams.fits f hf⟩

end Served

open Served in
/-- The write of the acknowledgement fails: the client has the ping and two bytes. -/
theorem reads_in_order_failed :
    ∃ s k rest os, Run OutletSteps .new (begun ++ [.fail]) s ∧ s.w.inner.length = 8 ∧
    s.ended = true ∧ List.Forall₂ Arrives (Streams.queue.take k) os ∧
    Ipc.handleRead s.w.inner = (os.reduceOption, .ok rest) := by
  have hrun : (execList outletStep .new (begun ++ [.fail])).map (fun s => (s.w.inner.length,
      s.ended)) = some (8, true) := by
    decide
  obtain ⟨s, hs, hobs⟩ := Option.map_eq_some_iff.mp hrun
  simp only [Prod.mk.injEq] at hobs
  have h := run_of_execList hs
  obtain ⟨k, rest, os, hos, -, hread, -⟩ := reads_in_order h proper
  exact ⟨s, k, rest, os, h, hobs.1, hobs.2, hos, hread⟩

open Served in
/-- The acknowledgement is realtime, and the client has it; the publication gets there too. -/
theorem delivers_all_acked : ∃ s, s.taken.length = 2 ∧
    (∃ os, List.Forall₂ Arrives s.taken os ∧ Ipc.handleRead s.w.inner = (os.reduceOption, .ok [])) ∧
    ∃ s', Outlet.Proceeds s s' ∧ ∃ os, List.Forall₂ Arrives Streams.queue os ∧
      Ipc.handleRead s'.w.inner = (os.reduceOption, .ok []) := by
  have hrun : (execList outletStep .new acked).map (fun s => (s.taken,
      decide (s.Ready ∧ s.todo = []))) =
      some (Streams.queue.take 2, true) := by
    decide
  obtain ⟨s, hs, hobs⟩ := Option.map_eq_some_iff.mp hrun
  simp only [Prod.mk.injEq, decide_eq_true_eq] at hobs
  have h := (run_of_execList hs).guarded (G := fun _ l => l.lasting = true) fun _ l hl =>
    lasting_acked l hl
  obtain ⟨hnow, hlater⟩ := delivers_all h proper
  exact ⟨s, by rw [hobs.1]; rfl, hnow [.newNop] _ hobs.1 rfl hobs.2.1 hobs.2.2, hlater⟩

end Busrt
