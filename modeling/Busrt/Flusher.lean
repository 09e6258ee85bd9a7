/-
# The buffered writer and its flusher

`TtlBufWriter` puts a buffer under a lock before a socket. A write that is to go
out at once flushes the buffer itself; one that may wait leaves a token in a
channel for one, if the channel looks empty, and a task of its own, the
flusher, takes the token, waits for a while, and flushes. On drop the flusher is
aborted, and another task flushes for the last time.

Each of them is taken step by step here: a writer gets the lock, hands over its
bytes a few at a time, while bytes of the buffer may go out, looks at the
channel, sends; the flusher takes the token, wakes up, gets the lock, flushes.
How the buffer hands its bytes on is left open, but for their order.

No byte is stranded (`strands_no_bytes`): a buffer with bytes that are due has a
token in the channel, or a flusher that has taken one and has yet to flush.

Key definitions: `TtlBufWriter`, `TtlBufWriter.step`, `due`, `TtlBufWriter.Inv`.
Key theorems: `Inv.step`, `strands_no_bytes`.
-/
import Mathlib.Data.List.DropRight
import Busrt.Wire
import Busrt.Lib.Run

namespace Busrt

open Lib

/-! ### The writer -/

/-- `TtlBufWriter::write`: it waits for the lock, hands its bytes over, and then flushes, or looks
at the channel and sends a token. -/
inductive Pen
  | idle
  | locking (buf : List UInt8) (flush : Flush)
  | writing (rest : List UInt8) (flush : Flush)
  | flushing
  | looking
  | sending
  deriving DecidableEq, Repr

/-- The future spawned first: it waits for a token, for the time to pass, for the lock, for the
flush. -/
inductive Flusher
  | receiving | sleeping | locking | flushing | aborted
  deriving DecidableEq, Repr

/-- The future that works on drop. -/
inductive Dropper
  | receiving | locking | flushing | done
  deriving DecidableEq, Repr

/-- The writer: what its buffer holds, what the inner writer got, whether a token is in the channel,
and where its futures are. `log` has the writes that got the lock so far. -/
structure TtlBufWriter where
  buffer : List UInt8
  inner : List UInt8
  token : Bool
  pen : Pen
  flusher : Flusher
  dropper : Dropper
  log : List (List UInt8 × Flush)
  deriving DecidableEq, Repr

/-- The steps of the futures. -/
inductive Stroke
  | write (buf : List UInt8) (flush : Flush)
  | lock
  /-- `write_all` hands some bytes over. -/
  | accept (k : ℕ)
  /-- The buffer hands some bytes on. -/
  | spill (k : ℕ)
  | written
  | flushed
  | look
  | send
  | recv
  | wake
  | lockFlusher
  | flushedFlusher
  | drop
  | abort
  | lockDropper
  | flushedDropper
  deriving DecidableEq, Repr

namespace Pen

/-- A write holds the lock until it returns. -/
def holds : Pen → Bool
  | idle | locking .. => false
  | _ => true

/-- What it has not handed over yet. -/
def rest : Pen → List UInt8
  | writing rest _ => rest
  | _ => []

/-- The buffer is in use. -/
def spills : Pen → Bool
  | writing .. | flushing => true
  | _ => false

/-- The write that waits for the lock. -/
def pending : Pen → List (List UInt8 × Flush)
  | locking buf flush => [(buf, flush)]
  | _ => []

end Pen

namespace TtlBufWriter

/-- `TtlBufWriter::new`. -/
def new : TtlBufWriter := ⟨[], [], false, .idle, .receiving, .receiving, []⟩

def locked (w : TtlBufWriter) : Bool :=
  w.pen.holds || w.flusher == .flushing || w.dropper == .flushing

/-- Somebody writes or flushes. -/
def spills (w : TtlBufWriter) : Bool :=
  w.pen.spills || w.flusher == .flushing || w.dropper == .flushing

/-- One step; none if it has to wait. -/
def step (w : TtlBufWriter) : Stroke → Option TtlBufWriter
  | .write buf flush =>
    if w.pen = .idle ∧ w.dropper = .receiving then some { w with pen := .locking buf flush }
    else none
  | .lock =>
    match w.pen with
    | .locking buf flush =>
      if w.locked then none
      else some { w with pen := .writing buf flush, log := w.log ++ [(buf, flush)] }
    | _ => none
  | .accept k =>
    match w.pen with
    | .writing rest flush =>
      some { w with pen := .writing (rest.drop k) flush, buffer := w.buffer ++ rest.take k }
    | _ => none
  | .spill k =>
    if w.spills then some { w with inner := w.inner ++ w.buffer.take k, buffer := w.buffer.drop k }
    else none
  | .written =>
    match w.pen with
    | .writing [] .instant => some { w with pen := .flushing }
    | .writing [] .scheduled => some { w with pen := .looking }
    | .writing [] .no => some { w with pen := .idle }
    | _ => none
  | .flushed => if w.pen = .flushing ∧ w.buffer = [] then some { w with pen := .idle } else none
  | .look =>
    if w.pen = .looking then some { w with pen := if w.token then .idle else .sending } else none
  | .send =>
    -- `tx.send(()).await` waits while the channel is full
    if w.pen = .sending ∧ w.token = false then some { w with pen := .idle, token := true } else none
  | .recv =>
    if w.flusher = .receiving ∧ w.token = true then
      some { w with flusher := .sleeping, token := false }
    else none
  | .wake => if w.flusher = .sleeping then some { w with flusher := .locking } else none
  | .lockFlusher =>
    if w.flusher = .locking ∧ w.locked = false then some { w with flusher := .flushing } else none
  | .flushedFlusher =>
    if w.flusher = .flushing ∧ w.buffer = [] then some { w with flusher := .receiving } else none
  | .drop =>
    if w.pen = .idle ∧ w.dropper = .receiving then some { w with dropper := .locking } else none
  | .abort => if w.dropper ≠ .receiving then some { w with flusher := .aborted } else none
  | .lockDropper =>
    if w.dropper = .locking ∧ w.locked = false then some { w with dropper := .flushing } else none
  | .flushedDropper =>
    if w.dropper = .flushing ∧ w.buffer = [] then some { w with dropper := .done } else none

end TtlBufWriter

/-- The writes that are made. -/
def Stroke.call : Stroke → Option (List UInt8 × Flush)
  | .write buf flush => some (buf, flush)
  | _ => none

/-- The bytes of some writes. -/
def bytesOf (log : List (List UInt8 × Flush)) : List UInt8 := log.flatMap (·.1)

/-- The bytes that are due: those of the last write that is to be flushed, and of all before it. -/
def due (log : List (List UInt8 × Flush)) : List UInt8 :=
  bytesOf (log.rdropWhile fun x => x.2 = .no)

theorem bytesOf_append (log log' : List (List UInt8 × Flush)) :
    bytesOf (log ++ log') = bytesOf log ++ bytesOf log' :=
  List.flatMap_append

theorem due_no (log : List (List UInt8 × Flush)) (buf : List UInt8) :
    due (log ++ [(buf, .no)]) = due log := by
  rw [due, List.rdropWhile_concat_pos _ _ _ (by simp)]
  rfl

/-- What is due is at the front. -/
theorem due_isPrefix (log : List (List UInt8 × Flush)) : due log <+: bytesOf log := by
  obtain ⟨l, hl⟩ := List.rdropWhile_prefix (fun x : List UInt8 × Flush => x.2 = .no) log
  refine ⟨bytesOf l, ?_⟩
  conv_rhs => rw [← hl]
  exact (bytesOf_append _ _).symm

/-! ### The invariant -/

namespace TtlBufWriter

variable {w w' : TtlBufWriter} {m : Stroke}

/-- A flush is to come: a token is in the channel, or the flusher has taken one and has yet to
flush; or the future that works on drop has yet to. -/
def covered (w : TtlBufWriter) : Bool :=
  w.token || (w.flusher == .sleeping || w.flusher == .locking || w.flusher == .flushing) ||
    (w.dropper == .locking || w.dropper == .flushing)

/-- What is due of these writes is out, or a flush is to come. -/
def Owed (w : TtlBufWriter) (log : List (List UInt8 × Flush)) : Prop :=
  (due log).length ≤ w.inner.length ∨ w.covered = true

/-- The writes that have returned, or wait for the lock. -/
def base (w : TtlBufWriter) : List (List UInt8 × Flush) :=
  if w.pen.holds then w.log.dropLast else w.log

structure Inv (w : TtlBufWriter) : Prop where
  order : w.inner ++ w.buffer ++ w.pen.rest = bytesOf w.log
  alone : w.pen.holds = true → w.flusher ≠ .flushing ∧ w.dropper ≠ .flushing
  apart : w.flusher = .flushing → w.dropper ≠ .flushing
  last : ∀ rest flush, w.pen = .writing rest flush → ∃ log buf, w.log = log ++ [(buf, flush)]
  owed : w.Owed w.base
  room : w.pen = .sending → w.token = false
  gone : w.dropper ≠ .receiving → w.pen = .idle
  finished : w.dropper = .done → w.buffer = []

theorem inv_new : Inv new where
  order := rfl
  alone h := nomatch h
  apart h := nomatch h
  last _ _ h := nomatch h
  owed := .inl le_rfl
  room h := nomatch h
  gone h := absurd rfl h
  finished h := nomatch h

theorem not_locked (h : w.locked = false) :
    w.pen.holds = false ∧ w.flusher ≠ .flushing ∧ w.dropper ≠ .flushing := by
  simpa [locked, and_assoc] using h

theorem Owed.mono {log : List (List UInt8 × Flush)} (h : w.Owed log)
    (hi : w.inner.length ≤ w'.inner.length) (hc : w.covered = true → w'.covered = true) :
    w'.Owed log :=
  h.imp (·.trans hi) hc

/-- A buffer that is empty has nothing that is due. -/
theorem Inv.owed_of_empty (h : Inv w) (hb : w.buffer = []) (hr : w.pen.rest = []) :
    (due w.log).length ≤ w.inner.length := by
  have ho := h.order
  rw [hb, hr, List.append_nil, List.append_nil] at ho
  rw [ho]
  exact (due_isPrefix w.log).length_le

/-- While a write goes on, the writer is not dropped. -/
theorem Inv.kept (h : Inv w) (hp : w.pen ≠ .idle) :
    w.dropper = .receiving := of_not_not fun hd => hp (h.gone hd)

theorem base_of_holds (h : w.pen.holds = true) : w.base = w.log.dropLast := by rw [base, if_pos h]

/-- While the writer has the lock it is not dropped, and owes what it owed before this write. -/
theorem Inv.holding (h : Inv w) (hp : w.pen.holds = true) :
    w.dropper = .receiving ∧ w.Owed w.log.dropLast := by
  refine ⟨h.kept fun hi => ?_, base_of_holds hp ▸ h.owed⟩
  rw [hi] at hp
  cases hp

theorem base_of_free (h : w.pen.holds = false) :
    w.base = w.log := by rw [base, if_neg (by simp [h])]

theorem rest_of_free {p : Pen} (h : p.holds = false) :
    p.rest = [] := by cases p <;> first | rfl | cases h

/-- Nor has an empty buffer while nobody writes. -/
theorem Inv.owed_of_free (h : Inv w) (hp : w.pen.holds = false) (hb : w.buffer = []) :
    (due w.base).length ≤ w.inner.length := by
  rw [base_of_free hp]
  exact h.owed_of_empty hb (rest_of_free hp)

theorem Inv.step (h : Inv w) (hs : w.step m = some w') : Inv w' := by
  cases m with
  | write buf flush =>
    obtain ⟨hp, hs⟩ := Option.ite_none_right_eq_some.mp hs
    obtain rfl := Option.some.inj hs
    have ho := h.order
    have howed := h.owed
    rw [hp.1] at ho
    rw [base_of_free (by rw [hp.1]; rfl)] at howed
    exact ⟨ho, nofun, h.apart, nofun, howed, nofun, fun hd => absurd hp.2 hd, h.finished⟩
  | lock =>
    simp only [TtlBufWriter.step] at hs
    split at hs
    · rename_i buf flush hp
      split at hs
      · cases hs
      · rename_i hl
        obtain rfl := Option.some.inj hs
        obtain ⟨-, hf, hd⟩ := not_locked (by simpa using hl)
        have hkept := h.kept (by rw [hp]; nofun)
        have ho := h.order
        have howed := h.owed
        rw [hp] at ho
        rw [base_of_free (by rw [hp]; rfl)] at howed
        refine ⟨?_, fun _ => ⟨hf, hd⟩, h.apart,
          fun rest f he => ?_, ?_, nofun, fun hd => absurd hkept hd, h.finished⟩
        · rw [bytesOf_append, ← ho]
          simp [Pen.rest, bytesOf]
        · cases he
          exact ⟨w.log, buf, rfl⟩
        · rw [base_of_holds rfl]
          change Owed _ (w.log ++ [(buf, flush)]).dropLast
          rw [List.dropLast_concat]
          exact howed
    · cases hs
  | accept k =>
    simp only [TtlBufWriter.step] at hs
    split at hs
    · rename_i rest flush hp
      obtain rfl := Option.some.inj hs
      obtain ⟨hkept, howed⟩ := h.holding (by rw [hp]; rfl)
      have ho := h.order
      rw [hp] at ho
      refine ⟨?_, fun _ => h.alone (by rw [hp]; rfl), h.apart, fun rest' f he => ?_, howed, nofun,
        fun hd => absurd hkept hd, fun hd => nomatch hkept.symm.trans hd⟩
      · rw [← ho]
        simp [Pen.rest]
      · cases he
        exact h.last _ _ hp
    · cases hs
  | spill k =>
    obtain ⟨-, hs⟩ := Option.ite_none_right_eq_some.mp hs
    obtain rfl := Option.some.inj hs
    refine ⟨?_, h.alone, h.apart, h.last, h.owed.mono (by simp) id, h.room, h.gone, fun hd => ?_⟩
    · rw [← h.order]
      simp
    · simp [h.finished hd]
  | written =>
    simp only [TtlBufWriter.step] at hs
    split at hs
    all_goals try cases hs
    all_goals
      rename_i hp
      obtain ⟨hkept, howed⟩ := h.holding (by rw [hp]; rfl)
      have ho := h.order
      rw [hp] at ho
    · exact ⟨ho, fun _ => h.alone (by rw [hp]; rfl), h.apart,
        nofun, howed, nofun, fun hd => absurd hkept hd, h.finished⟩
    · exact ⟨ho, fun _ => h.alone (by rw [hp]; rfl), h.apart,
        nofun, howed, nofun, fun hd => absurd hkept hd, h.finished⟩
    · refine ⟨ho, nofun, h.apart, nofun, ?_, nofun, fun _ => rfl, h.finished⟩
      -- nothing more is due than before this write
      obtain ⟨log, buf, hlog⟩ := h.last _ _ hp
      rw [hlog, List.dropLast_concat] at howed
      rw [base_of_free rfl]
      change Owed _ w.log
      rw [hlog, Owed, due_no]
      exact howed
  | flushed =>
    obtain ⟨hp, hs⟩ := Option.ite_none_right_eq_some.mp hs
    obtain rfl := Option.some.inj hs
    have ho := h.order
    rw [hp.1] at ho
    exact ⟨ho, nofun, h.apart,
      nofun, .inl (h.owed_of_empty hp.2 (by rw [hp.1]; rfl)), nofun, fun _ => rfl, h.finished⟩
  | look =>
    obtain ⟨hp, hs⟩ := Option.ite_none_right_eq_some.mp hs
    obtain rfl := Option.some.inj hs
    obtain ⟨hkept, howed⟩ := h.holding (by rw [hp]; rfl)
    have ho := h.order
    rw [hp] at ho
    cases ht : w.token with
    | true =>
      refine ⟨ho, nofun, h.apart, nofun, .inr ?_, nofun, fun _ => rfl, h.finished⟩
      simp [covered]
    | false =>
      refine ⟨ho, fun _ => h.alone (by rw [hp]; rfl), h.apart,
        nofun, ?_, fun _ => rfl, fun hd => absurd hkept hd,
        h.finished⟩
      exact howed.mono le_rfl fun hc => by simpa [covered, ht] using hc
  | send =>
    obtain ⟨hp, hs⟩ := Option.ite_none_right_eq_some.mp hs
    obtain rfl := Option.some.inj hs
    have ho := h.order
    rw [hp.1] at ho
    exact ⟨ho, nofun, h.apart, nofun, .inr rfl, nofun, fun _ => rfl, h.finished⟩
  | recv =>
    obtain ⟨-, hs⟩ := Option.ite_none_right_eq_some.mp hs
    obtain rfl := Option.some.inj hs
    refine ⟨h.order, fun hp => ⟨nofun, (h.alone hp).2⟩, nofun,
      h.last, .inr rfl, fun _ => rfl, h.gone, h.finished⟩
  | wake =>
    obtain ⟨-, hs⟩ := Option.ite_none_right_eq_some.mp hs
    obtain rfl := Option.some.inj hs
    refine ⟨h.order, fun hp => ⟨nofun, (h.alone hp).2⟩, nofun,
      h.last, .inr ?_, h.room, h.gone, h.finished⟩
    simp [covered]
  | lockFlusher =>
    obtain ⟨hf, hs⟩ := Option.ite_none_right_eq_some.mp hs
    obtain rfl := Option.some.inj hs
    obtain ⟨hpen, -, hd⟩ := not_locked hf.2
    refine ⟨h.order, fun hp => ?_, fun _ => hd, h.last, .inr ?_, h.room, h.gone, h.finished⟩
    · exact absurd (hpen.symm.trans hp) (by decide)
    · simp [covered]
  | flushedFlusher =>
    obtain ⟨hf, hs⟩ := Option.ite_none_right_eq_some.mp hs
    obtain rfl := Option.some.inj hs
    have hpen : w.pen.holds = false := Bool.eq_false_iff.mpr fun hp => (h.alone hp).1 hf.1
    have howed := h.owed_of_free hpen hf.2
    exact ⟨h.order, fun hp => ⟨nofun, (h.alone hp).2⟩, nofun,
      h.last, .inl howed, h.room, h.gone, h.finished⟩
  | drop =>
    obtain ⟨hp, hs⟩ := Option.ite_none_right_eq_some.mp hs
    obtain rfl := Option.some.inj hs
    refine ⟨h.order, fun hh => ?_, nofun, h.last, .inr ?_, h.room, fun _ => hp.1, nofun⟩
    · exact ⟨(h.alone hh).1, nofun⟩
    · simp [covered]
  | abort =>
    obtain ⟨hd, hs⟩ := Option.ite_none_right_eq_some.mp hs
    obtain rfl := Option.some.inj hs
    have hpen := h.gone hd
    refine ⟨h.order, fun hp => ⟨nofun, (h.alone hp).2⟩, nofun,
      h.last, ?_, h.room, h.gone, h.finished⟩
    -- the last flush is to come, or it was
    cases hdr : w.dropper with
    | receiving => exact absurd hdr hd
    | locking | flushing => exact .inr (by simp [covered])
    | done =>
      have hfree : w.pen.holds = false := by rw [hpen]; rfl
      exact .inl (h.owed_of_free hfree (h.finished hdr))
  | lockDropper =>
    obtain ⟨hd, hs⟩ := Option.ite_none_right_eq_some.mp hs
    obtain rfl := Option.some.inj hs
    obtain ⟨hpen, hf, -⟩ := not_locked hd.2
    refine ⟨h.order, fun hp => ?_, fun hf' => absurd hf' hf, h.last, .inr ?_, h.room, ?_, nofun⟩
    · exact absurd (hpen.symm.trans hp) (by decide)
    · simp [covered]
    · exact fun _ => h.gone (by rw [hd.1]; nofun)
  | flushedDropper =>
    obtain ⟨hd, hs⟩ := Option.ite_none_right_eq_some.mp hs
    obtain rfl := Option.some.inj hs
    have hpen : w.pen = .idle := h.gone (by rw [hd.1]; nofun)
    have hfree : w.pen.holds = false := by rw [hpen]; rfl
    have howed := h.owed_of_free hfree hd.2
    exact ⟨h.order, fun hp => ⟨(h.alone hp).1, nofun⟩, fun _ => nofun, h.last, .inl howed,
      h.room, fun _ => hpen,
      fun _ => hd.2⟩

/-- The writes that got the lock or wait for it are those that were made. -/
theorem log_step (hs : w.step m = some w') : w'.log ++ w'.pen.pending = w.log ++ w.pen.pending ++
    m.call.toList := by
  cases m <;> simp only [TtlBufWriter.step] at hs
  case write | flushed | send =>
    split at hs
    · rename_i hp
      obtain rfl := Option.some.inj hs
      simp [hp, Pen.pending, Stroke.call]
    · cases hs
  case look =>
    split at hs
    · rename_i hp
      obtain rfl := Option.some.inj hs
      cases ht : w.token <;> simp [hp, Pen.pending, Stroke.call]
    · cases hs
  case lock =>
    split at hs
    · rename_i buf flush hp
      split at hs
      · cases hs
      · obtain rfl := Option.some.inj hs
        simp [hp, Pen.pending, Stroke.call]
    · cases hs
  case accept =>
    split at hs
    · rename_i hp
      obtain rfl := Option.some.inj hs
      simp [hp, Pen.pending, Stroke.call]
    · cases hs
  case written =>
    split at hs
    all_goals try cases hs
    all_goals
      rename_i hp
      simp [hp, Pen.pending, Stroke.call]
  all_goals
    split at hs
    · obtain rfl := Option.some.inj hs
      simp [Stroke.call]
    · cases hs

theorem log_run {ms : List Stroke}
    (h : Run (fun w m w' => TtlBufWriter.step w m = some w') w ms w') :
    w'.log ++ w'.pen.pending = w.log ++ w.pen.pending ++ ms.filterMap Stroke.call := by
  induction h with
  | nil => exact (List.append_nil _).symm
  | @cons s s₁ s₂ a as hst _ ih =>
    rw [ih, log_step hst, List.append_assoc]
    cases hc : a.call <;> simp [hc]

end TtlBufWriter

open TtlBufWriter in
/-- **No byte is stranded**: the bytes that went out, those in the buffer and those that are still
being handed over are the written ones in their order. While the lock is free and the buffer has
bytes that are due, a token is in the channel or the flusher has taken one and has yet to flush;
after a drop, the last flush is to come, and then all is out. No write waits for the channel. -/
theorem strands_no_bytes {ms : List Stroke} {w : TtlBufWriter}
    (h : Run (fun w m w' => TtlBufWriter.step w m = some w') TtlBufWriter.new ms w) :
    w.log ++ w.pen.pending = ms.filterMap Stroke.call ∧
      w.inner ++ w.buffer ++ w.pen.rest = bytesOf w.log ∧
      (w.locked = false → w.dropper = .receiving → w.inner.length < (due w.log).length →
        w.token = true ∨ w.flusher = .sleeping ∨ w.flusher = .locking) ∧
      (w.dropper ≠ .receiving →
        w.dropper = .locking ∨ w.dropper = .flushing ∨ w.inner = bytesOf w.log) ∧
      (w.pen = .sending → (w.step .send).isSome = true) := by
  have hI : Inv w := h.inv (fun w m w' hw hs => hw.step hs) inv_new
  refine ⟨log_run h, hI.order, fun hl hd hlt => ?_, fun hd => ?_, fun hp => ?_⟩
  · obtain ⟨hpen, hf, -⟩ := not_locked hl
    have howed := hI.owed
    rw [base_of_free hpen] at howed
    have hc : w.covered = true := howed.resolve_left (not_le.mpr hlt)
    simpa [covered, hd, hf] using hc
  · cases hdr : w.dropper with
    | receiving => exact absurd hdr hd
    | locking => exact .inl rfl
    | flushing => exact .inr (.inl rfl)
    | done =>
      have ho := hI.order
      rw [hI.finished hdr, hI.gone hd] at ho
      exact .inr (.inr (by simpa [Pen.rest] using ho))
  · simp [TtlBufWriter.step, hp, hI.room hp]

/-- Two writes that may wait, the second of which comes while the flusher sleeps with the token of
the first. -/
def twice : List Stroke :=
  [.write [1] .scheduled, .lock, .accept 1, .written, .look, .send, .recv, .write [2] .scheduled,
    .lock, .accept 1, .written, .look, .send]

/-- The second leaves a token of its own. -/
theorem strands_no_bytes_twice : ∃ w : TtlBufWriter,
    Run (fun w m w' => TtlBufWriter.step w m = some w') TtlBufWriter.new twice w ∧ w.token = true ∧
    w.flusher = .sleeping ∧ w.buffer = [1, 2] ∧
      w.inner ++ w.buffer ++ w.pen.rest = bytesOf w.log := by
  have hrun : (execList TtlBufWriter.step .new twice).map
      (fun w => (w.token, w.flusher, w.buffer)) = some (true, .sleeping, [1, 2]) := by decide
  obtain ⟨w, hw, hobs⟩ := Option.map_eq_some_iff.mp hrun
  simp only [Prod.mk.injEq] at hobs
  have hr := run_of_execList hw
  exact ⟨w, hr, hobs.1, hobs.2.1, hobs.2.2, (strands_no_bytes hr).2.1⟩

end Busrt
