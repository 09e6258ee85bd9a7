/-
# The map of cursors

`cursors::Map` keeps cursors under the ids it gave them. A call of `next` or
`next_bulk` touches the cursor, which puts its expiration off by its ttl, and
holds the map's lock as a reader for as long as the cursor takes; a cleaner takes
the lock as the writer from time to time and goes through the map, entry by
entry, and removes what is finished or has expired.

A cursor that was added and not taken out is found for as long as it is neither
finished nor left alone for longer than its ttl, and while it is at work it
stays in the map (`kept_while_leased`). When the cleaner is through the map,
whatever was over when it began is gone, and whatever is not over is there
(`swept`).

Nothing is said of the order in which tasks that wait get the lock, nor of the
times at which the cleaner starts.

Key definitions: `CursorMeta`, `CursorMap`, `cursorStep`, `CursorPast`, `CursorInv`.
Key theorems: `CursorInv.step`, `kept_while_leased`, `swept`.
-/
import Busrt.Rpc
import Busrt.System
import Busrt.Lib.RwLock
import Busrt.Lib.SortedMap

namespace Busrt

open Lib

/-! ### Cursors -/

/-- `cursors::Meta`. -/
structure CursorMeta where
  finished : Bool
  expires : ℕ
  ttl : ℕ
  deriving DecidableEq, Repr

namespace CursorMeta

def new (ttl now : ℕ) : CursorMeta := ⟨false, now + ttl, ttl⟩

def isFinished (m : CursorMeta) : Bool := m.finished

def isExpired (m : CursorMeta) (now : ℕ) : Bool := m.expires < now

def markFinished (m : CursorMeta) : CursorMeta := { m with finished := true }

def isAlive (m : CursorMeta) (now : ℕ) : Bool := !m.isFinished && !m.isExpired now

def touch (m : CursorMeta) (now : ℕ) : CursorMeta := { m with expires := now + m.ttl }

end CursorMeta

/-- What a task wants of the map. The cursor to add was made some time ago, and may be
finished already. -/
inductive CursorOp
  | add (u : ℕ) (ttl made : ℕ) (finished : Bool)
  | remove (u : ℕ)
  | next (u : ℕ)
  | nextBulk (u count : ℕ)
  | clean
  deriving DecidableEq, Repr

/-- An access to a cursor: `next`, or `next_bulk` with a count. -/
def CursorOp.access (u : ℕ) : Option ℕ → CursorOp
  | none => .next u
  | some count => .nextBulk u count

/-- What a task is doing: it waits for the lock, or has it as a reader while the cursor `c`
works, or as the writer, with the entries it has not seen yet. -/
inductive CursorPhase
  | idle
  | waiting (op : CursorOp)
  | fetching (u c : ℕ) (bulk : Option ℕ)
  | sweeping (todo : List ℕ)
  deriving DecidableEq, Repr

/-- `RpcError::not_found`. -/
def RpcError.notFound (data : Option (List UInt8)) : RpcError := ⟨-32001, data⟩

/-- The answers of `next` and `next_bulk`. -/
abbrev CursorAnswer := Except RpcError (Option (List UInt8))

/-- The map, the cursors that were ever added, in the order they were, the lock, the tasks,
and what calls for an id returned. -/
structure CursorMap where
  now : ℕ
  data : SortedMap ℕ ℕ
  added : ℕ
  info : ℕ → CursorMeta
  lock : RwLock ℕ
  phase : Tid → CursorPhase
  answers : List (ℕ × CursorAnswer)

inductive CursorLabel
  | elapse (d : ℕ)
  /-- `mark_finished`. -/
  | finish (c : ℕ)
  | start (t : Tid) (op : CursorOp)
  /-- The task gets the lock, and does what it does at once. -/
  | enter (t : Tid)
  /-- `retain` looks at its next entry, or is done. -/
  | check (t : Tid)
  /-- The cursor's `next` returns, or its `next_bulk`. -/
  | leave (t : Tid) (res : CursorAnswer)
  | leaveBulk (t : Tid) (res : Except RpcError (List UInt8))
  /-- The future of a call is dropped, or the cleaner is aborted. -/
  | cancel (t : Tid)

namespace CursorMap

def init : CursorMap := ⟨0, SortedMap.empty, 0, fun _ => .new 0 0, .new, fun _ => .idle, []⟩

def setPhase (s : CursorMap) (t : Tid) (p : CursorPhase) : CursorMap :=
  { s with phase := Function.update s.phase t p }

def setInfo (s : CursorMap) (c : ℕ) (m : CursorMeta) : CursorMap :=
  { s with info := Function.update s.info c m }

/-- `add`, under the lock. -/
def add (s : CursorMap) (u ttl made : ℕ) (finished : Bool) : CursorMap :=
  let m := CursorMeta.new ttl made
  { s.setInfo s.added (if finished then m.markFinished else m) with
    data := s.data.insert u s.added
    added := s.added + 1 }

/-- `next` and `next_bulk`, up to the call of the cursor. -/
def fetch (s : CursorMap) (t : Tid) (u : ℕ) (bulk : Option ℕ) : Option CursorMap :=
  (s.lock.read t).map fun lock =>
    match s.data.get u with
    | some c =>
      { (s.setInfo c ((s.info c).touch s.now)).setPhase t (.fetching u c bulk) with lock := lock }
    | none => { s.setPhase t .idle with answers := s.answers ++ [(u, .error (.notFound none))] }

/-- The call returns. -/
def answer (s : CursorMap) (t : Tid) (u : ℕ) (res : CursorAnswer) : CursorMap :=
  { s.setPhase t .idle with lock := s.lock.unread t, answers := s.answers ++ [(u, res)] }

/-- `retain`, at one entry. -/
def check (s : CursorMap) (u : ℕ) : CursorMap :=
  match s.data.get u with
  | some c => if (s.info c).isAlive s.now then s else { s with data := s.data.erase u }
  | none => s

end CursorMap

open CursorMap

def cursorStep (s : CursorMap) : CursorLabel → Option CursorMap
  | .elapse d => some { s with now := s.now + d }
  | .finish c => some (s.setInfo c (s.info c).markFinished)
  | .start t op => if s.phase t = .idle then some (s.setPhase t (.waiting op)) else none
  | .enter t =>
    match s.phase t with
    | .waiting (.add u ttl made finished) =>
      if s.lock.Free ∧ made ≤ s.now then some ((s.add u ttl made finished).setPhase t .idle)
      else none
    | .waiting (.remove u) =>
      if s.lock.Free then some ({ s with data := s.data.erase u }.setPhase t .idle) else none
    | .waiting (.next u) => s.fetch t u none
    | .waiting (.nextBulk u count) => s.fetch t u (some count)
    | .waiting .clean =>
      (s.lock.write t).map fun lock => { s.setPhase t (.sweeping s.data.keys) with lock := lock }
    | _ => none
  | .check t =>
    match s.phase t with
    | .sweeping (u :: todo) => some ((s.check u).setPhase t (.sweeping todo))
    | .sweeping [] => some { s.setPhase t .idle with lock := s.lock.unwrite }
    | _ => none
  | .leave t res =>
    match s.phase t with
    | .fetching u _ none => some (s.answer t u res)
    | _ => none
  | .leaveBulk t res =>
    match s.phase t with
    | .fetching u _ (some _) => some (s.answer t u (res.map some))
    | _ => none
  | .cancel t =>
    match s.phase t with
    | .waiting _ => some (s.setPhase t .idle)
    | .fetching _ _ _ => some { s.setPhase t .idle with lock := s.lock.unread t }
    | _ => none

def CursorSteps (s : CursorMap) (l : CursorLabel) (s' : CursorMap) : Prop :=
  cursorStep s l = some s'

/-! ### What was -/

/-- The cursor added last under an id, unless it was taken out; when a cursor was made or
accessed last; and the state in which the cleaner got the lock last. -/
structure CursorPast where
  added : ℕ → Option ℕ
  accessed : ℕ → ℕ
  sweep : CursorMap

def CursorPast.init : CursorPast := ⟨fun _ => none, fun _ => 0, .init⟩

/-- The record of a run. -/
def remember (s : CursorMap) (l : CursorLabel) (r : CursorPast) : CursorPast :=
  match l with
  | .enter t =>
    match s.phase t with
    | .waiting (.add u _ made _) =>
      { r with
        added := Function.update r.added u (some s.added)
        accessed := Function.update r.accessed s.added made }
    | .waiting (.remove u) => { r with added := Function.update r.added u none }
    | .waiting (.next u) | .waiting (.nextBulk u _) =>
      match s.data.get u with
      | some c => { r with accessed := Function.update r.accessed c s.now }
      | none => r
    | .waiting .clean => { r with sweep := s }
    | _ => r
  | _ => r

/-! ### What is kept -/

theorem isAlive_eq_false {m : CursorMeta} {now : ℕ} :
    m.isAlive now = false ↔ m.finished = true ∨ m.expires < now := by
  cases hf : m.finished <;> simp [CursorMeta.isAlive, CursorMeta.isFinished, CursorMeta.isExpired,
    hf]

/-- Time has passed, and cursors have finished, and no more. -/
structure Aging (s s' : CursorMap) : Prop where
  now : s.now ≤ s'.now
  expires : ∀ c, (s'.info c).expires = (s.info c).expires
  ttl : ∀ c, (s'.info c).ttl = (s.info c).ttl
  finished : ∀ c, (s.info c).finished = true → (s'.info c).finished = true

/-- What the cleaner has done since it got the lock, in the state `b`, all but `todo`. -/
structure Swept (s b : CursorMap) (todo : List ℕ) : Prop where
  aging : Aging b s
  left : ∀ {u c}, s.data.get u = some c → b.data.get u = some c ∧
    (u ∈ todo ∨ (b.info c).isAlive b.now = true)
  kept : ∀ {u c}, b.data.get u = some c → s.data.get u = some c ∨ (s.info c).isAlive s.now = false

/-- The invariant of the map and of what was. -/
structure CursorInv (s : CursorMap) (r : CursorPast) : Prop where
  fetching : ∀ {t u c b}, s.phase t = .fetching u c b → t ∈ s.lock.readers ∧ s.data.get u = some c
  sweeping : ∀ {t todo}, s.phase t = .sweeping todo → s.lock.writer = some t ∧ Swept s r.sweep todo
  present : ∀ {u c}, s.data.get u = some c → r.added u = some c
  known : ∀ {u c}, r.added u = some c → c < s.added
  unique : ∀ {u u' c}, r.added u = some c → r.added u' = some c → u = u'
  lease : ∀ {u c}, r.added u = some c → (s.info c).expires = r.accessed c + (s.info c).ttl
  kept : ∀ {u c}, r.added u = some c → s.data.get u = some c ∨ (s.info c).isAlive s.now = false

section Step

variable {s s' b : CursorMap} {r : CursorPast} {t : Tid} {todo : List ℕ}

theorem Aging.refl (s : CursorMap) : Aging s s := ⟨le_rfl, fun _ => rfl, fun _ => rfl, fun _ h => h⟩

theorem Aging.trans {s'' : CursorMap} (h : Aging s s') (h' : Aging s' s'') : Aging s s'' where
  now := h.now.trans h'.now
  expires c := (h'.expires c).trans (h.expires c)
  ttl c := (h'.ttl c).trans (h.ttl c)
  finished c hc := h'.finished c (h.finished c hc)

/-- What is over stays over. -/
theorem Aging.over (h : Aging s s') {c : ℕ} (hc : (s.info c).isAlive s.now = false) :
    (s'.info c).isAlive s'.now = false := by
  rw [isAlive_eq_false] at hc ⊢
  rw [h.expires]
  rcases hc with hc | hc
  · exact .inl (h.finished c hc)
  · exact .inr (hc.trans_le h.now)

theorem Swept.mono (h : Swept s b todo) (ha : Aging s s') (hd : s'.data = s.data) :
    Swept s' b todo where
  aging := h.aging.trans ha
  left hu := h.left (hd ▸ hu)
  kept hu := by
    rw [hd]
    exact (h.kept hu).imp_right ha.over

/-- A step that adds nothing and touches nothing. -/
theorem CursorInv.of_aging (h : CursorInv s r) (ha : Aging s s') (hadd : s'.added = s.added)
    (hget : ∀ {u c}, s'.data.get u = some c → s.data.get u = some c)
    (hkeep : ∀ {u c}, s.data.get u = some c → s'.data.get u = some c ∨
      (s'.info c).isAlive s'.now = false)
    (hfetch : ∀ {t u c b}, s'.phase t = .fetching u c b → t ∈ s'.lock.readers ∧
      s'.data.get u = some c)
    (hsweep : ∀ {t todo}, s'.phase t = .sweeping todo → s'.lock.writer = some t ∧
      Swept s' r.sweep todo) :
    CursorInv s' r where
  fetching := hfetch
  sweeping := hsweep
  present hu := h.present (hget hu)
  known hu := hadd ▸ h.known hu
  unique := h.unique
  lease {u c} hu := by rw [ha.expires, ha.ttl, h.lease hu]
  kept hu := by
    rcases h.kept hu with hd | hd
    · exact hkeep hd
    · exact .inr (ha.over hd)

/-- The same, where a task goes on, and the map and the lock's writer stay. -/
theorem CursorInv.goOn (h : CursorInv s r) {p : CursorPhase}
    (hp : s'.phase = Function.update s.phase t p) (ha : Aging s s') (hadd : s'.added = s.added)
    (hdata : s'.data = s.data) (hw : s'.lock.writer = s.lock.writer)
    (hr : ∀ x, x ≠ t → x ∈ s.lock.readers → x ∈ s'.lock.readers) (hf : ∀ u c b, p ≠ .fetching u c b)
    (hs : ∀ todo, p ≠ .sweeping todo) : CursorInv s' r := by
  have hphase : ∀ x, s'.phase x = if x = t then p else s.phase x :=
    fun x => by rw [hp, Function.update_apply]
  refine h.of_aging ha hadd (fun hu => hdata ▸ hu) (fun hu => .inl (hdata ▸ hu))
    (fun {x u c b} hx => ?_) fun {x todo} hx => ?_
  · rw [hphase] at hx
    split at hx
    · exact absurd hx (hf u c b)
    · obtain ⟨hmem, hu⟩ := h.fetching hx
      exact ⟨hr x ‹_› hmem, hdata ▸ hu⟩
  · rw [hphase] at hx
    split at hx
    · exact absurd hx (hs todo)
    · obtain ⟨hwr, hsw⟩ := h.sweeping hx
      exact ⟨hw.trans hwr, hsw.mono ha hdata⟩

/-- Nobody sweeps while somebody reads, and nobody reads while somebody sweeps. -/
theorem CursorInv.quiet (h : CursorInv s r) (hf : s.lock.Free) :
    (∀ {x u c b}, s.phase x ≠ .fetching u c b) ∧ ∀ {x todo}, s.phase x ≠ .sweeping todo := by
  constructor
  · intro x u c b hx
    exact RwLock.not_free_of_mem (h.fetching hx).1 hf
  · intro x todo hx
    have hw := (h.sweeping hx).1
    rw [hf.2] at hw
    cases hw

theorem CursorInv.elapse (h : CursorInv s r) (d : ℕ) : CursorInv { s with now := s.now + d } r := by
  have ha : Aging s { s with now := s.now + d } :=
    ⟨Nat.le_add_right _ _, fun _ => rfl, fun _ => rfl, fun _ hc => hc⟩
  exact h.of_aging ha rfl (fun hu => hu) (fun hu => .inl hu) (fun hx => h.fetching hx) fun hx =>
    ⟨(h.sweeping hx).1, (h.sweeping hx).2.mono ha rfl⟩

theorem CursorInv.finish (h : CursorInv s r) (c : ℕ) :
    CursorInv (s.setInfo c (s.info c).markFinished) r := by
  have ha : Aging s (s.setInfo c (s.info c).markFinished) := by
    refine ⟨le_rfl, fun d => ?_, fun d => ?_, fun d hd => ?_⟩ <;>
      simp only [CursorMap.setInfo, Function.update_apply] <;> split
    · subst_vars; rfl
    · rfl
    · subst_vars; rfl
    · rfl
    · rfl
    · exact hd
  exact h.of_aging ha rfl (fun hu => hu) (fun hu => .inl hu) (fun hx => h.fetching hx) fun hx =>
    ⟨(h.sweeping hx).1, (h.sweeping hx).2.mono ha rfl⟩

theorem setPhase_phase (s : CursorMap) (t x : Tid) (p : CursorPhase) :
    (s.setPhase t p).phase x = if x = t then p else s.phase x := Function.update_apply ..

/-- A cursor is added. -/
theorem CursorInv.add (h : CursorInv s r) (hf : s.lock.Free) (u ttl made : ℕ) (finished : Bool) :
    CursorInv ((s.add u ttl made finished).setPhase t .idle)
      { r with added := Function.update r.added u (some s.added), accessed :=
        Function.update r.accessed s.added made } := by
  obtain ⟨hnofetch, hnosweep⟩ := h.quiet hf
  have hadded : ∀ {u' c}, Function.update r.added u (some s.added) u' = some c →
      (u' = u ∧ c = s.added) ∨ (u' ≠ u ∧ r.added u' = some c ∧ c ≠ s.added) := by
    intro u' c hu
    simp only [Function.update_apply] at hu
    split at hu
    · exact .inl ⟨‹_›, (Option.some.inj hu).symm⟩
    · exact .inr ⟨‹_›, hu, (h.known hu).ne⟩
  have hget : ∀ u', ((s.add u ttl made finished).setPhase t .idle).data.get u' =
      if u' = u then some s.added else s.data.get u' := fun u' => s.data.get_insert u u' s.added
  have hinfo : ∀ {c}, c ≠ s.added →
      ((s.add u ttl made finished).setPhase t .idle).info c = s.info c :=
    fun hc => Function.update_of_ne hc _ _
  refine ⟨fun {x u' c b} hx => ?_, fun {x todo} hx => ?_, fun {u' c} hu => ?_, fun {u' c} hu => ?_,
    fun {u₁ u₂ c} h₁ h₂ => ?_, fun {u' c} hu => ?_, fun {u' c} hu => ?_⟩
  · rw [setPhase_phase] at hx
    split at hx
    · cases hx
    · exact absurd hx hnofetch
  · rw [setPhase_phase] at hx
    split at hx
    · cases hx
    · exact absurd hx hnosweep
  · rw [hget] at hu
    show Function.update r.added u (some s.added) u' = some c
    rw [Function.update_apply]
    split
    · rwa [if_pos ‹_›] at hu
    · rw [if_neg ‹_›] at hu
      exact h.present hu
  · show c < s.added + 1
    rcases hadded hu with ⟨-, rfl⟩ | ⟨-, hu, -⟩
    · exact Nat.lt_succ_self _
    · exact (h.known hu).trans (Nat.lt_succ_self _)
  · rcases hadded h₁ with ⟨rfl, rfl⟩ | ⟨-, h₁, hc⟩
    · rcases hadded h₂ with ⟨rfl, -⟩ | ⟨-, -, hc⟩
      · rfl
      · exact absurd rfl hc
    · rcases hadded h₂ with ⟨-, rfl⟩ | ⟨-, h₂, -⟩
      · exact absurd rfl hc
      · exact h.unique h₁ h₂
  · show _ = Function.update r.accessed s.added made c + _
    rcases hadded hu with ⟨-, rfl⟩ | ⟨-, hu, hc⟩
    · rw [Function.update_self]
      simp only [CursorMap.add, CursorMap.setPhase, CursorMap.setInfo, Function.update_self]
      cases finished <;> rfl
    · rw [Function.update_of_ne hc, hinfo hc]
      exact h.lease hu
  · rcases hadded hu with ⟨rfl, rfl⟩ | ⟨hne, hu, hc⟩
    · left
      rw [hget, if_pos rfl]
    · rw [hget, if_neg hne, hinfo hc]
      exact h.kept hu

/-- A cursor is found, and begins to work. -/
theorem CursorInv.found (h : CursorInv s r) {lock : RwLock ℕ} (hl : s.lock.read t = some lock)
    {u c : ℕ} (bulk : Option ℕ) (hu : s.data.get u = some c) :
    CursorInv { (s.setInfo c ((s.info c).touch s.now)).setPhase t
      (.fetching u c bulk) with lock := lock }
      { r with accessed := Function.update r.accessed c s.now } := by
  obtain ⟨hw, -, hreaders⟩ := RwLock.read_eq hl
  refine ⟨fun {x u' d b} hx => ?_, fun {x todo} hx => ?_, h.present, h.known, h.unique,
    fun {u' d} hd => ?_,
    fun {u' d} hd => ?_⟩
  · rw [hreaders]
    simp only [setPhase_phase] at hx
    split at hx
    · cases hx
      subst_vars
      exact ⟨Finset.mem_insert_self _ _, hu⟩
    · obtain ⟨hmem, hd⟩ := h.fetching hx
      exact ⟨Finset.mem_insert_of_mem hmem, hd⟩
  · simp only [setPhase_phase] at hx
    split at hx
    · cases hx
    · have hwx := (h.sweeping hx).1
      rw [hw] at hwx
      cases hwx
  · show (Function.update s.info c ((s.info c).touch s.now) d).expires =
        Function.update r.accessed c s.now d +
      (Function.update s.info c ((s.info c).touch s.now) d).ttl
    by_cases hdc : d = c
    · subst hdc
      simp only [Function.update_self]
      rfl
    · simp only [Function.update_of_ne hdc]
      exact h.lease hd
  · by_cases hdc : d = c
    · subst hdc
      left
      rw [h.unique hd (h.present hu)]
      exact hu
    · show _ ∨ (Function.update s.info c ((s.info c).touch s.now) d).isAlive s.now = false
      rw [Function.update_of_ne hdc]
      exact h.kept hd

/-- A cursor is taken out. -/
theorem CursorInv.remove (h : CursorInv s r) (hf : s.lock.Free) (u : ℕ) :
    CursorInv ({ s with data := s.data.erase u }.setPhase t .idle)
    { r with added := Function.update r.added u none } := by
  obtain ⟨hnofetch, hnosweep⟩ := h.quiet hf
  have hadded : ∀ {u' c}, Function.update r.added u none u' = some c → u' ≠ u ∧
      r.added u' = some c := by
    intro u' c hu
    simp only [Function.update_apply] at hu
    split at hu
    · cases hu
    · exact ⟨‹_›, hu⟩
  refine ⟨fun {x u' c b} hx => ?_, fun {x todo} hx => ?_, fun {u' c} hu => ?_,
    fun hu => h.known (hadded hu).2,
    fun h₁ h₂ => h.unique (hadded h₁).2 (hadded h₂).2, fun hu => h.lease (hadded hu).2,
      fun {u' c} hu => ?_⟩
  · rw [setPhase_phase] at hx
    split at hx
    · cases hx
    · exact absurd hx hnofetch
  · rw [setPhase_phase] at hx
    split at hx
    · cases hx
    · exact absurd hx hnosweep
  · have hget : (s.data.erase u).get u' = some c := hu
    rw [SortedMap.get_erase] at hget
    show Function.update r.added u none u' = some c
    split at hget
    · cases hget
    · rw [Function.update_of_ne ‹_›]
      exact h.present hget
  · obtain ⟨hne, hu⟩ := hadded hu
    show (s.data.erase u).get u' = some c ∨ _
    rw [SortedMap.get_erase, if_neg hne]
    exact h.kept hu

/-- The cleaner gets the lock. -/
theorem CursorInv.clean (h : CursorInv s r) {lock : RwLock ℕ} (hl : s.lock.write t = some lock) :
    CursorInv { s.setPhase t (.sweeping s.data.keys) with lock := lock } { r with sweep := s } := by
  obtain ⟨hf, hw, -⟩ := RwLock.write_eq hl
  obtain ⟨hnofetch, hnosweep⟩ := h.quiet hf
  refine ⟨fun {x u c b} hx => ?_, fun {x todo} hx => ?_, h.present, h.known, h.unique,
    h.lease, h.kept⟩
  · simp only [setPhase_phase] at hx
    split at hx
    · cases hx
    · exact absurd hx hnofetch
  · simp only [setPhase_phase] at hx
    split at hx
    · cases hx
      subst_vars
      have ha : Aging s { s.setPhase x (.sweeping s.data.keys) with lock := lock } :=
        ⟨le_rfl, fun _ => rfl, fun _ => rfl, fun _ hc => hc⟩
      exact ⟨hw, ha, fun hu => ⟨hu, .inl (SortedMap.mem_keys_of_get hu)⟩, fun hu => .inl hu⟩
    · exact absurd hx hnosweep

/-- What `retain` does at one entry. -/
theorem check_cases (s : CursorMap) (u : ℕ) :
    (s.check u = s ∧ ∀ c, s.data.get u = some c → (s.info c).isAlive s.now = true) ∨
      ∃ c, s.data.get u = some c ∧ (s.info c).isAlive s.now = false ∧
        s.check u = { s with data := s.data.erase u } := by
  unfold CursorMap.check
  cases hu : s.data.get u with
  | none => exact .inl ⟨rfl, fun c hc => by cases hc⟩
  | some c =>
    cases ha : (s.info c).isAlive s.now with
    | true => exact .inl ⟨if_pos ha, fun d hd => Option.some.inj hd ▸ ha⟩
    | false => exact .inr ⟨c, rfl, ha, if_neg (by rw [ha]; exact Bool.false_ne_true)⟩

theorem CursorInv.check (h : CursorInv s r) {u : ℕ} (hp : s.phase t = .sweeping (u :: todo)) :
    CursorInv ((s.check u).setPhase t (.sweeping todo)) r := by
  obtain ⟨hw, hsw⟩ := h.sweeping hp
  have hnofetch : ∀ {x u' c b}, s.phase x ≠ .fetching u' c b := by
    intro x u' c b hx
    rw [RwLock.writer_of_mem (h.fetching hx).1] at hw
    cases hw
  have hother : ∀ {x todo'}, x ≠ t → s.phase x ≠ .sweeping todo' := by
    intro x todo' hne hx
    have hwx := (h.sweeping hx).1
    rw [hw] at hwx
    exact hne (Option.some.inj hwx).symm
  have hstep : (s.check u).phase = s.phase ∧ (s.check u).lock = s.lock ∧
      (s.check u).added = s.added ∧
      Aging s (s.check u) ∧ (∀ {u' c}, (s.check u).data.get u' = some c →
        s.data.get u' = some c ∧ (u' = u → (s.info c).isAlive s.now = true)) ∧
      ∀ {u' c}, s.data.get u' = some c → (s.check u).data.get u' = some c ∨
        (s.info c).isAlive s.now = false := by
    rcases check_cases s u with ⟨hc, halive⟩ | ⟨c, hu, hdead, hc⟩
    · rw [hc]
      exact ⟨rfl, rfl, rfl, .refl s, fun hu => ⟨hu, fun he => halive _ (he ▸ hu)⟩,
        fun hu => .inl hu⟩
    · rw [hc]
      refine ⟨rfl, rfl, rfl, ⟨le_rfl, fun _ => rfl, fun _ => rfl, fun _ hf => hf⟩,
        fun {u' d} hd => ?_, fun {u' d} hd => ?_⟩
      · simp only [SortedMap.get_erase] at hd
        split at hd
        · cases hd
        · exact ⟨hd, fun he => absurd he ‹_›⟩
      · simp only [SortedMap.get_erase]
        split
        · subst_vars
          rw [hu] at hd
          obtain rfl := Option.some.inj hd
          exact .inr hdead
        · exact .inl hd
  obtain ⟨hphase, hlock, hadd, ha, hget, hkeep⟩ := hstep
  have hmeta : ∀ c, (s.check u).info c = s.info c ∧ (s.check u).now = s.now := by
    intro c
    rcases check_cases s u with ⟨hc, -⟩ | ⟨d, -, -, hc⟩ <;> rw [hc] <;> exact ⟨rfl, rfl⟩
  have hage : Aging s ((s.check u).setPhase t (.sweeping todo)) :=
    ⟨ha.now, ha.expires, ha.ttl, ha.finished⟩
  refine h.of_aging hage hadd (fun hu => (hget hu).1) (fun {u' c} hu => ?_)
    (fun {x u' c b} hx => ?_) fun {x todo'} hx => ?_
  · show _ ∨ ((s.check u).info c).isAlive (s.check u).now = false
    rw [(hmeta c).1, (hmeta c).2]
    exact hkeep hu
  · rw [setPhase_phase] at hx
    split at hx
    · cases hx
    · rw [hphase] at hx
      exact absurd hx hnofetch
  · rw [setPhase_phase] at hx
    split at hx
    · cases hx
      subst_vars
      refine ⟨(congrArg RwLock.writer hlock).trans hw, hsw.aging.trans hage, fun {u' c} hu => ?_,
        fun {u' c} hu => ?_⟩
      · obtain ⟨hs, hal⟩ := hget hu
        obtain ⟨hb, hin⟩ := hsw.left hs
        refine ⟨hb, hin.elim (fun hin => ?_) .inr⟩
        rcases List.mem_cons.mp hin with rfl | hin
        · right
          by_contra hdead
          have hover := hsw.aging.over (Bool.eq_false_iff.mpr hdead)
          rw [hal rfl] at hover
          cases hover
        · exact .inl hin
      · show _ ∨ ((s.check u).info c).isAlive (s.check u).now = false
        rw [(hmeta c).1, (hmeta c).2]
        rcases hsw.kept hu with hs | hdead
        · exact hkeep hs
        · exact .inr hdead
    · rw [hphase] at hx
      exact absurd hx (hother ‹_›)

/-- The cleaner is through the map. -/
theorem CursorInv.sweepEnd (h : CursorInv s r) (hp : s.phase t = .sweeping []) :
    CursorInv { s.setPhase t .idle with lock := s.lock.unwrite } r := by
  obtain ⟨hw, -⟩ := h.sweeping hp
  have ha : Aging s { s.setPhase t .idle with lock := s.lock.unwrite } :=
    ⟨le_rfl, fun _ => rfl, fun _ => rfl, fun _ hc => hc⟩
  refine h.of_aging ha rfl (fun hu => hu) (fun hu => .inl hu)
    (fun {x u c b} hx => ?_) fun {x todo} hx => ?_
  · simp only [setPhase_phase] at hx
    split at hx
    · cases hx
    · rw [RwLock.writer_of_mem (h.fetching hx).1] at hw
      cases hw
  · simp only [setPhase_phase] at hx
    split at hx
    · cases hx
    · have hwx := (h.sweeping hx).1
      rw [hw] at hwx
      exact absurd (Option.some.inj hwx).symm ‹_›

/-- The call of a cursor is over. -/
theorem CursorInv.leave (h : CursorInv s r) (answers : List (ℕ × CursorAnswer)) :
    CursorInv { s.setPhase t .idle with lock := s.lock.unread t, answers := answers } r :=
  h.goOn rfl ⟨le_rfl, fun _ => rfl, fun _ => rfl, fun _ hc => hc⟩ rfl rfl rfl
    (fun _ hx hmem => Finset.mem_erase.mpr ⟨hx, hmem⟩)
      (fun _ _ _ he => by cases he) fun _ he => by cases he

theorem CursorInv.fetch (h : CursorInv s r) {u : ℕ} {bulk : Option ℕ}
    (hs : s.fetch t u bulk = some s') :
    CursorInv s' (match s.data.get u with
      | some c => { r with accessed := Function.update r.accessed c s.now }
      | none => r) := by
  obtain ⟨lock, hl, rfl⟩ := Option.map_eq_some_iff.mp hs
  cases hu : s.data.get u with
  | some c => exact h.found hl bulk hu
  | none =>
    exact h.goOn rfl ⟨le_rfl, fun _ => rfl, fun _ => rfl,
      fun _ hc => hc⟩ rfl rfl rfl (fun _ _ hmem => hmem)
      (fun _ _ _ he => by cases he) fun _ he => by cases he

/-- **One step.** -/
theorem CursorInv.step {l : CursorLabel} (h : CursorInv s r) (hs : CursorSteps s l s') :
    CursorInv s' (remember s l r) := by
  unfold CursorSteps at hs
  cases l <;> simp only [cursorStep] at hs <;> simp only [remember]
  case elapse d =>
    obtain rfl := Option.some.inj hs
    exact h.elapse d
  case finish c =>
    obtain rfl := Option.some.inj hs
    exact h.finish c
  case start x op =>
    obtain ⟨-, hs⟩ := Option.ite_none_right_eq_some.mp hs
    obtain rfl := Option.some.inj hs
    exact h.goOn rfl ⟨le_rfl, fun _ => rfl, fun _ => rfl, fun _ hc => hc⟩ rfl rfl rfl
      (fun _ _ hmem => hmem)
      (fun _ _ _ he => by cases he) fun _ he => by cases he
  case enter x =>
    cases hp : s.phase x with
    | waiting op =>
      rw [hp] at hs
      cases op with
      | add u ttl made finished =>
        obtain ⟨⟨hf, -⟩, hs⟩ := Option.ite_none_right_eq_some.mp hs
        obtain rfl := Option.some.inj hs
        exact h.add hf u ttl made finished
      | remove u =>
        obtain ⟨hf, hs⟩ := Option.ite_none_right_eq_some.mp hs
        obtain rfl := Option.some.inj hs
        exact h.remove hf u
      | next u => exact h.fetch hs
      | nextBulk u count => exact h.fetch hs
      | clean =>
        obtain ⟨lock, hl, rfl⟩ := Option.map_eq_some_iff.mp hs
        exact h.clean hl
    | idle | fetching | sweeping => rw [hp] at hs; cases hs
  case check x =>
    cases hp : s.phase x with
    | sweeping todo =>
      rw [hp] at hs
      cases todo with
      | nil =>
        obtain rfl := Option.some.inj hs
        exact h.sweepEnd hp
      | cons u todo =>
        obtain rfl := Option.some.inj hs
        exact h.check hp
    | idle | fetching | waiting => rw [hp] at hs; cases hs
  case leave x res | leaveBulk x res =>
    cases hp : s.phase x with
    | fetching u c bulk =>
      rw [hp] at hs
      cases bulk <;> first
        | cases hs
          done
        | (obtain rfl := Option.some.inj hs
           exact h.leave _)
    | idle | sweeping | waiting => rw [hp] at hs; cases hs
  case cancel x =>
    cases hp : s.phase x with
    | fetching u c bulk =>
      rw [hp] at hs
      obtain rfl := Option.some.inj hs
      exact h.leave _
    | waiting op =>
      rw [hp] at hs
      obtain rfl := Option.some.inj hs
      exact h.goOn rfl ⟨le_rfl, fun _ => rfl, fun _ => rfl, fun _ hc => hc⟩ rfl rfl rfl
        (fun _ _ hmem => hmem)
        (fun _ _ _ he => by cases he) fun _ he => by cases he
    | idle | sweeping => rw [hp] at hs; cases hs

end Step

theorem CursorInv.init : CursorInv .init .init where
  fetching hx := by cases hx
  sweeping hx := by cases hx
  present hu := by cases hu
  known hu := by cases hu
  unique hu := by cases hu
  lease hu := by cases hu
  kept hu := by cases hu

theorem CursorInv.run {ls : List CursorLabel} {s : CursorMap} {r : CursorPast}
    (h : Run (Tracked CursorSteps remember) (.init, .init) ls (s, r)) : CursorInv s r := by
  refine h.inv (I := fun p => CursorInv p.1 p.2) (fun p l q hp hst => ?_) .init
  obtain ⟨hst, hq⟩ := hst
  rw [hq]
  exact CursorInv.step hp hst

/-- **A cursor is kept for as long as it is of use**: the map has nothing but what was added
and not taken out; what it lacks of that has finished, or was left alone for longer than
its ttl; an access before that, by `next` or `next_bulk`, finds the cursor, and puts its
expiration off; and a cursor that works is in the map. -/
theorem kept_while_leased {ls : List CursorLabel} {s : CursorMap} {r : CursorPast}
    (h : Run (Tracked CursorSteps remember) (.init, .init) ls (s, r)) :
    (∀ u c, s.data.get u = some c → r.added u = some c) ∧
    (∀ u c, r.added u = some c →
      s.data.get u = some c ∨ (s.info c).finished = true ∨ r.accessed c + (s.info c).ttl < s.now) ∧
    (∀ t u c bulk s', s.phase t = .waiting (.access u bulk) → r.added u = some c →
      (s.info c).finished = false →
      s.now ≤ r.accessed c + (s.info c).ttl → CursorSteps s (.enter t) s' →
      s'.phase t = .fetching u c bulk ∧ (s'.info c).expires = s.now + (s.info c).ttl) ∧
    ∀ t u c bulk, s.phase t = .fetching u c bulk → s.data.get u = some c := by
  have hI := CursorInv.run h
  have hlost : ∀ u c, r.added u = some c →
      s.data.get u = some c ∨ (s.info c).finished = true ∨
        r.accessed c + (s.info c).ttl < s.now := by
    intro u c hu
    rw [← hI.lease hu, ← isAlive_eq_false]
    exact hI.kept hu
  refine ⟨fun u c => hI.present, hlost, fun t u c bulk s' hp hu hf ht hs => ?_,
    fun t u c bulk hx => (hI.fetching hx).2⟩
  have hget : s.data.get u = some c := (hlost u c hu).resolve_right fun hover => by
    rcases hover with hover | hover
    · rw [hf] at hover
      cases hover
    · exact absurd ht (not_le.mpr hover)
  have hfetch : s.fetch t u bulk = some s' := by
    unfold CursorSteps at hs
    cases bulk with
    | none | some => simpa only [cursorStep, hp, CursorOp.access] using hs
  simp only [CursorMap.fetch, hget] at hfetch
  obtain ⟨lock, -, rfl⟩ := Option.map_eq_some_iff.mp hfetch
  constructor
  · simp only [setPhase_phase, if_true]
  · simp only [CursorMap.setPhase, CursorMap.setInfo, Function.update_self]
    rfl

namespace Forgotten

/-- Two cursors; one is asked for again, and the other one is not. -/
def labels : List CursorLabel :=
  [.start 0 (.add 7 5 0 false), .enter 0, .start 0 (.add 3 5 0 false), .enter 0, .elapse 4,
    .start 1 (.next 7), .enter 1, .elapse 3, .leave 1 (.ok (some [1])), .start 2 .clean, .enter 2,
    .check 2, .check 2]

end Forgotten

open Forgotten in
/-- The cursor that was left alone has expired. -/
theorem kept_while_leased_forgotten :
    ∃ s r, Run (Tracked CursorSteps remember) (.init, .init) Forgotten.labels (s, r) ∧
    s.data.get 7 = some 0 ∧ r.added 3 = some 1 ∧
      ((s.info 1).finished = true ∨ r.accessed 1 + (s.info 1).ttl < s.now) := by
  have hrun : (execList (track cursorStep remember) (.init, .init) labels).map
      (fun p => (p.1.data.get 7, p.1.data.get 3, p.2.added 3)) = some
        (some 0, none, some 1) := by decide
  obtain ⟨⟨s, r⟩, hs, hobs⟩ := Option.map_eq_some_iff.mp hrun
  simp only [Prod.mk.injEq] at hobs
  obtain ⟨h7, h3, hadded⟩ := hobs
  have hr : Run (Tracked CursorSteps remember) (.init, .init) labels (s, r) := run_of_track hs
  refine ⟨s, r, hr, h7, hadded, ((kept_while_leased hr).2.1 3 1 hadded).resolve_left ?_⟩
  rw [h3]
  simp

/-- **A sweep is complete**: when it is through, what was over when it began is gone, and
what is not over is where it was. -/
theorem swept {ls : List CursorLabel} {s : CursorMap} {r : CursorPast}
    (h : Run (Tracked CursorSteps remember) (.init, .init) ls (s, r)) {t : Tid}
    (ht : s.phase t = .sweeping []) :
    (∀ u c, s.data.get u = some c → r.sweep.data.get u = some c ∧
      (r.sweep.info c).isAlive r.sweep.now = true) ∧
    (∀ u c, r.sweep.data.get u = some c → (s.info c).isAlive s.now = true → s.data.get u = some c) ∧
    ∀ x u c bulk, s.phase x ≠ .fetching u c bulk := by
  have hI := CursorInv.run h
  obtain ⟨hw, hsw⟩ := hI.sweeping ht
  refine ⟨fun u c hu => ?_, fun u c hu ha => ?_, fun x u c bulk hx => ?_⟩
  · obtain ⟨hb, hin⟩ := hsw.left hu
    exact ⟨hb, hin.resolve_left List.not_mem_nil⟩
  · rcases hsw.kept hu with hs | hdead
    · exact hs
    · rw [ha] at hdead
      cases hdead
  · rw [RwLock.writer_of_mem (hI.fetching hx).1] at hw
    cases hw

open Forgotten in
/-- The sweep has removed one of the two. -/
theorem swept_forgotten :
    ∃ s r, Run (Tracked CursorSteps remember) (.init, .init) Forgotten.labels (s, r) ∧
    s.phase 2 = .sweeping [] ∧ s.data.get 3 = none ∧
      (r.sweep.info 0).isAlive r.sweep.now = true := by
  have hrun : (execList (track cursorStep remember) (.init, .init) labels).map
      (fun p => (p.1.phase 2, p.1.data.get 7, p.1.data.get 3)) =
        some (.sweeping [], some 0, none) := by decide
  obtain ⟨⟨s, r⟩, hs, hobs⟩ := Option.map_eq_some_iff.mp hrun
  simp only [Prod.mk.injEq] at hobs
  obtain ⟨hphase, h7, h3⟩ := hobs
  have hr : Run (Tracked CursorSteps remember) (.init, .init) labels (s, r) := run_of_track hs
  exact ⟨s, r, hr, hphase, h3, ((swept hr hphase).1 7 0 h7).2⟩

end Busrt
