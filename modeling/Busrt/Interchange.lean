/-
# External and internal clients are interchangeable

`AsyncClient` is there twice: `broker::Client` works on the registry itself,
`ipc::Client` writes a frame that a reader of the broker takes apart and carries
out. Here an operation is done in both ways from the same state, alone and to its
end, and the results are compared.

Frames are compared by what a receiver can tell of them: kind, sender, topic,
realtime flag, and header and payload together. A frame is brought to one form
(`Frame.canon`), and what is done with frames does not depend on the form
(`safeSendFrame_canon`, `fanOut_canon`, `announce_canon`). So both ways leave
the same state, but for the acknowledgement the external one ends with
(`interchangeable`). What the internal one returns is what the
acknowledgement says; without one the caller of the external one is not told.

Key definitions: `BrokerDb.canon`, `Local.perform`, `Remote.perform`, `Ready`, `Interchanged`.
Key theorems: `fanOut_canon`, `fanOut_timeout`, `interchangeable`.
-/
import Busrt.Confirm
import Busrt.Isolation

namespace Busrt

open Lib BrokerDb

variable {S : Submap}

/-! ### One form of a frame -/

/-- What a receiver can tell of a frame. -/
def Frame.canon (f : Frame) : Frame :=
  ⟨.broker, ⟨f.data.kind, f.data.sender, f.data.topic, none, f.data.content, 0, f.data.realtime⟩⟩

def ClientCell.canon (x : ClientCell S) : ClientCell S := { x with tx := x.tx.map Frame.canon }

/-- The broker with all frames in one form. -/
def BrokerDb.canon (db : BrokerDb S) : BrokerDb S := { db with cell := fun d => (db.cell d).canon }

/-- Choices that do not depend on the form of frames. -/
structure Env.Blind (env : Env S) : Prop where
  iter : ∀ db, env.iter db.canon = env.iter db
  drains : ∀ db, env.drains db.canon = env.drains db
  payload : ∀ db, env.payload db.canon = env.payload db

namespace BrokerDb

/-- What is done to a client's cell and does not look at its frames. -/
theorem canon_setCell (db : BrokerDb S) (c : BrokerClient) {f : ClientCell S → ClientCell S}
    (hf : ∀ x, (f x).canon = f x.canon) : (db.setCell c f).canon = db.canon.setCell c f := by
  simp only [canon, setCell, BrokerDb.mk.injEq, true_and, and_true]
  funext d
  simp only [Function.update_apply]
  split
  · exact hf _
  · rfl

theorem canon_setTx (db : BrokerDb S) (c : BrokerClient) {f g : Chan Frame → Chan Frame}
    (hf : ∀ q, (f q).map Frame.canon = g (q.map Frame.canon)) :
    (db.setTx c f).canon = db.canon.setTx c g := by
  simp only [canon, setTx, setCell, BrokerDb.mk.injEq, true_and, and_true]
  funext d
  simp only [Function.update_apply]
  split
  · simp only [ClientCell.canon, hf]
  · rfl

theorem canon_closeTx (db : BrokerDb S) (c : BrokerClient) :
    (db.closeTx c).canon = db.canon.closeTx c :=
  canon_setTx db c fun _ => rfl

theorem canon_unlink (db : BrokerDb S) (c : BrokerClient) :
    (db.unlink c).canon = db.canon.unlink c := by
  have h := canon_setCell db c (f := fun x => { x with registered := false }) fun _ => rfl
  simp only [unlink, setRegistered, ← h]
  rfl

theorem canon_mapSecondaries (db : BrokerDb S) (c : BrokerClient) (f : List String → List String) :
    (db.mapSecondaries c f).canon = db.canon.mapSecondaries c f :=
  canon_setCell db c fun _ => rfl

theorem canon_trigger (db : BrokerDb S) (c : BrokerClient) :
    (db.trigger c).canon = db.canon.trigger c :=
  canon_setCell db c fun _ => rfl

theorem canon_dropEach {drop : BrokerDb S → BrokerClient → BrokerDb S}
    (hdrop : ∀ db c, (drop db c).canon = drop db.canon c) (db : BrokerDb S) (secondary : String) :
    (dropEach drop db secondary).canon = dropEach drop db.canon secondary := by
  unfold dropEach
  rw [show db.canon.lookup secondary = db.lookup secondary from rfl]
  cases db.lookup secondary with
  | none => rfl
  | some sec =>
    simp only [hdrop]
    split
    · rfl
    · rw [canon_trigger]

theorem canon_foldl {drop : BrokerDb S → BrokerClient → BrokerDb S}
    (hdrop : ∀ db c, (drop db c).canon = drop db.canon c) : ∀ (l : List String) (db : BrokerDb S),
    (l.foldl (dropEach drop) db).canon = l.foldl (dropEach drop) db.canon
  | [], _ => rfl
  | s :: l, db => by
    rw [List.foldl_cons, List.foldl_cons, canon_foldl hdrop l, canon_dropEach hdrop]

theorem canon_dropClientN : ∀ (n : ℕ) (db : BrokerDb S) (c : BrokerClient),
    (dropClientN n db c).canon = dropClientN n db.canon c
  | 0, _, _ => rfl
  | n + 1, db, c => by
    have hreg : (db.canon.cell c).registered = (db.cell c).registered := rfl
    have hsec : (db.canon.unlink c).cell c = ((db.unlink c).cell c).canon := by
      rw [← canon_unlink]
      rfl
    simp only [dropClientN, hreg]
    split
    · split
      · rw [canon_mapSecondaries, canon_foldl (canon_dropClientN n), canon_unlink, hsec]
        rfl
      · rw [← canon_unlink, show ((db.unlink c).canon).lookup c.primaryName =
          (db.unlink c).lookup c.primaryName from rfl]
        cases (db.unlink c).lookup c.primaryName with
        | none => rfl
        | some primary => exact canon_mapSecondaries _ _ _
    · rfl

theorem canon_dropClient (db : BrokerDb S) (c : BrokerClient) :
    (db.dropClient c).canon = db.canon.dropClient c :=
  canon_dropClientN 2 db c

/-! ### Delivery does not look at the form -/

section Canon

variable {env : Env S} (henv : env.Blind)
  {ann : BrokerDb S → BrokerEvent → BrokerDb S × Except Stop Unit}
  (hann : ∀ db e, ann db.canon e = ((ann db e).1.canon, (ann db e).2))

include hann in
theorem unregisterClient_canon (db : BrokerDb S) (c : BrokerClient) :
    unregisterClient ann db.canon c =
      ((unregisterClient ann db c).1.canon, (unregisterClient ann db c).2) := by
  have hreg : (db.canon.cell c).registered = (db.cell c).registered := rfl
  have hrpc : (db.dropClient c).canon.brokerRpc = (db.dropClient c).brokerRpc := rfl
  simp only [unregisterClient, ← canon_dropClient, hreg, hrpc]
  split
  · exact hann _ _
  · rfl

include henv hann in
theorem safeSendFrame_canon (timeout : Bool) (db : BrokerDb S) (tgt : BrokerClient) (f : Frame) :
    safeSendFrame ann env timeout db.canon tgt f.canon =
      ((safeSendFrame ann env timeout db tgt f).1.canon,
        (safeSendFrame ann env timeout db tgt f).2) := by
  have htx : (db.canon.cell tgt).tx = (db.cell tgt).tx.map Frame.canon := rfl
  have hpush : (db.setTx tgt (·.push f)).canon = db.canon.setTx tgt (·.push f.canon) :=
    canon_setTx db tgt fun q => (Chan.push_map _ q f).symm
  have hwait : (db.setTx tgt (·.sendWait f)).canon = db.canon.setTx tgt (·.sendWait f.canon) :=
    canon_setTx db tgt fun q => (Chan.sendWait_map _ q f).symm
  simp only [safeSendFrame, htx, Chan.isFull_map, Chan.closed_map, henv.drains,
    unregisterClient_canon hann, ← hpush, ← hwait]
  split
  · split
    · split
      · rfl
      · split <;> rfl
    · rcases unregisterClient ann db tgt with ⟨db', r | r⟩
      · rfl
      · simp only [canon_closeTx]
  · split <;> rfl

include henv hann in
theorem fanOut_canon (timeout : Bool) (f : Frame) : ∀ (subs : List BrokerClient) (db : BrokerDb S),
    fanOut ann env timeout f.canon db.canon subs =
      ((fanOut ann env timeout f db subs).1.canon, (fanOut ann env timeout f db subs).2)
  | [], _ => rfl
  | sub :: subs, db => by
    simp only [fanOut, safeSendFrame_canon henv hann]
    rcases safeSendFrame ann env timeout db sub f with ⟨db', r | r⟩
    · rfl
    · exact fanOut_canon timeout f subs db'

end Canon

theorem announceHeld_canon (db : BrokerDb S) (e : BrokerEvent) :
    announceHeld db.canon e = ((announceHeld db e).1.canon, (announceHeld db e).2) := by
  unfold announceHeld
  rw [show db.canon.core = db.core from rfl]
  cases db.core <;> rfl

/-- An announcement's frame is in the one form already. -/
theorem announce_canon {env : Env S} (henv : env.Blind) (db : BrokerDb S) (e : BrokerEvent) :
    announce env db.canon e = ((announce env db e).1.canon, (announce env db e).2) := by
  unfold announce
  rw [show db.canon.core = db.core from rfl]
  cases db.core with
  | none => rfl
  | some core =>
    have h := fanOut_canon henv announceHeld_canon false
      ⟨.broker, ⟨.publish, some core.name, some e.topic, none, env.payload db e, 0, false⟩⟩
      (env.iter db (db.subscribers e.topic)) db
    simp only [publish, henv.iter, henv.payload]
    exact h

/-! ### Timeouts do not matter -/

/-- The timeout only matters to who waits for a full internal queue in vain. -/
theorem safeSendFrame_timeout {ann : BrokerDb S → BrokerEvent → BrokerDb S × Except Stop Unit}
    {env : Env S} {db : BrokerDb S} {tgt : BrokerClient} {f : Frame}
    (h : tgt.kind = .internal → (db.cell tgt).tx.isFull = true → env.drains db tgt = true) :
    safeSendFrame ann env true db tgt f = safeSendFrame ann env false db tgt f := by
  unfold safeSendFrame
  by_cases hf : (db.cell tgt).tx.isFull = true
  · by_cases hk : tgt.kind = .internal
    · simp only [hf, hk, h hk hf, if_true]
    · simp only [hk, if_false]
  · simp only [hf]
    rfl

/-- No recipient is unregistered with an announcement. -/
def Quiet (db : BrokerDb S) (sel : List BrokerClient) : Prop :=
  db.announces = false ∨ ∀ v ∈ sel, db.loses v = false

/-- Without an announcement a recipient's turn leaves the others' queues alone. -/
theorem safeSendFrame_quiet {env : Env S} {timeout : Bool} {db db' : BrokerDb S} {c : BrokerClient}
    {f : Frame} {sel : List BrokerClient} {r : Except ErrorKind Unit} (hq : db.Quiet (c :: sel))
    (hc : c ∉ sel) (h : safeSendFrame (announce env) env timeout db c f = (db', .ok r)) :
    (∀ d, d ≠ c → (db'.cell d).tx = (db.cell d).tx) ∧ db'.Quiet sel := by
  have hof : (∀ d, d ≠ c → (db'.cell d).tx = (db.cell d).tx) → db'.announces = db.announces →
      (∀ d, (db'.cell d).registered = true → (db.cell d).registered = true) →
      (∀ d, d ≠ c → (db'.cell d).tx = (db.cell d).tx) ∧ db'.Quiet sel := by
    intro htx hann hreg
    refine ⟨htx, hq.imp (fun ha => hann.trans ha) fun hl v hv => ?_⟩
    have hne : v ≠ c := by
      rintro rfl
      exact hc hv
    have hv' := hl v (List.mem_cons_of_mem c hv)
    have hreg' := hreg v
    unfold loses forced at hv' ⊢
    rw [htx v hne]
    cases h1 : (db'.cell v).registered
    · rw [Bool.and_false, Bool.false_and]
    · rw [hreg' h1] at hv'
      exact hv'
  obtain ⟨-, -, r', he⟩ | ⟨-, -, -, -, he⟩ | ⟨hf, ⟨db₁, hu, he⟩ | ⟨db₁, stop, -, he⟩⟩ :=
    safeSendFrame_cases (announce env) env timeout db c f
  · rw [he] at h
    cases h
    refine hof (fun d hd => ?_) rfl fun d hd => ?_
    · rw [setTx_tx, if_neg hd]
    · rwa [setTx_registered] at hd
  · rw [he] at h
    cases h
  · have hquiet : db.announces = false ∨ (c.primary && (db.cell c).registered) = false := by
      refine hq.imp id fun hl => ?_
      have hlc := hl c List.mem_cons_self
      rwa [loses, hf, Bool.true_and, Bool.and_comm] at hlc
    rw [unregister_quiet hquiet] at hu
    cases hu
    rw [he] at h
    cases h
    have hk := Keeps.dropClient db c
    refine hof (fun d hd => ?_) ?_ fun d hd => ?_
    · rw [closeTx, setTx_tx, if_neg hd, hk.tx]
    · exact announces_dropClient db c
    · rw [closeTx, setTx_registered] at hd
      exact hk.registered d hd
  · rw [he] at h
    cases h

theorem fanOut_timeout_quiet {env : Env S} {f : Frame} :
    ∀ {sel : List BrokerClient} {db : BrokerDb S},
    sel.Nodup → db.Quiet sel → (∀ b ∈ sel, b.kind = .internal → (db.cell b).tx.isFull = false) →
    fanOut (announce env) env true f db sel = fanOut (announce env) env false f db sel
  | [], _, _, _, _ => rfl
  | c :: sel, db, hn, hq, hroom => by
    obtain ⟨hc, hn⟩ := List.nodup_cons.mp hn
    have hs : safeSendFrame (announce env) env true db c f =
        safeSendFrame (announce env) env false db c f := by
      refine safeSendFrame_timeout fun hk hf => ?_
      rw [hroom c List.mem_cons_self hk] at hf
      cases hf
    simp only [fanOut, hs]
    rcases hr : safeSendFrame (announce env) env false db c f with ⟨db', stop | r⟩
    · rfl
    · obtain ⟨htx, hq'⟩ := safeSendFrame_quiet hq hc hr
      refine fanOut_timeout_quiet hn hq' fun b hb hk => ?_
      rw [htx b (by rintro rfl; exact hc hb)]
      exact hroom b (List.mem_cons_of_mem c hb) hk

/-- The recipients that are to be waited for: no internal one has a full queue; and if
announcements may fill one on the way, its owner goes on receiving. -/
structure Flows (env : Env S) (db : BrokerDb S) (sel : List BrokerClient) : Prop where
  room : ∀ b ∈ sel, b.kind = .internal → (db.cell b).tx.isFull = false
  drains : ¬ db.Quiet sel → ∀ b ∈ sel, b.kind = .internal → ∀ db', env.drains db' b = true

theorem fanOut_timeout {env : Env S} {f : Frame} {sel : List BrokerClient} {db : BrokerDb S}
    (hn : sel.Nodup) (h : Flows env db sel) :
    fanOut (announce env) env true f db sel = fanOut (announce env) env false f db sel := by
  by_cases hq : db.Quiet sel
  · exact fanOut_timeout_quiet hn hq h.room
  · have hd := h.drains hq
    clear h hn hq
    induction sel generalizing db with
    | nil => rfl
    | cons c sel ih =>
      have hs : safeSendFrame (announce env) env true db c f =
          safeSendFrame (announce env) env false db c f :=
        safeSendFrame_timeout fun hk _ => hd c List.mem_cons_self hk db
      simp only [fanOut, hs]
      rcases safeSendFrame (announce env) env false db c f with ⟨db', stop | r⟩
      · rfl
      · exact ih fun b hb => hd b (List.mem_cons_of_mem c hb)

theorem Flows.perm {env : Env S} {db : BrokerDb S} {sel sel' : List BrokerClient}
    (h : Flows env db sel) (hp : sel'.Perm sel) : Flows env db sel' := by
  refine ⟨fun b hb => h.room b (hp.mem_iff.mp hb),
    fun hq b hb => h.drains (fun hq' => hq ?_) b (hp.mem_iff.mp hb)⟩
  exact hq'.imp id fun hl v hv => hl v (hp.mem_iff.mp hv)

end BrokerDb

/-! ### The internal client -/

namespace Local

/-- The loops of `subscribe_bulk` and `unsubscribe_bulk`. -/
def each (f : S.sub.T → String → S.sub.T × Bool) : S.sub.T → List String → S.sub.T × Bool
  | m, [] => (m, true)
  | m, t :: ts =>
    let (m, ok) := f m t
    if ok then each f m ts else (m, false)

/-- The confirmation, or `Error::not_registered`. -/
def confirm (ok : Bool) : Except Stop (Except ErrorKind Unit) :=
  .ok (if ok then .ok () else .error .notRegistered)

/-- The operations of `broker::Client`: what is done, and what is returned. -/
def perform (env : Env S) (db : BrokerDb S) (c : BrokerClient) : ClientOp →
    BrokerDb S × Except Stop (Except ErrorKind Unit)
  | .ping => (db, .ok (.ok ()))
  | .subscribe t _ =>
    let (m, ok) := S.sub.subscribe db.subscriptions t c
    ({ db with subscriptions := m }, confirm ok)
  | .subscribeBulk ts _ =>
    let (m, ok) := each (fun m t => S.sub.subscribe m t c) db.subscriptions ts
    ({ db with subscriptions := m }, confirm ok)
  | .unsubscribe t _ =>
    let (m, ok) := S.sub.unsubscribe db.subscriptions t c
    ({ db with subscriptions := m }, confirm ok)
  | .unsubscribeBulk ts _ =>
    let (m, ok) := each (fun m t => S.sub.unsubscribe m t c) db.subscriptions ts
    ({ db with subscriptions := m }, confirm ok)
  | .exclude t _ =>
    -- the flag first
    let db := db.setCell c fun x => { x with hasExclusions := true }
    (db.setCell c fun x => { x with exclusions := S.acl.insert x.exclusions t }, confirm true)
  | .unexclude t _ =>
    (db.setCell c fun x =>
      let exclusions := S.acl.remove x.exclusions t
      { x with
        exclusions := exclusions
        hasExclusions := if S.acl.isEmpty exclusions then false else x.hasExclusions },
      confirm true)
  | .excludeBulk ts _ =>
    let db := db.setCell c fun x =>
      { x with hasExclusions := if ts.isEmpty then x.hasExclusions else true }
    (db.setCell c fun x => { x with exclusions := ts.foldl S.acl.insert x.exclusions },
      confirm true)
  | .unexcludeBulk ts _ =>
    (db.setCell c fun x =>
      let exclusions := ts.foldl S.acl.remove x.exclusions
      { x with
        exclusions := exclusions
        hasExclusions := if S.acl.isEmpty exclusions then false else x.hasExclusions },
      confirm true)
  | .send target payload qos =>
    BrokerDb.send (announce env) env false db c .broker none payload 0 qos.isRealtime target
  | .zcSend target header payload qos =>
    BrokerDb.send (announce env) env false db c .broker (some header) payload 0
      qos.isRealtime target
  | .sendBroadcast target payload qos =>
    let (db, r) := BrokerDb.sendBroadcast (announce env) env false db c .broker none payload 0
      qos.isRealtime target
    (db, r.map fun _ => .ok ())
  | .publish topic payload qos =>
    let (db, r) :=
      BrokerDb.publish (announce env) env false db c .broker none payload 0 qos.isRealtime topic
    (db, r.map fun _ => .ok ())
  | .publishFor topic receiver payload qos =>
    let (db, r) :=
      BrokerDb.publishFor (announce env) env false db c .broker none payload 0
        qos.isRealtime topic receiver
    (db, r.map fun _ => .ok ())

end Local

/-! ### The external client -/

namespace Remote

/-- `send_ack!`: the reader waits for the writer while the queue is full. -/
def sendAck (env : Env S) (db : BrokerDb S) (c : BrokerClient) (frame : Frame) :
    BrokerDb S × Except Stop Unit :=
  let tx := (db.cell c).tx
  if tx.closed then (db, .error (.exit .eof))
  else if tx.isFull then
    if env.drains db c then (db.setTx c (·.sendWait frame), .ok ()) else (db, .error .hang)
  else (db.setTx c (·.push frame), .ok ())

/-- One act after the other, to the first that stops. -/
def sequence (f : BrokerDb S → Act → BrokerDb S × Except Stop Unit) :
    BrokerDb S → List Act → BrokerDb S × Except Stop Unit
  | db, [] => (db, .ok ())
  | db, a :: acts =>
    match f db a with
    | (db, .ok ()) => sequence f db acts
    | (db, .error stop) => (db, .error stop)

/-- An act that leads to no other, done to its end. -/
def single (env : Env S) (db : BrokerDb S) : Act → BrokerDb S × Except Stop Unit
  | .ack c n opId code realtime => sendAck env db c (ackFrame c n opId code realtime)
  | .fan op frame timeout =>
    fanOut (announce env) env timeout frame db (env.iter db (db.recipients op))
  | a =>
    match execDb .plain db a with
    | some (db, .acts _) => (db, .ok ())
    | some (db, .exit e) => (db, .error (.exit e))
    | none => (db, .error .hang)

/-- An act of a reader, done to its end. -/
def act (env : Env S) (db : BrokerDb S) : Act → BrokerDb S × Except Stop Unit
  | .send target frame timeout reply =>
    match db.lookup target with
    | some tgt =>
      match safeSendFrame (announce env) env timeout db tgt frame with
      | (db, .ok res) => sequence (single env) db (reply.acts res)
      | (db, .error stop) => (db, .error stop)
    | none => sequence (single env) db (reply.acts (.error .notRegistered))
  | a => single env db a

/-- The reader's way through the frame `r`, the client's `n`th, without access rules. -/
def perform (env : Env S) (db : BrokerDb S) (c : BrokerClient) (n : ℕ) (r : Request) :
    BrokerDb S × Except Stop Unit :=
  sequence (act env) db (plan (S := S) none c n r)

end Remote

/-! ### Both ways -/

/-- The selected recipients of an operation. -/
def ClientOp.selected (db : BrokerDb S) : ClientOp → List BrokerClient
  | .send target .. | .zcSend target .. => (db.lookup target).toList
  | .sendBroadcast target .. => db.recipients (.broadcast target)
  | .publish topic .. => db.recipients (.publish topic)
  | .publishFor topic receiver .. => db.recipients (.publishFor topic receiver)
  | _ => []

section Both

variable {env : Env S} {db : BrokerDb S} {c : BrokerClient} {n : ℕ}

/-- Two frames of the same form are delivered alike, with a timeout or without. -/
theorem safeSendFrame_like (henv : env.Blind) {tgt : BrokerClient} {f g : Frame}
    (hfg : f.canon = g.canon)
    (ht : tgt.kind = .internal → (db.cell tgt).tx.isFull = true → env.drains db tgt = true) :
    (safeSendFrame (announce env) env true db tgt f).1.canon =
        (safeSendFrame (announce env) env false db tgt g).1.canon ∧
      (safeSendFrame (announce env) env true db tgt f).2 =
        (safeSendFrame (announce env) env false db tgt g).2 := by
  have hf := safeSendFrame_canon henv (announce_canon henv) false db tgt f
  have hg := safeSendFrame_canon henv (announce_canon henv) false db tgt g
  rw [hfg, hg] at hf
  rw [safeSendFrame_timeout ht]
  exact ⟨(congrArg Prod.fst hf).symm, (congrArg Prod.snd hf).symm⟩

theorem fanOut_like (henv : env.Blind) {f g : Frame} (hfg : f.canon = g.canon) {op : FanOp}
    (hflows : Flows env db (db.recipients op)) :
    (fanOut (announce env) env true f db (env.iter db (db.recipients op))).1.canon =
        (fanOut (announce env) env false g db (env.iter db (db.recipients op))).1.canon ∧
      (fanOut (announce env) env true f db (env.iter db (db.recipients op))).2 =
        (fanOut (announce env) env false g db (env.iter db (db.recipients op))).2 := by
  have hperm := env.iter_perm db (db.recipients op)
  have hf := fanOut_canon henv (announce_canon henv) false f (env.iter db (db.recipients op)) db
  have hg := fanOut_canon henv (announce_canon henv) false g (env.iter db (db.recipients op)) db
  rw [hfg, hg] at hf
  rw [fanOut_timeout (hperm.nodup_iff.mpr (nodup_recipients db op)) (hflows.perm hperm)]
  exact ⟨(congrArg Prod.fst hf).symm, (congrArg Prod.snd hf).symm⟩

/-- What the external way does: the same up to the form of frames, and then the
acknowledgement. -/
def Mirrors (env : Env S) (loc : BrokerDb S × Except Stop (Except ErrorKind Unit))
    (rem : BrokerDb S × Except Stop Unit) (acks : Except ErrorKind Unit → List Act) : Prop :=
  ∃ db', db'.canon = loc.1.canon ∧ rem = match loc.2 with
    | .ok res => Remote.sequence (Remote.single env) db' (acks res)
    | .error stop => (db', .error stop)

/-- An act that is no `send!`, and the acknowledgement. -/
theorem sequence_acks (a : Act) (qos : QoS) (opId : List UInt8) (code : UInt8)
    (ha : ∀ db : BrokerDb S, Remote.act env db a = Remote.single env db a) :
    Remote.sequence (Remote.act env) db (a :: ackIf c n opId qos code) =
      match Remote.single env db a with
      | (db', .ok ()) => Remote.sequence (Remote.single env) db' (ackIf c n opId qos code)
      | (db', .error stop) => (db', .error stop) := by
  rw [Remote.sequence, ha]
  rcases Remote.single env db a with ⟨db', stop | -⟩
  · rfl
  · unfold ackIf
    cases qos.needsAck <;> rfl

/-- The result of `send!` becomes the code. -/
theorem mirrors_send (henv : env.Blind) {target : String} {f g : Frame} (hfg : f.canon = g.canon)
    {qos : QoS} {opId : List UInt8} {loc : BrokerDb S × Except Stop (Except ErrorKind Unit)}
    (hloc : loc = match db.lookup target with
      | some tgt =>
        safeSendFrame (announce env) env false db tgt g | none => (db, .ok (.error .notRegistered)))
    (hflows : Flows env db (db.lookup target).toList) :
    Mirrors env loc (Remote.sequence (Remote.act env) db [.send target f true (.ack c n opId qos)])
      fun res => ackIf c n opId qos (codeOf res) := by
  subst hloc
  rcases hl : db.lookup target with _ | tgt
  · refine ⟨db, rfl, ?_⟩
    simp only [Remote.sequence, Remote.act, hl, acts_ack]
    rcases Remote.sequence (Remote.single env) db
      (ackIf c n opId qos (codeOf (.error .notRegistered)))
      with ⟨db', _ | _⟩ <;> rfl
  · rw [hl] at hflows
    have ht : tgt.kind = .internal → (db.cell tgt).tx.isFull = true → env.drains db tgt = true := by
      intro hk hf
      rw [hflows.room tgt (by simp) hk] at hf
      cases hf
    obtain ⟨hdb, hres⟩ := safeSendFrame_like henv hfg ht
    refine ⟨_, hdb, ?_⟩
    simp only [Remote.sequence, Remote.act, hl, ← hres]
    rcases safeSendFrame (announce env) env true db tgt f with ⟨db', stop | res⟩
    · rfl
    · simp only [acts_ack]
      rcases Remote.sequence (Remote.single env) db' (ackIf c n opId qos (codeOf res)) with
        ⟨db'', _ | _⟩ <;> rfl

theorem mirrors_fan (henv : env.Blind) {op : FanOp} {f g : Frame} (hfg : f.canon = g.canon)
    {qos : QoS} {opId : List UInt8} {loc : BrokerDb S × Except Stop (Except ErrorKind Unit)}
    (hloc : loc = ((fanOut (announce env) env false g db (env.iter db (db.recipients op))).1,
      (fanOut (announce env) env false g db (env.iter db (db.recipients op))).2.map fun _ =>
        .ok ()))
    (hflows : Flows env db (db.recipients op)) :
    Mirrors env loc (Remote.sequence (Remote.act env) db
      (.fan op f true :: ackIf c n opId qos RESPONSE_OK))
      fun res => ackIf c n opId qos (codeOf res) := by
  subst hloc
  obtain ⟨hdb, hres⟩ := fanOut_like henv hfg hflows
  refine ⟨_, hdb, ?_⟩
  rw [sequence_acks _ _ _ _ fun _ => rfl]
  simp only [Remote.single, ← hres]
  rcases fanOut (announce env) env true f db (env.iter db (db.recipients op)) with
    ⟨db', stop | -⟩ <;> rfl

/-- An act on what the client gets, and the acknowledgement. -/
theorem mirrors_topics {a : Act} {db' : BrokerDb S} {qos : QoS} {opId : List UInt8}
    (ha : ∀ db : BrokerDb S, Remote.act env db a = Remote.single env db a)
    (hact : Remote.single env db a = (db', .ok ())) :
    Mirrors env (db', .ok (.ok ()))
      (Remote.sequence (Remote.act env) db (a :: ackIf c n opId qos RESPONSE_OK))
      fun res => ackIf c n opId qos (codeOf res) := by
  refine ⟨db', rfl, ?_⟩
  rw [sequence_acks _ _ _ _ ha, hact]
  rfl

/-- A registered client may subscribe. -/
theorem subscribes (hI : Inv db) (hc : db.lookup c.name = some c) (t : String) :
    (S.sub.subscribe db.subscriptions t c).2 = true ∧
      (S.sub.unsubscribe db.subscriptions t c).2 = true := by
  have hheld : (S.sub.held db.subscriptions (S.key c)).isSome = true := by
    rw [Submap.key, hI.subscriptions_iff, hc]
    rfl
  exact ⟨(S.sub.subscribe_ok ..).trans hheld, (S.sub.unsubscribe_ok ..).trans hheld⟩

/-- The plan of a frame with a target. -/
theorem plan_target {t : String} (ht : NulFree t) (p : List UInt8) (op : FrameOp) (qos : QoS)
    {opId : List UInt8} (hid : opId.length = 4) :
    (op = .message → plan (S := S) none c n ⟨opId, op, qos, utf8 t ++ 0 :: p, hid⟩ =
      [.send t ⟨.op c n, ⟨.message, some c.name, none, none, utf8 t ++ 0 :: p, (utf8 t).length + 1,
        qos.isRealtime⟩⟩ true
        (.ack c n opId qos)]) ∧
    (op = .broadcast → plan (S := S) none c n ⟨opId, op, qos, utf8 t ++ 0 :: p, hid⟩ =
      .fan (.broadcast t)
        ⟨.op c n, ⟨.broadcast, some c.name, none, none, utf8 t ++ 0 :: p, (utf8 t).length + 1,
          qos.isRealtime⟩⟩ true ::
        ackIf c n opId qos RESPONSE_OK) ∧
    (op = .publishTopic → plan (S := S) none c n ⟨opId, op, qos, utf8 t ++ 0 :: p, hid⟩ =
      .fan (.publish t)
        ⟨.op c n, ⟨.publish, some c.name, some t, none, utf8 t ++ 0 :: p, (utf8 t).length + 1,
          qos.isRealtime⟩⟩ true ::
        ackIf c n opId qos RESPONSE_OK) := by
  refine ⟨?_, ?_, ?_⟩ <;>
  · rintro rfl
    simp only [plan, targetOf_append ht, guarded, allowed, if_true]
    rfl

/-- The content of a frame that a reader made is what follows the target. -/
theorem content_target (t p : List UInt8) (kind : FrameKind) (sender topic : Option String)
    (realtime : Bool) :
    FrameData.content ⟨kind, sender, topic, none, t ++ 0 :: p, t.length + 1, realtime⟩ = p := by
  rw [FrameData.content, FrameData.payload]
  exact drop_target t p

/-- Both ways do the same, for every operation. -/
theorem mirrors_perform (henv : env.Blind) (hI : Inv db) (hc : db.lookup c.name = some c)
    (id : UInt32) {o : ClientOp} (hp : o ≠ .ping) (ho : o.Encodable {})
    (hflows : Flows env db (o.selected db)) :
    Mirrors env (Local.perform env db c o) (Remote.perform env db c n (o.request id))
      fun res => ackIf c n (toLe 4 id.toNat) o.qos (codeOf res) := by
  have hfree := ho.nulFree
  have hone : ∀ {t : String}, o.texts = [t] → topicsOf (splitZeros (utf8 t)) = ([t], true) :=
    fun h => topicsOf_one (hfree _ (by rw [h]; exact List.mem_singleton.mpr rfl))
  unfold Remote.perform
  cases o with
  | ping => exact absurd rfl hp
  | subscribeBulk ts q | unsubscribeBulk ts q | excludeBulk ts q | unexcludeBulk ts q =>
    cases ho.single
  | subscribe t q =>
    have hplan : plan (S := S) none c n ((ClientOp.subscribe t q).request id) =
        .subscribe c [t] :: ackIf c n (toLe 4 id.toNat) q RESPONSE_OK := by
      simp [plan, ClientOp.request, ClientOp.op, ClientOp.body, ClientOp.qos, hone rfl, allowed,
        finishTopics]
    have hloc : Local.perform env db c (.subscribe t q) =
        ({ db with subscriptions := (S.sub.subscribe db.subscriptions t c).1 }, .ok (.ok ())) := by
      simp only [Local.perform, Local.confirm, (subscribes hI hc t).1, if_true]
    rw [hplan, hloc]
    exact mirrors_topics (fun _ => rfl) rfl
  | unsubscribe t q =>
    have hplan : plan (S := S) none c n ((ClientOp.unsubscribe t q).request id) =
        .unsubscribe c [t] :: ackIf c n (toLe 4 id.toNat) q RESPONSE_OK := by
      simp [plan, ClientOp.request, ClientOp.op, ClientOp.body, ClientOp.qos, hone rfl,
        finishTopics]
    have hloc : Local.perform env db c (.unsubscribe t q) =
        ({ db with subscriptions :=
          (S.sub.unsubscribe db.subscriptions t c).1 }, .ok (.ok ())) := by
      simp only [Local.perform, Local.confirm, (subscribes hI hc t).2, if_true]
    rw [hplan, hloc]
    exact mirrors_topics (fun _ => rfl) rfl
  | exclude t q =>
    have hplan : plan (S := S) none c n ((ClientOp.exclude t q).request id) =
        .exclude c [t] true :: ackIf c n (toLe 4 id.toNat) q RESPONSE_OK := by
      simp [plan, ClientOp.request, ClientOp.op, ClientOp.body, ClientOp.qos, hone rfl,
        finishTopics]
    have hloc : Local.perform env db c (.exclude t q) =
        (db.setCell c fun x => { x with
          exclusions := S.acl.insert x.exclusions t, hasExclusions := true }, .ok (.ok ())) := by
      simp [Local.perform, Local.confirm, setCell]
    rw [hplan, hloc]
    exact mirrors_topics (fun _ => rfl) rfl
  | unexclude t q =>
    have hplan : plan (S := S) none c n ((ClientOp.unexclude t q).request id) =
        .unexclude c [t] true :: ackIf c n (toLe 4 id.toNat) q RESPONSE_OK := by
      simp [plan, ClientOp.request, ClientOp.op, ClientOp.body, ClientOp.qos, hone rfl,
        finishTopics]
    rw [hplan]
    exact mirrors_topics (fun _ => rfl) rfl
  | send t p q =>
    have ht : NulFree t := hfree t (List.mem_singleton.mpr rfl)
    rw [show plan (S := S) none c n ((ClientOp.send t p q).request id) =
      _ from (plan_target ht p .message q rfl).1 rfl]
    refine mirrors_send henv ?_ rfl hflows
    simp only [Frame.canon, content_target]
    rfl
  | zcSend t h p q =>
    have ht : NulFree t := hfree t (List.mem_singleton.mpr rfl)
    rw [show plan (S := S) none c n ((ClientOp.zcSend t h p q).request id) = _ from
      (plan_target ht (h ++ p) .message q rfl).1 rfl]
    refine mirrors_send henv ?_ rfl hflows
    simp only [Frame.canon, content_target]
    rfl
  | sendBroadcast t p q =>
    have ht : NulFree t := hfree t (List.mem_singleton.mpr rfl)
    rw [show plan (S := S) none c n ((ClientOp.sendBroadcast t p q).request id) = _ from
      (plan_target ht p .broadcast q rfl).2.1 rfl]
    refine mirrors_fan henv ?_ rfl hflows
    simp only [Frame.canon, content_target]
    rfl
  | publish t p q =>
    have ht : NulFree t := hfree t (List.mem_singleton.mpr rfl)
    rw [show plan (S := S) none c n ((ClientOp.publish t p q).request id) = _ from
      (plan_target ht p .publishTopic q rfl).2.2 rfl]
    refine mirrors_fan henv ?_ rfl hflows
    simp only [Frame.canon, content_target]
    rfl
  | publishFor t r p q =>
    have ht : NulFree t := hfree t List.mem_cons_self
    have hr : NulFree r := hfree r (List.mem_cons_of_mem _ (List.mem_singleton.mpr rfl))
    have hplan : plan (S := S) none c n ((ClientOp.publishFor t r p q).request id) =
        .fan (.publishFor t r) ⟨.op c n,
          ⟨.publish, some c.name, some t, none, utf8 t ++ 0 :: (utf8 r ++ 0 :: p),
          (utf8 t).length + 1 + ((utf8 r).length + 1), q.isRealtime⟩⟩ true ::
          ackIf c n (toLe 4 id.toNat) q RESPONSE_OK := by
      simp only [plan, ClientOp.request, ClientOp.op, ClientOp.body, targetOf_append ht,
        drop_target, targetOf_append hr, guarded, allowed, if_true]
      rfl
    rw [hplan]
    refine mirrors_fan henv ?_ rfl hflows
    have hdrop : (utf8 t ++ 0 :: (utf8 r ++ 0 :: p)).drop
        ((utf8 t).length + 1 + ((utf8 r).length + 1)) = p := by
      rw [← List.drop_drop, drop_target, drop_target]
    simp only [Frame.canon, FrameData.content, FrameData.payload, hdrop]
    rfl

end Both

/-! ### Interchangeable -/

/-- An acknowledgement finds its way: the queue is open, and the writer goes on. -/
theorem sendAck_open {env : Env S} {db : BrokerDb S} {c : BrokerClient} (f : Frame)
    (ho : (db.cell c).tx.closed = false) (hd : env.drains db c = true) :
    Remote.sendAck env db c f = (db.setTx c (·.sendWait f), .ok ()) := by
  unfold Remote.sendAck
  rw [if_neg (by rw [ho]; exact Bool.false_ne_true), if_pos hd]
  split
  · rfl
  · rename_i hf
    simp only [setTx, setCell, Chan.sendWait, if_neg hf]

/-- The state in which an operation is done in both ways: of the recipients that are
waited for (`flows`), and, if an acknowledgement is asked for, of the client itself: it is
there to the end, and its connection's writer goes on. -/
structure Ready (env : Env S) (db : BrokerDb S) (c : BrokerClient) (o : ClientOp) : Prop where
  flows : Flows env db (o.selected db)
  connected : o.qos.needsAck = true → ((Local.perform env db c o).1.cell c).tx.closed = false
  writer : o.qos.needsAck = true → ∀ db', env.drains db' c = true

/-- The same registry, the same subscriptions, exclusions and flags, and the same frames in
the same queues, but for `acks` in the client's own. -/
structure Interchanged (loc rem : BrokerDb S) (c : BrokerClient) (acks : List Frame) : Prop where
  clients : rem.clients = loc.clients
  broadcasts : rem.broadcasts = loc.broadcasts
  subscriptions : rem.subscriptions = loc.subscriptions
  registered : ∀ d, (rem.cell d).registered = (loc.cell d).registered
  secondaries : ∀ d, (rem.cell d).secondaries = (loc.cell d).secondaries
  exclusions : ∀ d, (rem.cell d).exclusions = (loc.cell d).exclusions
  hasExclusions : ∀ d, (rem.cell d).hasExclusions = (loc.cell d).hasExclusions
  queues : ∀ d, (rem.cell d).tx.put.map Frame.canon =
    (loc.cell d).tx.put.map Frame.canon ++ if d = c then acks.map Frame.canon else []

theorem interchanged_of_canon {loc rem : BrokerDb S} (h : rem.canon = loc.canon)
    (c : BrokerClient) :
    Interchanged loc rem c [] := by
  have hcell : ∀ d, (rem.cell d).canon = (loc.cell d).canon :=
    fun d => congrFun (congrArg BrokerDb.cell h) d
  refine ⟨(congrArg BrokerDb.clients h :), (congrArg BrokerDb.broadcasts h :),
    (congrArg BrokerDb.subscriptions h :),
    fun d => (congrArg ClientCell.registered (hcell d) :),
      fun d => (congrArg ClientCell.secondaries (hcell d) :),
    fun d => (congrArg ClientCell.exclusions (hcell d) :),
      fun d => (congrArg ClientCell.hasExclusions (hcell d) :),
    fun d => ?_⟩
  rw [List.map_nil, ite_self, List.append_nil]
  exact congrArg (fun x => x.tx.put) (hcell d)

theorem Interchanged.ack {loc rem : BrokerDb S} {c : BrokerClient} (h : Interchanged loc rem c [])
    (f : Frame) :
    Interchanged loc (rem.setTx c (·.sendWait f)) c [f] := by
  have hcell : ∀ d, (rem.setTx c (·.sendWait f)).cell d =
      if d = c then { rem.cell c with tx := (rem.cell c).tx.sendWait f } else rem.cell d :=
    fun d => setCell_cell ..
  refine ⟨h.clients, h.broadcasts, h.subscriptions, fun d => ?_, fun d => ?_, fun d => ?_,
    fun d => ?_, fun d => ?_⟩
  · rw [setTx_registered, h.registered]
  · rw [setTx_secondaries, h.secondaries]
  · rw [hcell]
    split
    · rename_i hd
      rw [hd]
      exact h.exclusions c
    · exact h.exclusions d
  · rw [hcell]
    split
    · rename_i hd
      rw [hd]
      exact h.hasExclusions c
    · exact h.hasExclusions d
  · have hq := h.queues d
    rw [List.map_nil, ite_self, List.append_nil] at hq
    rw [setTx_tx]
    split
    · rename_i hd
      rw [hd] at hq ⊢
      rw [Chan.put_sendWait, List.map_append, hq]
    · rw [hq, List.append_nil]

/-- The acknowledgement of an operation with its result. -/
def ClientOp.acks (c : BrokerClient) (n : ℕ) (id : UInt32) (o : ClientOp)
    (res : Except ErrorKind Unit) : List Frame :=
  if o.qos.needsAck then [ackFrame c n (toLe 4 id.toNat) (codeOf res) o.qos.isRealtime] else []

/-- What an operation of `ipc::Client` tells its caller of success once its frame is
written: what the acknowledgement says, or that all is well if none is asked for. -/
def Remote.reported (o : ClientOp) (codes : List UInt8) : Option Bool :=
  if o.qos.needsAck then codes.head?.map (· == RESPONSE_OK) else some true

theorem reported_acks (c : BrokerClient) (n : ℕ) (id : UInt32) (o : ClientOp)
    (res : Except ErrorKind Unit) :
    Remote.reported o (ackCodes c n (o.acks c n id res)) =
      some (if o.qos.needsAck then res.isOk else true) := by
  unfold Remote.reported
  split
  swap
  · rfl
  rename_i hq
  have hcode : (codeOf res == RESPONSE_OK) = res.isOk := by
    rcases res with e | -
    · exact beq_eq_false_iff_ne.mpr (ErrorKind.code_ne_ok e)
    · rfl
  have hbuf := buf_ackFrame c n (length_toLe 4 id.toNat) (codeOf res) o.qos.isRealtime
  rw [ClientOp.acks, if_pos hq, ← List.nil_append [_], ackCodes_append, hbuf]
  simp only [ackFrame, if_true]
  exact congrArg some hcode

/-- **External and internal clients are interchangeable**: the broker reads from what
`ipc::Client` writes for an operation a request, and what it does for it is what
`broker::Client` does: the same state up to the form of frames. If the operation comes to
its end and asks for an acknowledgement, there is one, and it reports success exactly if
the internal one does, and else the kind of its error; without one success is reported. -/
theorem interchangeable (env : Env S) (henv : env.Blind) (db : BrokerDb S) (hI : Inv db)
    (c : BrokerClient) (hc : db.lookup c.name = some c) (o : ClientOp) (hp : o ≠ .ping)
    (ho : o.Encodable {}) (hready : Ready env db c o) (id : UInt32) (n : ℕ) :
    getRequest {} (Ipc.bytes id o) = .item (some (o.request id)) [] ∧
    match (Local.perform env db c o).2 with
    | .ok res => (Remote.perform env db c n (o.request id)).2 = .ok () ∧
        Remote.reported o (ackCodes c n (o.acks c n id res)) =
          some (if o.qos.needsAck then res.isOk else true) ∧
        Interchanged (Local.perform env db c o).1 (Remote.perform env db c n (o.request id)).1 c
          (o.acks c n id res)
    | .error stop => (Remote.perform env db c n (o.request id)).2 = .error stop ∧
        Interchanged (Local.perform env db c o).1
          (Remote.perform env db c n (o.request id)).1 c [] := by
  constructor
  · have hop : o.op ≠ .nop := by
      cases o with
      | ping => exact absurd rfl hp
      | _ => exact nofun
    have hget := getRequest_frame (l := {}) (fun _ => rfl) id o.qos hop ho.fits []
    rw [List.append_nil] at hget
    rw [bytes_frame id hp]
    exact hget
  · obtain ⟨db', hdb, hrem⟩ := mirrors_perform (n := n) henv hI hc id hp ho hready.flows
    have hsame := interchanged_of_canon hdb c
    rw [hrem]
    rcases hloc : (Local.perform env db c o).2 with stop | res
    · exact ⟨rfl, hsame⟩
    · refine and_left_comm.mpr ⟨reported_acks c n id o res, ?_⟩
      simp only [ackIf, ClientOp.acks]
      split
      · rename_i hq
        have hopen : (db'.cell c).tx.closed = false := by
          have hcell : (db'.cell c).canon = ((Local.perform env db c o).1.cell c).canon :=
            congrFun (congrArg BrokerDb.cell hdb) c
          exact (congrArg (fun x => x.tx.closed) hcell).trans (hready.connected hq)
        simp only [Remote.sequence, Remote.single, sendAck_open _ hopen (hready.writer hq db')]
        exact ⟨trivial, hsame.ack _⟩
      · exact ⟨rfl, hsame⟩

namespace Ways

/-- An environment in which everybody makes room. -/
def env : Env reference := ⟨fun _ l => l, fun _ l => .refl l, fun _ _ => true, fun _ _ => []⟩

theorem blind_env : env.Blind := ⟨fun _ => rfl, fun _ => rfl, fun _ => rfl⟩

/-- An external client and an internal one. -/
def db : BrokerDb reference :=
  Op.run (BrokerDb.empty reference false false 1) [.register "w" .tcp none none,
    .register "i" .internal none none]

def client : BrokerClient := ⟨0, "w", .tcp, none, none⟩

/-- A call of the RPC layer. -/
def call : ClientOp := .zcSend "i" [0x01, 1, 0, 0, 0, 102, 0] [5] .processed

/-- A message to nobody. -/
def lost : ClientOp := .send "x" [5] .no

end Ways

open Ways in
theorem interchangeable_call : (Local.perform env db client call).2 = .ok (.ok ()) ∧
    (Remote.perform env db client 0 (call.request 1)).2 = .ok () ∧
    Interchanged (Local.perform env db client call).1
      (Remote.perform env db client 0 (call.request 1)).1 client
      (call.acks client 0 1 (.ok ())) := by
  have hres : (Local.perform env db client call).2 = .ok (.ok ()) := by decide
  have hflows : Flows env db (call.selected db) := ⟨by decide, fun _ _ _ _ _ => rfl⟩
  have h := interchangeable env blind_env db (Op.inv_run _ (inv_empty false false 1)) client
    (by decide) call nofun
    ⟨rfl, by decide, by decide, nofun⟩ ⟨hflows, fun _ => by decide, fun _ _ => rfl⟩ 1 0
  rw [hres] at h
  exact ⟨hres, h.2.1, h.2.2.2⟩

open Ways in
/-- Without an acknowledgement only the internal client is told that there is nobody. -/
theorem unreported : db.lookup client.name = some client ∧
    (Local.perform env db client lost).2 = .ok (.error .notRegistered) ∧
    (Remote.perform env db client 0 (lost.request 1)).2 = .ok () ∧
    Remote.reported lost (ackCodes client 0
      ((Remote.perform env db client 0 (lost.request 1)).1.cell client).tx.put) =
      some true := by
  decide

end Busrt
