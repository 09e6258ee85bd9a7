/-
# A peer, from its first byte to its end

`handle_peer` greets a peer, reads its name, looks up its rules, registers its
client, and serves it until the connection ends. Here it is a program
(`handlePeer`) whose reads and writes are answered by the peer, in any way: any
bytes, an error or a timeout at any point. The registry, the other tasks and
the connection after its registration are those of `System`, and every step of
theirs may come between two operations of the program (`peerStep`).

The program follows an automaton of five phases (`handlePeer_follows`): it
returns before a registration, after it has unregistered, or when it could not
write the response to a registration. In the last case the client stays
registered.

Key definitions: `handlePeer`, `PeerSys`, `peerStep`, `Absent`, `Careful`.
Key theorems: `handlePeer_follows`, `PeerInv.step`, `leaves_nothing`.
-/
import Busrt.Stale
import Busrt.Lib.Prog

namespace Busrt

open Lib BrokerDb

variable {S : Submap}

/-! ### The program -/

/-- `GREETINGS`. -/
def GREETINGS : UInt8 := 0xEB

/-- `PROTOCOL_VERSION`. -/
def PROTOCOL_VERSION : ℕ := 0x01

/-- What `handle_peer` asks of its environment. -/
inductive PeerOp
  /-- `write_and_flush!`. -/
  | write (buf : List UInt8)
  /-- `read_exact`, with a timeout. -/
  | readExact (len : ℕ)
  /-- `aaa_map.lock().get(..).cloned()`. -/
  | aaa (primaryName : String)
  /-- `BusRtClient::new`, and its registration. -/
  | connect (name : String)
  /-- What the task has left to do with the registry is done: the announcement of
  a registration, or `unregister_client`. -/
  | settle
  /-- The `select!`, up to the point where one of its futures has returned. -/
  | serve

/-- The answers. -/
def PeerOp.Ans (S : Submap) : PeerOp → Type
  | .write _ => Except Error Unit
  | .readExact len => Except Error { bs : List UInt8 // bs.length = len }
  | .aaa _ => Option (ClientAaa S)
  | .connect _ => Except Error BrokerClient
  | .settle => Unit
  | .serve => Except Error Unit

/-- A program of a peer. -/
abbrev Peer (S : Submap) := Prog (PeerOp.Ans S)

/-- `PeerHandlerParams`: what `handle_peer` is given. `ip` is the address of
`ClientIp::Addr`, `aaaMap` says that there is one. -/
structure PeerHandlerParams where
  kind : BusRtClientKind
  source : Option String
  sourcePort : Option String
  ip : Option String
  aaaMap : Bool
  external : kind ≠ .internal

namespace Peer

/-- An operation that may fail, with `?`. -/
def writeAndFlush (buf : List UInt8) : ExceptT Error (Peer S) Unit :=
  ExceptT.mk (.op (.write buf) fun r => .ret r)

def readExact (len : ℕ) : ExceptT Error (Peer S) { bs : List UInt8 // bs.length = len } :=
  ExceptT.mk (.op (.readExact len) fun r => .ret r)

/-- The refusals: a code for the peer, and the error. -/
def refuse {α : Type} (e : Error) : ExceptT Error (Peer S) α := do
  writeAndFlush [e.kind.code]
  throw e

/-- A check that ends the connection. -/
def refuseIf (p : Prop) [Decidable p] (e : Error) : ExceptT Error (Peer S) Unit :=
  if p then refuse e else pure ()

/-- The name a peer gives: text that is not empty and does not start with a dot. -/
def validName (name : String) : Bool :=
  match name.toList with
  | [] => false
  | c :: _ => c != '.'

/-- `std::str::from_utf8(&buf)?`; the text of the error is left out. -/
def clientName (buf : List UInt8) : ExceptT Error (Peer S) String :=
  match fromUtf8 buf with
  | .ok name => pure name
  | .error e => throw ⟨e, none⟩

/-- The rules of a peer, if there is a map of them; a peer that is not in it, or
comes from elsewhere, is refused. -/
def accessRules (params : PeerHandlerParams) (name : String) :
    ExceptT Error (Peer S) (Option (ClientAaa S)) :=
  if params.aaaMap then do
    match ← ExceptT.lift (.op (.aaa (primaryName name)) fun r => .ret r) with
    | some a =>
      match params.ip with
      | some addr =>
        if a.connectAllowed addr then pure (some a)
        else refuse ⟨.access,
          some ("Client " ++ name ++ " is not allowed to connect from " ++ addr)⟩
      | none => pure (some a)
    | none => refuse ⟨.access, some ("Client not in AAA map: " ++ name)⟩
  else pure none

/-- `register_client(..).await` with its error branch. -/
def registerClient (name : String) : ExceptT Error (Peer S) BrokerClient := do
  match ← ExceptT.lift (.op (.connect name) fun r => .ret r) with
  | .ok c =>
    ExceptT.lift (.op .settle fun r => .ret r)
    pure c
  | .error e => refuse e

/-- `format_result!`. -/
def formatResult (name : String) : Except Error Unit → Except Error Unit
  | .ok () => .ok ()
  | .error e =>
    let clientMsg := "[" ++ name ++ "]"
    .error { e with message := some (match e.message with
      | some msg => msg ++ " " ++ clientMsg
      | none => clientMsg) }

/-- The `select!`, then `finish_peer!`, then the result. -/
def serveClient (name : String) : ExceptT Error (Peer S) Unit :=
  ExceptT.mk (.op .serve fun result => .op .settle fun _ => .ret (formatResult name result))

/-- `Broker::handle_peer`. -/
def handlePeer (params : PeerHandlerParams) : ExceptT Error (Peer S) Unit := do
  writeAndFlush (GREETINGS :: toLe 2 PROTOCOL_VERSION)
  let buf ← readExact 3
  refuseIf (buf.1.getD 0 0 ≠ GREETINGS) (Error.notSupported "invalid protocol")
  refuseIf (ofLe ((buf.1.drop 1).take 2) ≠ PROTOCOL_VERSION)
    (Error.notSupported "unsupported protocol version")
  writeAndFlush [RESPONSE_OK]
  let buf ← readExact 2
  let buf ← readExact (ofLe buf.1)
  let name ← clientName buf.1
  refuseIf (!validName name) ⟨.data, some ("Invalid client name: " ++ name)⟩
  let _aaa ← accessRules params name
  let _client ← registerClient name
  writeAndFlush [RESPONSE_OK]
  serveClient name

end Peer

/-! ### The phases of the program -/

/-- Where a peer is: not registered yet, registered but not told so, told so,
with its connection at an end, or through with it. -/
inductive Phase
  | fresh | registered | confirmed | served | gone
  deriving DecidableEq, Repr

namespace Phase

def allowed : Phase → PeerOp → Prop
  | .fresh, .write _ | .fresh, .readExact _ | .fresh, .aaa _ | .fresh, .connect _ => True
  | .registered, .settle | .registered, .write _ => True
  | .confirmed, .serve => True
  | .served, .settle => True
  | _, _ => False

def next : Phase → (o : PeerOp) → o.Ans S → Phase
  | .fresh, .connect _, .ok _ => .registered
  | .registered, .write _, .ok _ => .confirmed
  | .registered, .write _, .error _ => .gone
  | .confirmed, .serve, _ => .served
  | .served, .settle, _ => .gone
  | q, _, _ => q

/-- It returns with nothing registered, or when it is through. -/
def final : Phase → Prop
  | .fresh | .gone => True
  | _ => False

/-- The automaton. -/
def phases (S : Submap) : Prog.Phases (PeerOp.Ans S) Phase := ⟨allowed, next⟩

end Phase

section Follows

open Prog Peer

theorem follows_write {fin : Phase → Except Error Unit → Prop} {q : Phase} {buf : List UInt8}
    (ha : q.allowed (.write buf)) (h : ∀ r, fin (q.next (S := S) (.write buf) r) r) :
    Prog.Follows (Phase.phases S) fin q (writeAndFlush buf).run := ⟨ha, h⟩

/-- A refusal before a registration. -/
theorem follows_refuse {α : Type} {fin : Phase → Except Error α → Prop} (e : Error)
    (h : ∀ e, fin .fresh (.error e)) :
    Prog.Follows (Phase.phases S) fin .fresh (refuse (α := α) e).run := by
  refine Follows.except (follows_write trivial fun r => ?_)
  cases r with
  | ok _ => exact h e
  | error e' => exact h e'

theorem follows_refuseIf {fin : Phase → Except Error Unit → Prop} {p : Prop} [Decidable p]
    (e : Error) (h : ∀ e, fin .fresh (.error e)) (hok : fin .fresh (.ok ())) :
    Prog.Follows (Phase.phases S) fin .fresh (refuseIf p e).run := by
  unfold refuseIf
  split
  · exact follows_refuse e h
  · exact hok

theorem follows_accessRules {fin : Phase → Except Error (Option (ClientAaa S)) → Prop}
    (params : PeerHandlerParams) (name : String) (h : ∀ r, fin .fresh r) :
    Prog.Follows (Phase.phases S) fin .fresh (accessRules params name).run := by
  unfold accessRules
  split
  · refine Follows.except ⟨trivial, fun a => ?_⟩
    rcases a with _ | a
    · exact follows_refuse _ fun e => h _
    · change Prog.Follows _ _ _ (ExceptT.run (match params.ip with | some addr => _ | none => _))
      split
      · split
        · exact h _
        · exact follows_refuse _ fun e => h _
      · exact h _
  · exact h _

theorem follows_registerClient {fin : Phase → Except Error BrokerClient → Prop} (name : String)
    (herr : ∀ e, fin .fresh (.error e)) (hok : ∀ c, fin .registered (.ok c)) :
    Prog.Follows (Phase.phases S) fin .fresh (registerClient name).run := by
  refine Follows.except ⟨trivial, fun r => ?_⟩
  cases r with
  | ok c => exact ⟨trivial, fun _ => hok c⟩
  | error e => exact follows_refuse e herr

/-- `handle_peer` goes through the phases in their order, and returns before its
registration or at the end. -/
theorem handlePeer_follows (params : PeerHandlerParams) :
    Prog.Follows (Phase.phases S) (fun q _ => q.final) .fresh (handlePeer params).run := by
  have hw : ∀ {f : Unit → ExceptT Error (Peer S) Unit} {buf},
      Prog.Follows (Phase.phases S) (fun q _ => q.final) .fresh (f ()).run →
      Prog.Follows (Phase.phases S) (fun q _ => q.final) .fresh (writeAndFlush buf >>= f).run := by
    intro f buf h
    refine Follows.except (follows_write trivial fun r => ?_)
    cases r with
    | ok _ => exact h
    | error e => trivial
  have hr : ∀ {len} {f : { bs : List UInt8 // bs.length = len } → ExceptT Error (Peer S) Unit},
      (∀ bs, Prog.Follows (Phase.phases S) (fun q _ => q.final) .fresh (f bs).run) →
      Prog.Follows (Phase.phases S) (fun q _ => q.final) .fresh (readExact len >>= f).run := by
    intro len f h
    refine Follows.except ⟨trivial, fun r => ?_⟩
    cases r with
    | ok bs => exact h bs
    | error e => trivial
  unfold handlePeer
  refine hw (hr fun buf => Follows.except (follows_refuseIf _ (fun _ => trivial) ?_))
  refine Follows.except (follows_refuseIf _ (fun _ => trivial) ?_)
  refine hw (hr fun len => hr fun buf => Follows.except ?_)
  -- the name
  unfold clientName
  split
  · refine Follows.except (follows_refuseIf _ (fun _ => trivial) ?_)
    refine Follows.except (follows_accessRules _ _ fun r => ?_)
    cases r with
    | error e => trivial
    | ok aaa =>
      refine Follows.except (follows_registerClient _ (fun _ => trivial) fun c => ?_)
      -- from here on a client is registered
      refine Follows.except (follows_write trivial fun r => ?_)
      cases r with
      | error e => trivial
      | ok _ => exact ⟨trivial, fun _ => ⟨trivial, fun _ => trivial⟩⟩
  · trivial

end Follows

/-! ### The peer in the system -/

/-- The system, and where the peer's `handle_peer` is. -/
structure PeerSys (S : Submap) where
  sys : Sys S
  prog : Peer S (Except Error Unit)

/-- The steps: one of the system, or an answer to the program. -/
inductive PeerLabel (S : Submap)
  | sys (l : Label)
  | write (r : Except Error Unit)
  | read (r : Except Error (List UInt8))
  | aaa (a : Option (ClientAaa S))
  | connect
  | settle
  | serve (r : Except Error Unit)

/-- Whether the program is in the `select!`, so that its connection is served. -/
def serving : Peer S (Except Error Unit) → Bool
  | .op .serve _ => true
  | _ => false

/-- Whether the task's acts are done for the program. -/
def acting : Peer S (Except Error Unit) → Bool
  | .op .serve _ | .op .settle _ => true
  | _ => false

/-- The steps of the system that the program lets happen: all those of others,
and those of its own task that it waits for. -/
def permits (t : Tid) (prog : Peer S (Except Error Unit)) : Label → Bool
  | .act u _ => u != t || acting prog
  | .decode u _ | .finish u => u != t || serving prog
  | .connect u .. | .spawn u _ => u != t
  | _ => true

/-- One step of the system with the peer, whose task is `t`. -/
def peerStep (params : PeerHandlerParams) (rules : BrokerClient → Option (ClientAaa S)) (t : Tid)
    (p : PeerSys S) :
    PeerLabel S → Option (PeerSys S)
  | .sys l => if permits t p.prog l then (step rules p.sys l).map fun s => ⟨s, p.prog⟩ else none
  | .write r =>
    match p.prog with
    | .op (.write _) next => some ⟨p.sys, next r⟩
    | _ => none
  | .read r =>
    match p.prog with
    | .op (.readExact len) next =>
      match r with
      | .ok bs => if h : bs.length = len then some ⟨p.sys, next (.ok ⟨bs, h⟩)⟩ else none
      | .error e => some ⟨p.sys, next (.error e)⟩
    | _ => none
  | .aaa a =>
    match p.prog with
    | .op (.aaa _) next => some ⟨p.sys, next a⟩
    | _ => none
  | .connect =>
    match p.prog with
    | .op (.connect name) next =>
      if (p.sys.task t).isNone then
        let c := newClient p.sys name params.kind params.source params.sourcePort
        let db := allocated p.sys name params.kind params.source params.sourcePort
        some ⟨connect p.sys t name params.kind params.source params.sourcePort,
          next ((db.registerClient c).2.map fun _ => c)⟩
      else none
    | _ => none
  | .settle =>
    match p.prog, p.sys.task t with
    | .op .settle next, some ⟨_, []⟩ => some ⟨p.sys, next ()⟩
    | _, _ => none
  | .serve r =>
    match p.prog, p.sys.connOf t with
    | .op .serve next, some k => if k.reading then none else some ⟨p.sys, next r⟩
    | _, _ => none

/-- The steps as a relation. -/
def PeerSteps (params : PeerHandlerParams) (rules : BrokerClient → Option (ClientAaa S)) (t : Tid)
    (p : PeerSys S) (l : PeerLabel S) (q : PeerSys S) : Prop :=
  peerStep params rules t p l = some q

/-- Everything a step can do: it is one of the system, or answers the operation
that the program waits for. -/
inductive PeerEffect (params : PeerHandlerParams) (rules : BrokerClient → Option (ClientAaa S))
    (t : Tid) :
    PeerSys S → PeerLabel S → PeerSys S → Prop
  | sys {s s' prog l} (hp : permits t prog l = true) (hs : Steps rules s l s') :
      PeerEffect params rules t ⟨s, prog⟩ (.sys l) ⟨s', prog⟩
  | write {s buf next} (r : Except Error Unit) :
      PeerEffect params rules t ⟨s, .op (.write buf) next⟩ (.write r) ⟨s, next r⟩
  | read {s len next l} (r : Except Error { bs : List UInt8 // bs.length = len }) :
      PeerEffect params rules t ⟨s, .op (.readExact len) next⟩ (.read l) ⟨s, next r⟩
  | aaa {s name next} (a : Option (ClientAaa S)) :
      PeerEffect params rules t ⟨s, .op (.aaa name) next⟩ (.aaa a) ⟨s, next a⟩
  | connect {s name next} (ht : s.task t = none) :
      PeerEffect params rules t ⟨s, .op (.connect name) next⟩ .connect
        ⟨connect s t name params.kind params.source params.sourcePort,
          next (((allocated s name params.kind params.source params.sourcePort).registerClient
            (newClient s name params.kind params.source params.sourcePort)).2.map
              fun _ => newClient s name params.kind params.source params.sourcePort)⟩
  | settle {s next conn} (ht : s.task t = some ⟨conn, []⟩) :
      PeerEffect params rules t ⟨s, .op .settle next⟩ .settle ⟨s, next ()⟩
  | serve {s next k r} (hk : s.connOf t = some k) (hr : k.reading = false) :
      PeerEffect params rules t ⟨s, .op .serve next⟩ (.serve r) ⟨s, next r⟩

theorem effect_of_peerSteps {params : PeerHandlerParams}
    {rules : BrokerClient → Option (ClientAaa S)} {t : Tid} {p q : PeerSys S} {l : PeerLabel S}
    (h : PeerSteps params rules t p l q) : PeerEffect params rules t p l q := by
  rcases p with ⟨s, prog⟩
  cases l with
  | sys l =>
    simp only [PeerSteps, peerStep] at h
    split at h
    · obtain ⟨s', hs, rfl⟩ := Option.map_eq_some_iff.mp h
      exact .sys ‹_› hs
    · cases h
  | write r =>
    simp only [PeerSteps, peerStep] at h
    split at h
    · obtain rfl := Option.some.inj h; exact .write r
    · cases h
  | read r =>
    simp only [PeerSteps, peerStep] at h
    split at h
    · split at h
      · split at h
        · obtain rfl := Option.some.inj h; exact .read _
        · cases h
      · obtain rfl := Option.some.inj h; exact .read _
    · cases h
  | aaa a =>
    simp only [PeerSteps, peerStep] at h
    split at h
    · obtain rfl := Option.some.inj h; exact .aaa a
    · cases h
  | connect =>
    simp only [PeerSteps, peerStep] at h
    split at h
    · split at h
      · rename_i ht
        obtain rfl := Option.some.inj h
        exact .connect (Option.isNone_iff_eq_none.mp ht)
      · cases h
    · cases h
  | settle =>
    simp only [PeerSteps, peerStep] at h
    split at h
    · obtain rfl := Option.some.inj h; exact .settle ‹_›
    · cases h
  | serve r =>
    simp only [PeerSteps, peerStep] at h
    split at h
    · split at h
      · cases h
      · obtain rfl := Option.some.inj h; exact .serve ‹_› (Bool.eq_false_iff.mpr ‹_›)
    · cases h

/-! ### What stays of a connection -/

/-- The client is in none of the registry's maps, and a registration of its name
is refused only for somebody else's sake. -/
structure Absent (db : BrokerDb S) (c : BrokerClient) : Prop where
  clients : ∀ n, db.lookup n ≠ some c
  broadcasts : ∀ mask, c ∉ S.bcast.getClientsByMask db.broadcasts mask
  subscriptions : ∀ topic, c ∉ S.sub.getSubscribers db.subscriptions topic
  free : ∀ d e, d.name = c.name → (db.insertClient d).2 = .error e → e.kind = .busy →
    ∃ other, db.lookup c.name = some other ∧ other ≠ c

/-- Under its name the client is only recorded while it is registered. -/
def Clean (db : BrokerDb S) (c : BrokerClient) : Prop :=
  ∀ mask, S.Recorded db.subscriptions (S.key c) mask c → db.lookup c.name = some c

theorem Absent.of_unregistered {db : BrokerDb S} {c : BrokerClient} (hI : Inv db) (hc : Clean db c)
    (hr : (db.cell c).registered = false) : Absent db c := by
  have hl : db.lookup c.name ≠ some c := by
    intro hl
    rw [(hI.registered_iff c).mpr hl] at hr
    cases hr
  refine ⟨fun n hn => hl (hI.name_eq n c hn ▸ hn), fun mask hm => ?_, fun topic hm => ?_,
    fun d e hd he hk => ?_⟩
  · have hh := ((S.bcast.mem_getClientsByMask _ _ _).mp hm).1
    rw [hI.broadcasts_eq] at hh
    exact hl hh
  · obtain ⟨f, mask, hf, hmask, -⟩ := S.sub.of_mem_getSubscribers _ _ _ hm
    exact hl (hc mask ⟨f, hf, hmask⟩)
  · rcases insertClient_cases db d with ⟨-, -, hi⟩ | ⟨pc, other, -, ho, -⟩ | ⟨pc, -, -, hi⟩
    · rw [hi] at he
      cases he
      cases hk
    · rw [hd] at ho
      exact ⟨other, ho, fun heq => hl (heq ▸ ho)⟩
    · rw [hi] at he
      cases he

section Steps

variable {params : PeerHandlerParams} {rules : BrokerClient → Option (ClientAaa S)}
  {s s' : Sys S} {l : Label}
  {t : Tid} {c : BrokerClient}

/-- Who is registered after a step was so before it, or is new. -/
theorem Steps.lookup (hI : Inv s.db) (hs : Steps rules s l s') {n : String} {d : BrokerClient}
    (hl : s'.db.lookup n = some d) : s.db.lookup n = some d ∨ d.id = s.db.nextId := by
  have hreg : ∀ {name kind source port db' res}, (allocated s name kind source port).registerClient
      (newClient s name kind source port) = (db', res) → db'.lookup n = some d →
      s.db.lookup n = some d ∨ d.id = s.db.nextId := by
    intro name kind source port db' res hr hl
    rcases held_registerClient (inv_allocated hI name kind source port) hr hl with
      ⟨rfl, -⟩ | ⟨hold, -⟩
    · exact .inr rfl
    · exact .inl hold
  have hexec : ∀ {ch t a s₁ next}, exec ch t s a = some (s₁, next) → s₁.db.lookup n = some d →
      s.db.lookup n = some d := by
    intro ch t a s₁ next he hl
    rcases exec_cases he with ⟨db, hdb, rfl⟩ | ⟨-, ⟨-, -, rfl⟩ | ⟨-, -, rfl⟩ | ⟨-, rfl⟩ | ⟨-, rfl⟩⟩
    · cases effect_of_execDb hdb with
      | same _ h => rw [← h.lookup]; exact hl
      | subscribe | unsubscribe => exact hl
      | unregister => exact (held_dropClient hI hl).1
      | drop => exact (held_dropClient hI hl).1
    all_goals exact hl
  cases effect_of_steps hs with
  | connect ht hr => exact hreg hr hl
  | refuse hr => exact hreg hr hl
  | act ht he => exact .inl (hexec he hl)
  | exit ht he => exact .inl (hexec he hl)
  | setCore | spawn | decode | finish | recv | ping => exact .inl hl

/-- A client that was unregistered stays so. -/
theorem Steps.unregistered (hok : s.Ok) (hs : Steps rules s l s') (hc : c.id < s.db.nextId)
    (hr : (s.db.cell c).registered = false) : (s'.db.cell c).registered = false := by
  rw [← Bool.not_eq_true] at hr ⊢
  intro hr'
  rcases hs.lookup hok.inv (((hok.step hs).inv.registered_iff c).mp hr') with hl | hn
  · exact hr ((hok.inv.registered_iff c).mpr hl)
  · exact absurd hn hc.ne

/-- A step keeps a client clean, unless it subscribes for it while another one has
its name. -/
theorem Clean.step (h : Clean s.db c) (hok : s.Ok) (hs : Steps rules s l s')
    (hn : ∀ u ch conn topics rest, l = .act u ch → s.task u =
      some ⟨conn, .subscribe c topics :: rest⟩ → ∀ d, s.db.lookup c.name = some d → d = c) :
    Clean s'.db c := by
  intro mask hr
  -- somebody has the name, since topics are held for it
  obtain ⟨d, hd⟩ : ∃ d, s'.db.lookup c.name = some d := by
    obtain ⟨g, hg, -⟩ := hr
    have hiff := (hok.step hs).inv.subscriptions_iff c.name
    rw [Submap.key] at hg
    rw [hg] at hiff
    exact Option.isSome_iff_exists.mp hiff.symm
  rw [hd]
  refine congrArg some ?_
  -- the client had the name before, with the same topics
  have hsame : s.db.lookup c.name = some d → S.sub.held s'.db.subscriptions (S.sha256 c.name) =
      S.sub.held s.db.subscriptions (S.sha256 c.name) → d = c := by
    rintro hold hh
    obtain ⟨g, hg, hm⟩ := hr
    rw [Submap.key, hh] at hg
    exact Option.some.inj (hold.symm.trans (h mask ⟨g, hg, hm⟩))
  have hreg : ∀ {name kind source port db' res}, (allocated s name kind source port).registerClient
      (newClient s name kind source port) = (db', res) → s'.db = db' → d = c := by
    intro name kind source port db' res he hdb
    have hd' : db'.lookup c.name = some d := hdb ▸ hd
    rcases held_registerClient (inv_allocated hok.inv name kind source port) he hd' with
      ⟨rfl, hh⟩ | ⟨hold, hh⟩
    · obtain ⟨g, hg, hm⟩ := hr
      rw [Submap.key, hdb, hh] at hg
      obtain rfl := Option.some.inj hg
      simp only at hm
      split at hm
      · exact Option.some.inj hm
      · cases hm
    · exact hsame hold (by rw [hdb]; exact hh)
  have hexec : ∀ {ch u a s₁ next conn rest}, l = .act u ch → s.task u = some ⟨conn, a :: rest⟩ →
      exec ch u s a = some (s₁, next) → s'.db = s₁.db → d = c := by
    intro ch u a s₁ next conn rest hl hu he hdb
    rw [hdb] at hd hr
    have hrec : S.Recorded s.db.subscriptions (S.key c) mask c →
        s.db.lookup c.name = some d → d = c :=
      fun hr hold => Option.some.inj (hold.symm.trans (h mask hr))
    rcases exec_cases he with ⟨db, hx, rfl⟩ | ⟨-, ⟨-, -, rfl⟩ | ⟨-, -, rfl⟩ | ⟨-, rfl⟩ | ⟨-, rfl⟩⟩
    · cases effect_of_execDb hx with
      | same _ hsr => exact hrec (hsr.subscriptions ▸ hr) ((hsr.lookup _).symm.trans hd)
      | @subscribe c' topics =>
        rcases recorded_foldl_subscribe topics _ hr with hr | ⟨-, rfl⟩
        · exact hrec hr hd
        · exact hn u ch conn topics rest hl hu d hd
      | unsubscribe => exact hrec (recorded_foldl_unsubscribe _ _ hr) hd
      | unregister =>
        obtain ⟨hold, hh⟩ := held_dropClient hok.inv hd
        exact hsame hold (by rw [hdb]; exact hh)
      | drop =>
        obtain ⟨hold, hh⟩ := held_dropClient hok.inv hd
        exact hsame hold (by rw [hdb]; exact hh)
    all_goals exact hrec hr hd
  cases effect_of_steps hs with
  | connect ht he => exact hreg he rfl
  | refuse he => exact hreg he rfl
  | act ht he => exact hexec rfl ht he rfl
  | exit ht he => exact hexec rfl ht he rfl
  | setCore | spawn | decode | finish | recv | ping => exact hsame hd rfl

/-- What has an end: a connection that reads no more has its client yet to
unregister, or it is unregistered. -/
def Ended (s : Sys S) (t : Tid) : Prop :=
  ∀ k todo, s.task t = some ⟨some k, todo⟩ → k.reading = false →
    todo = [.unregister k.client] ∨ (s.db.cell k.client).registered = false

theorem not_registered_dropClient {db : BrokerDb S} (hI : Inv db) (c : BrokerClient) :
    ((db.dropClient c).cell c).registered = false := by
  rcases hr : (db.cell c).registered with _ | _
  · rw [dropClient_unregistered hr]; exact hr
  · rw [← Bool.not_eq_true, registered_dropClient hI hr]
    exact fun h => h.2 List.mem_cons_self

theorem Ended.step (h : Ended s t) (hok : s.Ok) (hs : Steps rules s l s') : Ended s' t := by
  intro k todo ht' hk
  have hstay : ∀ {k₀ todo₀}, s.task t = some ⟨some k₀, todo₀⟩ →
      (s.db.cell k₀.client).registered = false →
      (s'.db.cell k₀.client).registered = false := fun ht hr =>
    hs.unregistered hok (hok.fresh t _ (Sys.connOf_of_task ht)) hr
  cases view_of_steps hs ht' with
  | other ht =>
    rcases h k todo ht hk with he | hr
    · exact .inl he
    · exact .inr (hstay ht hr)
  | opened => cases hk
  | read ht hk' => rw [hk'] at hk; cases hk
  | @acted ch k a rest s₁ acts ht hl he hdb =>
    right
    rcases h k _ ht hk with hu | hr
    · rw [hdb]
      obtain ⟨rfl, -⟩ := List.cons.inj hu
      rcases exec_cases he with ⟨db, hx, rfl⟩ | ⟨-, ⟨hx, -⟩ | ⟨hx, -⟩ | ⟨hx, -⟩ | ⟨hx, -⟩⟩
      · obtain ⟨rfl, -⟩ := Prod.mk.inj (Option.some.inj hx)
        exact not_registered_dropClient hok.inv _
      all_goals cases hx
    · exact hstay ht hr
  | ended => exact .inl rfl

/-- A connection that reads no more stays so. -/
theorem Steps.ended (hs : Steps rules s l s') {k : Conn} (hk : s.connOf t = some k)
    (hr : k.reading = false) :
    ∃ k', s'.connOf t = some k' ∧ k'.client = k.client ∧ k'.reading = false := by
  obtain ⟨k', hk', hc, -⟩ := hs.conn hk
  refine ⟨k', hk', hc, ?_⟩
  have htask : ∃ todo, s'.task t = some ⟨some k', todo⟩ := by
    obtain ⟨⟨conn, todo⟩, ht, hconn⟩ := Option.bind_eq_some_iff.mp hk'
    exact ⟨todo, by rw [ht, ← hconn]⟩
  obtain ⟨todo, ht'⟩ := htask
  have hsame : ∀ {k₀ todo₀}, s.task t = some ⟨some k₀, todo₀⟩ → k₀ = k := fun ht =>
    Option.some.inj ((Sys.connOf_of_task ht).symm.trans hk)
  cases view_of_steps hs ht' with
  | other ht => rw [hsame ht]; exact hr
  | opened _ _ _ ht => rw [Sys.connOf, ht] at hk; cases hk
  | read ht hread => rw [hsame ht, hr] at hread; cases hread
  | acted ht => rw [hsame ht]; exact hr
  | ended => rfl

end Steps

/-! ### Every run -/

section Run

variable {params : PeerHandlerParams} {rules : BrokerClient → Option (ClientAaa S)} {t : Tid}
  {p q : PeerSys S}
  {l : PeerLabel S}

/-- What a phase says of the system. -/
def Phase.At (t : Tid) (s : Sys S) : Phase → Prop
  | .fresh => s.task t = none
  | .registered | .confirmed => (s.connOf t).isSome = true
  | .served => ∃ k, s.connOf t = some k ∧ k.reading = false
  | .gone => ∃ k, s.connOf t = some k ∧ (s.db.cell k.client).registered = false

/-- The response to a registration can be written, unless somebody else has
unregistered the client, and the reader subscribes for its client only while
nobody else has its name. -/
structure Careful (t : Tid) (p : PeerSys S) (l : PeerLabel S) : Prop where
  write : ∀ e k, l = .write (.error e) → p.sys.connOf t = some k →
    (p.sys.db.cell k.client).registered = false
  subscribe : ∀ u ch conn k topics rest, l = .sys (.act u ch) → p.sys.connOf t = some k →
    p.sys.task u = some ⟨conn, .subscribe k.client topics :: rest⟩ →
    ∀ d, p.sys.db.lookup k.client.name = some d → d = k.client

/-- The invariant: the program is in a phase that fits the system. -/
structure PeerInv (t : Tid) (p : PeerSys S) : Prop where
  ok : p.sys.Ok
  ended : Ended p.sys t
  clean : ∀ k, p.sys.connOf t = some k → Clean p.sys.db k.client
  phase : ∃ ph : Phase,
    Prog.Follows (Phase.phases S) (fun ph _ => ph.final) ph p.prog ∧ ph.At t p.sys

/-- A task that is not there is only made by steps of its own. -/
theorem task_eq_none {s s' : Sys S} {l : Label} {prog : Peer S (Except Error Unit)}
    (hs : Steps rules s l s') (hp : permits t prog l = true) (ht : s.task t = none) :
    s'.task t = none := by
  have hset : ∀ {s₁ : Sys S} {u : Tid} {k : Task}, s₁.task = s.task → u ≠ t →
      (s₁.setTask u k).task t = none := by
    intro s₁ u k htask hu
    rw [setTask_task, if_neg (Ne.symm hu), htask]
    exact ht
  have hfin : ∀ {s₁ : Sys S} {u : Tid} {k : Conn}, s₁.task = s.task → u ≠ t →
      (s₁.finish u k).task t = none := by
    intro s₁ u k htask hu
    simp only [Sys.finish, Function.update_apply, htask, if_neg (Ne.symm hu)]
    exact ht
  have hne : ∀ {u : Tid} {k : Task}, s.task u = some k → u ≠ t := by
    rintro u k hu rfl
    rw [ht] at hu
    cases hu
  cases effect_of_steps hs with
  | connect _ _ => exact hset rfl (by simpa [permits] using hp)
  | spawn _ _ => exact hset rfl (by simpa [permits] using hp)
  | decode hu => exact hset rfl (hne hu)
  | act hu he => exact hset (exec_task he) (hne hu)
  | exit hu he => exact hfin (exec_task he) (hne hu)
  | finish hu => exact hfin rfl (hne hu)
  | refuse | setCore | recv | ping => exact ht

/-- The task is not there, or it is a connection's. -/
theorem Phase.At.conn {s : Sys S} {ph : Phase} (h : ph.At t s) :
    s.task t = none ∨ ∃ k, s.connOf t = some k := by
  cases ph with
  | fresh => exact .inl h
  | registered => exact .inr (Option.isSome_iff_exists.mp h)
  | confirmed => exact .inr (Option.isSome_iff_exists.mp h)
  | served => exact .inr (h.imp fun _ => And.left)
  | gone => exact .inr (h.imp fun _ => And.left)

/-- A step of the system keeps the phase. -/
theorem Phase.At.step {s s' : Sys S} {l : Label} {prog : Peer S (Except Error Unit)} {ph : Phase}
    (h : ph.At t s) (hok : s.Ok) (hs : Steps rules s l s') (hp : permits t prog l = true) :
    ph.At t s' := by
  have hconn : (s.connOf t).isSome = true → (s'.connOf t).isSome = true := by
    intro h
    obtain ⟨k, hk⟩ := Option.isSome_iff_exists.mp h
    obtain ⟨k', hk', -⟩ := hs.conn hk
    rw [hk']; rfl
  cases ph with
  | fresh => exact task_eq_none hs hp h
  | registered => exact hconn h
  | confirmed => exact hconn h
  | served =>
    obtain ⟨k, hk, hr⟩ := h
    obtain ⟨k', hk', -, hr'⟩ := hs.ended hk hr
    exact ⟨k', hk', hr'⟩
  | gone =>
    obtain ⟨k, hk, hr⟩ := h
    obtain ⟨k', hk', hc, -⟩ := hs.conn hk
    exact ⟨k', hk', by rw [hc]; exact hs.unregistered hok (hok.fresh t k hk) hr⟩

/-- A client whose registration succeeds has its name. -/
theorem lookup_of_registered {db db' : BrokerDb S} {c : BrokerClient} (hI : Inv db)
    (hr : db.registerClient c = (db', .ok ())) : db'.lookup c.name = some c := by
  rcases registerClient_cases hI c with ⟨e, -, he⟩ | ⟨pc, -, -, he⟩ | ⟨pc, prev, -, -, -, he⟩
  · rw [hr] at he
    cases he
  · rw [hr] at he
    obtain ⟨rfl, -⟩ := Prod.mk.inj he
    rw [lookup_link, if_pos rfl]
  · rw [hr] at he
    obtain ⟨rfl, -⟩ := Prod.mk.inj he
    rw [lookup_link, if_pos rfl]

theorem PeerInv.init (params : PeerHandlerParams) (forceRegister brokerRpc : Bool) (queueSize : ℕ+)
    (t : Tid) :
    PeerInv t ⟨Sys.init S forceRegister brokerRpc queueSize, (Peer.handlePeer params).run⟩ where
  ok := Sys.ok_init ..
  ended k todo h := by simp [Sys.init] at h
  clean k h := by simp [Sys.init, Sys.connOf] at h
  phase := ⟨.fresh, handlePeer_follows params, rfl⟩

/-- The registration of the peer's client, accepted or not. -/
theorem PeerInv.connect {s : Sys S} {name : String}
    {next : Except Error BrokerClient → Peer S (Except Error Unit)}
    (hI : PeerInv t ⟨s, .op (.connect name) next⟩) (ht : s.task t = none) :
    PeerInv t ⟨Busrt.connect s t name params.kind params.source params.sourcePort,
      next (((allocated s name params.kind params.source params.sourcePort).registerClient
        (newClient s name params.kind params.source params.sourcePort)).2.map
          fun _ => newClient s name params.kind params.source params.sourcePort)⟩ := by
  have hs : Steps (fun _ : BrokerClient => (none : Option (ClientAaa S))) s
      (.connect t name params.kind params.source params.sourcePort)
      (Busrt.connect s t name params.kind params.source params.sourcePort) := by
    rw [Steps, step, if_pos (by rw [ht]; rfl)]
  obtain ⟨ph, hf, hat⟩ := hI.phase
  -- only before a registration may the program register
  obtain rfl : ph = .fresh := by
    cases ph with
    | fresh => rfl
    | _ => exact hf.1.elim
  refine ⟨hI.ok.step hs, hI.ended.step hI.ok hs, ?_, ?_⟩
  · rcases connect_cases s t name params.kind params.source params.sourcePort with
      ⟨db', hr, hc⟩ | ⟨db', e, -, hc⟩
    · rw [hc]
      intro k hk mask _
      rw [Sys.connOf_setTask, if_pos rfl, newTask] at hk
      simp only at hk
      split at hk
      · obtain rfl := Option.some.inj hk
        exact lookup_of_registered (inv_allocated hI.ok.inv ..) hr
      · cases hk
    · rw [hc]
      intro k hk
      rw [Sys.connOf, show Sys.task _ t = none from ht] at hk
      cases hk
  · rcases connect_cases s t name params.kind params.source params.sourcePort with ⟨db', hr, hc⟩ |
      ⟨db', e, hr, hc⟩
    · rw [hc, hr]
      refine ⟨.registered,
        hf.2 (.ok (newClient s name params.kind params.source params.sourcePort)), ?_⟩
      have hext : (newClient s name params.kind params.source
          params.sourcePort).isExternal = true :=
        bne_iff_ne.mpr params.external
      change (Sys.connOf (Sys.setTask _ t _) t).isSome = true
      rw [Sys.connOf_setTask, if_pos rfl, newTask, if_pos hext]
      rfl
    · rw [hc, hr]
      exact ⟨.fresh, hf.2 (.error e), ht⟩

/-- Every careful step keeps the invariant. -/
theorem PeerInv.step (hI : PeerInv t p) (hc : Careful t p l) (hs : PeerSteps params rules t p l q) :
    PeerInv t q := by
  cases effect_of_peerSteps hs with
  | @sys s s' prog l hp hs' =>
    obtain ⟨ph, hf, hat⟩ := hI.phase
    refine ⟨hI.ok.step hs', hI.ended.step hI.ok hs', fun k' hk' => ?_, ph, hf,
      hat.step hI.ok hs' hp⟩
    rcases hat.conn with ht | ⟨k, hk⟩
    · rw [Sys.connOf, show s'.task t = none from task_eq_none hs' hp ht] at hk'
      cases hk'
    · obtain ⟨k₁, hk₁, hcl, -⟩ := hs'.conn hk
      obtain rfl := Option.some.inj (hk₁.symm.trans hk')
      rw [hcl]
      exact (hI.clean k hk).step hI.ok hs' fun u ch conn topics rest hl hu =>
        hc.subscribe u ch conn k topics rest (by rw [hl]) hk hu
  | @write s buf next r =>
    obtain ⟨ph, hf, hat⟩ := hI.phase
    refine ⟨hI.ok, hI.ended, hI.clean, ph.next (S := S) (.write buf) r, hf.2 r, ?_⟩
    cases ph with
    | fresh => cases r <;> exact hat
    | registered =>
      cases r with
      | ok _ => exact hat
      | error e =>
        obtain ⟨k, hk⟩ := Option.isSome_iff_exists.mp hat
        exact ⟨k, hk, hc.write e k rfl hk⟩
    | confirmed | served | gone => exact hf.1.elim
  | @read s len next l r =>
    obtain ⟨ph, hf, hat⟩ := hI.phase
    refine ⟨hI.ok, hI.ended, hI.clean, ph.next (S := S) (.readExact len) r, hf.2 r, ?_⟩
    cases ph with
    | fresh => exact hat
    | registered | confirmed | served | gone => exact hf.1.elim
  | @aaa s name next a =>
    obtain ⟨ph, hf, hat⟩ := hI.phase
    refine ⟨hI.ok, hI.ended, hI.clean, ph.next (S := S) (.aaa name) a, hf.2 a, ?_⟩
    cases ph with
    | fresh => exact hat
    | registered | confirmed | served | gone => exact hf.1.elim
  | connect ht => exact hI.connect ht
  | @settle s next conn ht =>
    obtain ⟨ph, hf, hat⟩ := hI.phase
    refine ⟨hI.ok, hI.ended, hI.clean, ph.next (S := S) .settle (), hf.2 (), ?_⟩
    cases ph with
    | registered => exact hat
    | served =>
      obtain ⟨k, hk, hr⟩ := hat
      obtain rfl : conn = some k := (Sys.connOf_of_task ht).symm.trans hk
      exact ⟨k, hk, (hI.ended k [] ht hr).resolve_left fun he => by cases he⟩
    | fresh | confirmed | gone => exact hf.1.elim
  | @serve s next k r hk hr =>
    obtain ⟨ph, hf, hat⟩ := hI.phase
    refine ⟨hI.ok, hI.ended, hI.clean, ph.next (S := S) .serve r, hf.2 r, ?_⟩
    cases ph with
    | confirmed => exact ⟨k, hk, hr⟩
    | fresh | registered | served | gone => exact hf.1.elim

/-- **A connection leaves nothing behind**: in every run in which the response to
the peer's registration is written, unless its client was unregistered by then,
and its reader subscribes only while its client has its name, the client is in
none of the maps once `handle_peer` has returned. -/
theorem leaves_nothing (params : PeerHandlerParams) (rules : BrokerClient → Option (ClientAaa S))
    (t : Tid) (forceRegister brokerRpc : Bool) (queueSize : ℕ+) (labels : List (PeerLabel S))
    (s : Sys S) (result : Except Error Unit)
    (h : Run (Guarded (PeerSteps params rules t) (Careful t))
      ⟨Sys.init S forceRegister brokerRpc queueSize, (Peer.handlePeer params).run⟩ labels
      ⟨s, .ret result⟩)
    (k : Conn) (hk : s.connOf t = some k) : Absent s.db k.client := by
  have hI : PeerInv t ⟨s, .ret result⟩ :=
    h.inv (fun _ _ _ hI hs => PeerInv.step hI hs.1 hs.2) (PeerInv.init ..)
  obtain ⟨ph, hf, hat⟩ := hI.phase
  cases ph with
  | gone =>
    obtain ⟨k', hk', hr⟩ := hat
    obtain rfl := Option.some.inj (hk.symm.trans hk')
    exact .of_unregistered hI.ok.inv (hI.clean k hk) hr
  | fresh =>
    rw [Sys.connOf, show s.task t = none from hat] at hk
    cases hk
  | registered | confirmed | served => exact hf.elim

/-- A check that a step is careful. -/
def careful (t : Tid) (p : PeerSys S) : PeerLabel S → Bool
  | .write (.error _) => (p.sys.connOf t).all fun k => !(p.sys.db.cell k.client).registered
  | .sys (.act u _) =>
    match p.sys.connOf t, p.sys.task u with
    | some k, some ⟨_, .subscribe c _ :: _⟩ =>
      c != k.client || (p.sys.db.lookup k.client.name).all (· == k.client)
    | _, _ => true
  | _ => true

theorem careful_sound (t : Tid) (p : PeerSys S) (l : PeerLabel S) (h : careful t p l = true) :
    Careful t p l where
  write e k hl hk := by
    subst hl
    simpa [careful, hk] using h
  subscribe u ch conn k topics rest hl hk hu d hd := by
    subst hl
    simpa [careful, hk, hu, hd] using h

end Run

/-! ### A peer and its response -/

namespace Peers

/-- A peer on a socket, without rules. -/
def params : PeerHandlerParams := ⟨.localIpc, none, none, none, false, nofun⟩

def client : BrokerClient := ⟨0, "w", .localIpc, none, none⟩

def start : PeerSys reference := ⟨Sys.init reference false false 4, (Peer.handlePeer params).run⟩

/-- The greeting and the name, up to the registration. -/
def greeting : List (PeerLabel reference) :=
  [.write (.ok ()), .read (.ok [0xEB, 1, 0]), .write (.ok ()), .read (.ok [1, 0]),
    .read (.ok [119]), .connect, .settle]

/-- It subscribes to `a`, and leaves. -/
def served : List (PeerLabel reference) :=
  greeting ++ [.write (.ok ()), .sys (.decode 0 (.numbered 1 .subscribeTopic .no [97])),
    .sys (.act 0 .plain), .sys (.finish 0), .serve (.ok ()), .sys (.act 0 .plain), .settle]

/-- It does not read the response. -/
def stalled : List (PeerLabel reference) := greeting ++ [.write (.error ⟨.timeout, none⟩)]

/-- What is seen of a run: the client of the task, who has its name, and whether
the program has returned. -/
def seen (p : PeerSys reference) : Option BrokerClient × Option BrokerClient × Bool :=
  ((p.sys.connOf 0).map (·.client), p.sys.db.lookup "w", match p.prog with
    | .ret _ => true
    | .op _ _ => false)

theorem of_seen {p : PeerSys reference} {o : Option BrokerClient}
    (h : seen p = (some client, o, true)) :
    (∃ k, p.sys.connOf 0 = some k ∧ k.client = client) ∧ p.sys.db.lookup "w" = o ∧
      ∃ r, p = ⟨p.sys, .ret r⟩ := by
  rcases p with ⟨s, prog⟩
  simp only [seen, Prod.mk.injEq, Option.map_eq_some_iff] at h
  obtain ⟨hk, ho, hr⟩ := h
  refine ⟨hk, ho, ?_⟩
  cases prog with
  | ret r => exact ⟨r, rfl⟩
  | op o next => cases hr

end Peers

open Peers in
/-- A peer that was served: its client is gone from all maps. -/
theorem leaves_nothing_served : ∃ s r k,
    Run (Guarded (PeerSteps params (fun _ => none) 0) (Careful 0)) start served ⟨s, .ret r⟩ ∧
    s.connOf 0 = some k ∧ k.client = client ∧ Absent s.db client := by
  have hrun :
      (execList (fun p l => if careful 0 p l then peerStep params (fun _ => none) 0 p l else none)
        start served).map seen = some (some client, none, true) := by decide
  obtain ⟨⟨s, prog⟩, hs, hobs⟩ := Option.map_eq_some_iff.mp hrun
  obtain ⟨⟨k, hk, hkc⟩, -, r, hr⟩ := of_seen hobs
  rw [hr] at hs
  have hrun := run_of_checked (careful_sound 0) hs
  have habs := leaves_nothing params _ 0 false false 4 served s r hrun k hk
  rw [hkc] at habs
  exact ⟨s, r, k, hrun, hk, hkc, habs⟩

open Peers in
/-- The response to the registration times out: `handle_peer` has returned, and the
client is still registered. -/
theorem left_behind_stalled :
    ∃ s r k, Run (PeerSteps params (fun _ => none) 0) start stalled ⟨s, .ret r⟩ ∧
    s.connOf 0 = some k ∧ k.client = client ∧ s.db.lookup "w" = some client ∧
      ¬ Absent s.db client := by
  have hrun : (execList (peerStep params (fun _ => none) 0) start stalled).map seen =
      some (some client, some client, true) := by decide
  obtain ⟨⟨s, prog⟩, hs, hobs⟩ := Option.map_eq_some_iff.mp hrun
  obtain ⟨⟨k, hk, hkc⟩, hl, r, hr⟩ := of_seen hobs
  rw [hr] at hs
  exact ⟨s, r, k, run_of_execList hs, hk, hkc, hl, fun habs => habs.clients "w" hl⟩

end Busrt
