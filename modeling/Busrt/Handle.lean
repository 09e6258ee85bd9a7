/-
# The handle of an internal client

A `Client` is the handle of an internal client. Its `unregister` clears the flag
`registered` and then calls `unregister_client`, which looks at the flag: it
drops nothing and announces nothing. The client keeps its name, its
subscriptions and its secondaries, and as the flag is gone, no other call and no
drop of the handle takes it out (`never_unregisters`).

`Broker::unregister_client` does unregister: the name and those of the
secondaries are free, and the end of a primary client is announced
(`unregistered_unregisterClient`).

Key definitions: `Client.unregister`, `Unregistered`.
Key theorems: `announce_keeps`, `unregistered_unregisterClient`, `never_unregisters`.
-/
import Busrt.Isolation

namespace Busrt

open Lib BrokerDb

variable {S : Submap}

/-- `Broker::unregister_client`. -/
def Broker.unregisterClient (env : Env S) (db : BrokerDb S) (client : BrokerClient) :
    BrokerDb S × Except Stop Unit :=
  BrokerDb.unregisterClient (announce env) db client

namespace Client

/-- `Client::unregister`. -/
def unregister (env : Env S) (db : BrokerDb S) (bus : BrokerClient) :
    BrokerDb S × Except Stop Unit :=
  BrokerDb.unregisterClient (announce env) (db.setRegistered bus false) bus

/-- `Drop for Client`. -/
def drop (db : BrokerDb S) (bus : BrokerClient) : BrokerDb S := db.dropClient bus

end Client

/-! ### What an announcement leaves -/

section Keeps

variable {P : BrokerDb S → Prop} (hdrop : ∀ db c, P db → P (db.dropClient c))
  (htx : ∀ db c f, P db → P (db.setTx c f))
include hdrop htx

theorem safeSendFrame_keeps {ann : BrokerDb S → BrokerEvent → BrokerDb S × Except Stop Unit}
    (hann : ∀ db e, P db → P (ann db e).1) (env : Env S) (timeout : Bool) (tgt : BrokerClient)
    (f : Frame) {db : BrokerDb S} (h : P db) : P (safeSendFrame ann env timeout db tgt f).1 := by
  have hun : P (unregisterClient ann db tgt).1 := by
    unfold unregisterClient
    dsimp only
    split
    · exact hann _ _ (hdrop db tgt h)
    · exact hdrop db tgt h
  unfold safeSendFrame
  dsimp only
  split
  · split
    · split
      · exact h
      · split
        · exact htx db tgt (·.sendWait f) h
        · exact h
    · split
      · rename_i db' he
        rw [he] at hun
        exact htx _ _ _ hun
      · rename_i db' stop he
        rw [he] at hun
        exact hun
  · split
    · exact h
    · exact htx db tgt (·.push f) h

theorem fanOut_keeps {ann : BrokerDb S → BrokerEvent → BrokerDb S × Except Stop Unit}
    (hann : ∀ db e, P db → P (ann db e).1) (env : Env S) (timeout : Bool) (f : Frame) :
    ∀ (subs : List BrokerClient) {db : BrokerDb S}, P db → P (fanOut ann env timeout f db subs).1
  | [], _, h => h
  | sub :: subs, db, h => by
    have hs := safeSendFrame_keeps hdrop htx hann env timeout sub f h
    rw [fanOut]
    split
    · rename_i db' _ he
      rw [he] at hs
      exact fanOut_keeps hann env timeout f subs hs
    · rename_i db' stop he
      rw [he] at hs
      exact hs

/-- **An announcement keeps what drops of clients and changes of queues keep.** -/
theorem announce_keeps (env : Env S) {db : BrokerDb S} (e : BrokerEvent) (h : P db) :
    P (announce env db e).1 := by
  have hheld : ∀ (db : BrokerDb S) e, P db → P (announceHeld db e).1 := by
    intro db e h
    unfold announceHeld
    split <;> exact h
  unfold announce
  split
  · exact fanOut_keeps hdrop htx hheld env false _ _ h
  · exact h

end Keeps

theorem lookup_none_foldl {drop : BrokerDb S → BrokerClient → BrokerDb S} {n : String}
    (hdrop : ∀ db c, db.lookup n = none → (drop db c).lookup n = none) :
    ∀ (names : List String) {db : BrokerDb S}, db.lookup n = none →
      (names.foldl (dropEach drop) db).lookup n = none
  | [], _, h => h
  | s :: names, db, h => by
    refine lookup_none_foldl hdrop names ?_
    unfold dropEach
    split
    · refine hdrop _ _ ?_
      split
      · exact h
      · exact h
    · exact h

/-- What is left to do after the client is out of the maps brings nobody in. -/
theorem lookup_none_dropRest {n : String} (k : ℕ)
    (hdrop : ∀ (db : BrokerDb S) c, db.lookup n = none → (dropClientN k db c).lookup n = none)
    {db : BrokerDb S} {c : BrokerClient} (hr : (db.cell c).registered = true)
    (h : (db.unlink c).lookup n = none) :
    (dropClientN (k + 1) db c).lookup n = none := by
  rw [dropClientN, if_pos hr]
  dsimp only
  split
  · exact lookup_none_foldl hdrop _ h
  · split <;> exact h

/-- Nobody comes in. -/
theorem lookup_none_dropClientN (n : String) :
    ∀ (k : ℕ) (db : BrokerDb S) (c : BrokerClient), db.lookup n = none →
    (dropClientN k db c).lookup n = none
  | 0, _, _, h => h
  | k + 1, db, c, h => by
    cases hr : (db.cell c).registered with
    | false => rwa [dropClientN_unregistered _ hr]
    | true =>
      refine lookup_none_dropRest k (fun db c h => lookup_none_dropClientN n k db c h) hr ?_
      rw [lookup_unlink]
      split
      · rfl
      · exact h

/-- Who is dropped is out. -/
theorem lookup_dropClient_self {db : BrokerDb S} {c : BrokerClient}
    (hr : (db.cell c).registered = true) :
    (db.dropClient c).lookup c.name = none :=
  lookup_none_dropRest 1 (fun db c h => lookup_none_dropClientN _ 1 db c h) hr
    (by rw [lookup_unlink, if_pos rfl])

theorem lookup_none_announce (env : Env S) {db : BrokerDb S} (e : BrokerEvent) {n : String}
    (h : db.lookup n = none) :
    (announce env db e).1.lookup n = none :=
  announce_keeps (P := fun db => db.lookup n = none)
    (fun db c h => lookup_none_dropClientN n 2 db c h) (fun _ _ _ h => h)
    env e h

theorem inv_announce (env : Env S) {db : BrokerDb S} (e : BrokerEvent) (h : Inv db) :
    Inv (announce env db e).1 :=
  announce_keeps (P := Inv) (fun _ c h => h.dropClient c) (fun _ c f h => h.setTx c f) env e h

/-! ### Unregistering -/

/-- What unregistering a client means: its name and those of its secondaries are in none of the
maps, the end of a primary client is announced, and a client of this name can be registered without
force. -/
structure Unregistered (env : Env S) (db : BrokerDb S) (c : BrokerClient)
    (p : BrokerDb S × Except Stop Unit) : Prop where
  gone : ∀ n ∈ db.goes c, p.1.lookup n = none ∧ S.bcast.held p.1.broadcasts (S.sha256 n) = none ∧
    S.sub.held p.1.subscriptions (S.sha256 n) = none
  announced : p =
    if db.brokerRpc && c.primary then
      announce env (db.dropClient c) (BrokerEvent.unreg c.name)
    else (db.dropClient c, .ok ())
  again : ∀ d : BrokerClient, d.name = c.name → p.1.allowForce d = false →
    (p.1.registerClient d).2 = .ok ()

section Unregistering

variable {db : BrokerDb S} {c : BrokerClient}

theorem registerClient_of_free {d : BrokerClient} (hl : db.lookup d.name = none)
    (hp : d.primary = false → (db.lookup d.primaryName).isSome = true) :
    (db.registerClient d).2 = .ok () := by
  have hi : ∃ pc, db.insertClient d = (db.link d pc, .ok ()) := by
    unfold insertClient
    cases hd : d.primary with
    | true => simp [hl]
    | false =>
      obtain ⟨pc, hpc⟩ := Option.isSome_iff_exists.mp (hp hd)
      simp [hl, hpc]
  obtain ⟨pc, hi⟩ := hi
  rw [registerClient, hi]

/-- A client of a taken name is refused. -/
theorem registerClient_of_taken {d e : BrokerClient} (hl : db.lookup d.name = some e)
    (hf : db.allowForce d = false) :
    ∃ err, db.registerClient d = (db, .error err) := by
  have hi : ∃ err, db.insertClient d = (db, .error err) := by
    unfold insertClient
    cases hd : d.primary with
    | true => exact ⟨_, by simp [hl]; rfl⟩
    | false => cases hpc : db.lookup d.primaryName <;> exact ⟨_, by simp [hl]; rfl⟩
  obtain ⟨err, hi⟩ := hi
  exact ⟨err, by simp [registerClient, hi, hf]⟩

/-- **`Broker::unregister_client` unregisters.** -/
theorem unregistered_unregisterClient (env : Env S) (h : Inv db)
    (hr : (db.cell c).registered = true) :
    Unregistered env db c (Broker.unregisterClient env db c) := by
  have hp : Broker.unregisterClient env db c = if db.brokerRpc && c.primary then
      announce env (db.dropClient c) (BrokerEvent.unreg c.name) else (db.dropClient c, .ok ()) := by
    have hb : (db.dropClient c).brokerRpc = db.brokerRpc := (Keeps.dropClient db c).brokerRpc
    simp only [Broker.unregisterClient, BrokerDb.unregisterClient, hr, hb, Bool.and_true]
  have hinv : Inv (Broker.unregisterClient env db c).1 := by
    rw [hp]
    split
    · exact inv_announce env _ (h.dropClient c)
    · exact h.dropClient c
  have hgone : ∀ n ∈ db.goes c, (Broker.unregisterClient env db c).1.lookup n = none := by
    intro n hn
    have hd : (db.dropClient c).lookup n = none := by rw [lookup_dropClient h hr, if_pos hn]
    rw [hp]
    split
    · exact lookup_none_announce env _ hd
    · exact hd
  refine ⟨fun n hn => ⟨hgone n hn, ?_, ?_⟩, hp, fun d hd _ => ?_⟩
  · rw [hinv.broadcasts_eq, hgone n hn]
  · rw [← Option.not_isSome_iff_eq_none, hinv.subscriptions_iff, hgone n hn]
    simp
  · have hself : c.name ∈ db.goes c := by
      unfold goes
      split <;> exact List.mem_cons_self
    refine registerClient_of_free (hd ▸ hgone c.name hself) fun hsec => ?_
    -- a secondary client's primary one stays
    have hpn : d.primaryName = c.primaryName := by
      rw [BrokerClient.primaryName, BrokerClient.primaryName, hd]
    have hsec' : c.primary = false := by
      rw [← hsec, BrokerClient.primary, BrokerClient.primary, hd, hpn]
    have hne : c.primaryName ≠ c.name := fun he => by
      rw [(BrokerClient.primary_iff c).mpr he] at hsec'
      cases hsec'
    rw [hp, hsec', Bool.and_false, if_neg Bool.false_ne_true, hpn, lookup_dropClient h hr,
      goes_secondary hsec', if_neg (by simpa using hne)]
    exact h.primary_mem _ _ ((h.registered_iff c).mp hr) hsec'

/-- All that `Client::unregister` does. -/
theorem unregister_eq (env : Env S) (db : BrokerDb S) (c : BrokerClient) :
    Client.unregister env db c = (db.setRegistered c false, .ok ()) := by
  have hr : ((db.setRegistered c false).cell c).registered = false := by
    rw [setRegistered_registered, if_pos rfl]
  simp only [Client.unregister, BrokerDb.unregisterClient, hr, dropClient_unregistered hr,
    Bool.and_false, Bool.false_eq_true, if_false]

/-- **`Client::unregister` never unregisters**: whatever the state, it does not do what
`Broker::unregister_client` does. The client keeps its name and its places in all maps, nobody gets
an announcement, its name is refused to others, and no other call takes it out any more. -/
theorem never_unregisters (env : Env S) (hr : (db.cell c).registered = true)
    (hl : db.lookup c.name = some c) :
    let p := Client.unregister env db c
    ¬ Unregistered env db c p ∧ p ≠ Broker.unregisterClient env db c ∧
      p.2 = .ok () ∧ p.1.clients = db.clients ∧ p.1.broadcasts = db.broadcasts ∧
        p.1.subscriptions = db.subscriptions ∧
      (∀ d, (p.1.cell d).tx = (db.cell d).tx) ∧
      (∀ d : BrokerClient, d.name = c.name → p.1.allowForce d = false →
        ∃ err, p.1.registerClient d = (p.1, .error err)) ∧
      Client.drop p.1 c = p.1 ∧ Broker.unregisterClient env p.1 c = (p.1, .ok ()) ∧
        Client.unregister env p.1 c = p := by
  intro p
  have hp : p = (db.setRegistered c false, .ok ()) := unregister_eq env db c
  have hl' : p.1.lookup c.name = some c := by rw [hp]; exact hl
  have hr' : (p.1.cell c).registered = false := by rw [hp]; simp [setRegistered_registered]
  have hself : c.name ∈ db.goes c := by
    unfold goes
    split <;> exact List.mem_cons_self
  have hother : p ≠ Broker.unregisterClient env db c := fun he => by
    have hnone : (Broker.unregisterClient env db c).1.lookup c.name = none := by
      have hd := lookup_dropClient_self hr
      unfold Broker.unregisterClient BrokerDb.unregisterClient
      dsimp only
      split
      · exact lookup_none_announce env _ hd
      · exact hd
    rw [← he, hl'] at hnone
    cases hnone
  refine ⟨fun h => ?_,
    hother, by rw [hp], by rw [hp]; rfl, by rw [hp]; rfl, by rw [hp]; rfl, fun d => ?_,
    fun d hd hf => ?_,
    dropClient_unregistered hr', ?_, ?_⟩
  · have hn := (h.gone c.name hself).1
    rw [hl'] at hn
    cases hn
  · rw [hp, setRegistered, setCell_cell]
    split
    · rename_i hdc
      rw [hdc]
    · rfl
  · exact registerClient_of_taken (hd ▸ hl') hf
  · simp only [Broker.unregisterClient, BrokerDb.unregisterClient, hr', dropClient_unregistered hr',
      Bool.and_false, Bool.false_eq_true, if_false]
  · rw [unregister_eq, hp]
    simp only [setRegistered, setCell, Function.update_self, Function.update_idem]

end Unregistering

namespace Handles

def env : Env reference := ⟨fun _ l => l, fun _ l => .refl l, fun _ _ => false, fun _ _ => []⟩

/-- An internal client, and the next one of its name. -/
def owner : BrokerClient := ⟨0, "i", .internal, none, none⟩
def next : BrokerClient := ⟨2, "i", .internal, none, none⟩

/-- It is there with a secondary client. -/
def db : BrokerDb reference := Op.run (BrokerDb.empty reference false true 4)
  [.register "i" .internal none none, .registerSecondaryFor owner 0]

end Handles

open Handles in
/-- The name stays. -/
theorem never_unregisters_owner :
    Client.unregister env db owner ≠ Broker.unregisterClient env db owner :=
  by
  have hr : (db.cell owner).registered = true := by decide
  exact (never_unregisters env hr (by decide)).2.1

open Handles in
/-- Two names are still taken, and the next client of the name is refused;
`Broker::unregister_client` frees both. -/
theorem taken_name : ¬ Unregistered env db owner (Client.unregister env db owner) ∧
    (Client.unregister env db owner).1.clients.keys = ["i%%0", "i"] ∧
    ((Client.unregister env db owner).1.registerClient next).2.isOk = false ∧
    (Broker.unregisterClient env db owner).1.clients.keys = [] ∧
    ((Broker.unregisterClient env db owner).1.registerClient next).2.isOk = true := by
  refine ⟨fun h => ?_, by decide, by decide, by decide, by decide⟩
  have hn := (h.gone "i" (by decide)).1
  revert hn
  decide

end Busrt
