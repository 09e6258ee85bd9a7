/-
# Bulk operations over a socket

The `_bulk` operations of the two clients on a socket write a list of topics as one
body, with a zero byte before a topic if the body is not empty yet; the broker
splits the body at every zero byte. Empty topics at the front of the list leave
nothing in the body, so they do not come back; and what comes back from a list
without topics, or of empty ones alone, is one empty topic (`topicsOf_bulk`).

So a bulk operation does what its single operations do one after the other, and
what the bulk method of `broker::Client` does, exactly for the lists that keep
their topics (`bulk_iff`).

Key definitions: `SameMasks`, `overSocket`, `AsSingles`, `KeepsTopics`.
Key theorems: `topicsOf_bulk`, `sameMasks_of_mem`, `sameMasks_singles`, `bulk_iff`.
-/
import Mathlib.Data.List.TakeWhile
import Busrt.Interests

namespace Busrt

open Lib BrokerDb

variable {S : Submap}

/-! ### What comes back -/

/-- The topics that come back from a list. -/
def sentTopics (ts : List String) : List String :=
  match ts.dropWhile (· = "") with
  | [] => [""]
  | us => us

theorem utf8_eq_nil {t : String} : utf8 t = [] ↔ t = "" := by
  refine ⟨fun h => ?_, fun h => by rw [h]; rfl⟩
  have hb : fromUtf8 (utf8 t) = fromUtf8 (utf8 "") := by rw [h]; rfl
  rw [fromUtf8_utf8, fromUtf8_utf8] at hb
  exact Except.ok.inj hb

/-- **A list comes back without the empty topics at its front**, or as one empty topic. -/
theorem topicsOf_bulk {ts : List String} (h : ∀ t ∈ ts, NulFree t) :
    topicsOf (splitZeros (bulk ts)) = (sentTopics ts, true) := by
  have hb : bulk ts = joinZeros (ts.map utf8) := by rw [joinZeros, List.foldl_map]; rfl
  have hfree : ∀ p ∈ ts.map utf8, 0 ∉ p := by
    intro p hp
    obtain ⟨t, ht, rfl⟩ := List.mem_map.mp hp
    exact h t ht
  have hdrop : (ts.map utf8).dropWhile (·.isEmpty) = (ts.dropWhile (· = "")).map utf8 := by
    rw [List.dropWhile_map]
    congr 2
    funext t
    rw [Function.comp, Bool.eq_iff_iff, List.isEmpty_iff, utf8_eq_nil, decide_eq_true_iff]
  rw [hb, splitZeros_joinZeros hfree, hdrop, sentTopics]
  cases ts.dropWhile (· = "") with
  | nil => exact topicsOf_map [""]
  | cons t us => exact topicsOf_map (t :: us)

/-- The list is not empty, and if it begins with an empty topic, then all its topics are empty or an
empty one comes again after the first that is not. -/
def KeepsTopics (ts : List String) : Prop :=
  ts ≠ [] ∧ (ts.head? = some "" → (∀ t ∈ ts, t = "") ∨ "" ∈ ts.dropWhile (· = ""))

instance (ts : List String) : Decidable (KeepsTopics ts) := inferInstanceAs (Decidable (_ ∧ _))

theorem dropWhile_eq_nil {ts : List String} : ts.dropWhile (· = "") = [] ↔ ∀ t ∈ ts, t = "" := by
  simp [List.dropWhile_eq_nil_iff]

theorem mem_dropWhile_of_ne :
    ∀ {ts : List String} {t : String}, t ∈ ts → t ≠ "" → t ∈ ts.dropWhile (· = "")
  | u :: ts, t, h, hne => by
    rw [List.dropWhile_cons]
    split
    · rename_i hu
      refine mem_dropWhile_of_ne ((List.mem_cons.mp h).resolve_left fun he => hne ?_) hne
      rw [he]
      exact of_decide_eq_true hu
    · exact h

/-- Only the empty topic may be lost or come in. -/
theorem mem_sentTopics_of_ne {ts : List String} {t : String} (hne : t ≠ "") :
    t ∈ sentTopics ts ↔ t ∈ ts := by
  have hsub : ts.dropWhile (· = "") ⊆ ts := (List.dropWhile_suffix _).subset
  rw [sentTopics]
  cases hd : ts.dropWhile (· = "") with
  | nil =>
    refine ⟨fun h => absurd (List.mem_singleton.mp h) hne,
      fun h => absurd (dropWhile_eq_nil.mp hd t h) hne⟩
  | cons u us =>
    change t ∈ u :: us ↔ t ∈ ts
    rw [← hd]
    exact ⟨fun h => hsub h, fun h => mem_dropWhile_of_ne h hne⟩

theorem keepsTopics_iff (ts : List String) : KeepsTopics ts ↔ ("" ∈ sentTopics ts ↔ "" ∈ ts) := by
  have hsub : ts.dropWhile (· = "") ⊆ ts := (List.dropWhile_suffix _).subset
  cases ts with
  | nil => simp [KeepsTopics, sentTopics]
  | cons t ts =>
    by_cases ht : t = ""
    · subst ht
      rw [sentTopics]
      cases hd : ("" :: ts).dropWhile (· = "") with
      | nil =>
        have hall := dropWhile_eq_nil.mp hd
        exact iff_of_true ⟨nofun, fun _ => .inl hall⟩ (by simp)
      | cons u us =>
        have hnot : ¬ ∀ t ∈ "" :: ts, t = "" :=
          fun h => by rw [dropWhile_eq_nil.mpr h] at hd; cases hd
        simp only [KeepsTopics, hd, List.head?_cons, true_imp_iff, hnot, false_or,
          List.mem_cons_self, iff_true, ne_eq, reduceCtorEq, not_false_eq_true, true_and]
    · have hd : (t :: ts).dropWhile (· = "") = t :: ts := by
        rw [List.dropWhile_cons_of_neg (by simpa using ht)]
      simp [KeepsTopics, sentTopics, hd, ht]

theorem KeepsTopics.mem {ts : List String} (h : KeepsTopics ts) (t : String) :
    t ∈ sentTopics ts ↔ t ∈ ts := by
  by_cases ht : t = ""
  · rw [ht]
    exact (keepsTopics_iff ts).mp h
  · exact mem_sentTopics_of_ne ht

/-! ### The same masks -/

/-- The same subscriptions, exclusions and flags. -/
structure SameMasks (db db' : BrokerDb S) : Prop where
  held : ∀ k, S.sub.held db'.subscriptions k = S.sub.held db.subscriptions k
  mem : ∀ d m, S.acl.mem (db'.cell d).exclusions m ↔ S.acl.mem (db.cell d).exclusions m
  flag : ∀ d, (db'.cell d).hasExclusions = (db.cell d).hasExclusions

namespace SameMasks

variable {db db' db'' : BrokerDb S} {c : BrokerClient}

theorem refl (db : BrokerDb S) : SameMasks db db := ⟨fun _ => rfl, fun _ _ => .rfl, fun _ => rfl⟩

theorem symm (h : SameMasks db db') : SameMasks db' db :=
  ⟨fun k => (h.held k).symm, fun d m => (h.mem d m).symm, fun d => (h.flag d).symm⟩

theorem trans (h : SameMasks db db') (h' : SameMasks db' db'') : SameMasks db db'' :=
  ⟨fun k => (h'.held k).trans (h.held k), fun d m => (h'.mem d m).trans (h.mem d m),
    fun d => (h'.flag d).trans (h.flag d)⟩

end SameMasks

section Effect

variable {c : BrokerClient}

/-- What the client holds after some subscriptions. -/
theorem held_subscribeAll : ∀ (ts : List String) (m : S.sub.T),
    S.sub.held (ts.foldl (fun m t => (S.sub.subscribe m t c).1) m) (S.key c) =
      (S.sub.held m (S.key c)).map fun f s => if s ∈ ts then some ((f s).getD c) else f s
  | [], m => by simp
  | t :: ts, m => by
    rw [List.foldl_cons, held_subscribeAll ts, Submap.key, S.sub.held_subscribe, Option.map_map]
    congr 1
    funext f s
    by_cases hs : s = t <;> simp [hs, Function.comp]

theorem held_unsubscribeAll : ∀ (ts : List String) (m : S.sub.T),
    S.sub.held (ts.foldl (fun m t => (S.sub.unsubscribe m t c).1) m) (S.key c) =
      (S.sub.held m (S.key c)).map fun f s => if s ∈ ts then none else f s
  | [], m => by simp
  | t :: ts, m => by
    rw [List.foldl_cons, held_unsubscribeAll ts, Submap.key, S.sub.held_unsubscribe, Option.map_map]
    congr 1
    funext f s
    by_cases hs : s = t <;> simp [hs, Function.comp]

/-- The subscriptions of the others are left. -/
theorem TopicOp.held_onDb_ne (op : TopicOp) (db : BrokerDb S) (ts : List String) {k : S.Key}
    (hk : k ≠ S.key c) :
    S.sub.held (op.onDb db c ts).subscriptions k = S.sub.held db.subscriptions k := by
  cases op
  case subscribe => exact held_foldl_ne (fun m t => S.sub.held_subscribe_ne _ _ _ _ hk) ts _
  case unsubscribe => exact held_foldl_ne (fun m t => S.sub.held_unsubscribe_ne _ _ _ _ hk) ts _
  all_goals rfl

/-- What becomes of the masks of a cell. -/
def TopicOp.onCell (topics : List String) (x : ClientCell S) : TopicOp → ClientCell S
  | .subscribe | .unsubscribe => x
  | .exclude => { x with
      exclusions := topics.foldl S.acl.insert x.exclusions
      hasExclusions := if !topics.isEmpty then true else x.hasExclusions }
  | .unexclude => { x with
      exclusions := topics.foldl S.acl.remove x.exclusions
      hasExclusions := if S.acl.isEmpty (topics.foldl S.acl.remove x.exclusions) then false
        else x.hasExclusions }

theorem TopicOp.cell_onDb (op : TopicOp) (db : BrokerDb S) (topics : List String)
    (d : BrokerClient) :
    (op.onDb db c topics).cell d = if d = c then op.onCell topics (db.cell c) else db.cell d := by
  cases op
  case subscribe | unsubscribe =>
    change db.cell d = if d = c then db.cell c else db.cell d
    split
    · rename_i hd
      rw [hd]
    · rfl
  case exclude | unexclude =>
    simp only [TopicOp.onDb, TopicOp.act, execDb, Option.elim_some, setCell_cell, Bool.true_and,
      TopicOp.onCell]

theorem acl_isEmpty_congr {a b : S.acl.T} (h : ∀ m, S.acl.mem a m ↔ S.acl.mem b m) :
    S.acl.isEmpty a = S.acl.isEmpty b := by
  rw [Bool.eq_iff_iff, S.acl.isEmpty_iff, S.acl.isEmpty_iff]
  exact forall_congr' fun m => not_congr (h m)

/-- The same masks in the state before and in the list. -/
theorem sameMasks_of_mem {db db' : BrokerDb S} (h : SameMasks db db') (op : TopicOp)
    {us vs : List String} (hmem : ∀ t, t ∈ us ↔ t ∈ vs) :
    SameMasks (op.onDb db c us) (op.onDb db' c vs) := by
  have hempty : us.isEmpty = vs.isEmpty := by
    rw [Bool.eq_iff_iff, List.isEmpty_iff, List.isEmpty_iff, List.eq_nil_iff_forall_not_mem,
      List.eq_nil_iff_forall_not_mem]
    exact forall_congr' fun t => not_congr (hmem t)
  have hcell : ∀ d, (∀ m, S.acl.mem ((op.onDb db' c vs).cell d).exclusions m ↔
      S.acl.mem ((op.onDb db c us).cell d).exclusions m) ∧
      ((op.onDb db' c vs).cell d).hasExclusions = ((op.onDb db c us).cell d).hasExclusions := by
    intro d
    rw [op.cell_onDb, op.cell_onDb]
    split
    · cases op
      case subscribe | unsubscribe => exact ⟨h.mem c, h.flag c⟩
      case exclude =>
        refine ⟨fun m => ?_, ?_⟩
        · simp only [TopicOp.onCell, mem_insertAll, h.mem c m, hmem]
        · simp only [TopicOp.onCell, hempty, h.flag c]
      case unexclude =>
        have hm : ∀ m, S.acl.mem (vs.foldl S.acl.remove (db'.cell c).exclusions) m ↔
            S.acl.mem (us.foldl S.acl.remove (db.cell c).exclusions) m := fun m => by
          rw [mem_removeAll, mem_removeAll, h.mem c m, hmem]
        refine ⟨hm, ?_⟩
        simp only [TopicOp.onCell, acl_isEmpty_congr hm, h.flag c]
    · exact ⟨h.mem d, h.flag d⟩
  refine ⟨fun k => ?_, fun d => (hcell d).1, fun d => (hcell d).2⟩
  by_cases hk : k = S.key c
  · subst hk
    cases op
    case subscribe =>
      calc S.sub.held (vs.foldl (fun m t => (S.sub.subscribe m t c).1) db'.subscriptions) (S.key c)
        _ = (S.sub.held db'.subscriptions (S.key c)).map fun f s => if s ∈ vs then
          some ((f s).getD c) else f s :=
          held_subscribeAll vs _
        _ = (S.sub.held db.subscriptions (S.key c)).map fun f s => if s ∈ us then
          some ((f s).getD c) else f s := by
          simp only [h.held, hmem]
        _ = S.sub.held (us.foldl (fun m t => (S.sub.subscribe m t c).1)
          db.subscriptions) (S.key c) :=
          (held_subscribeAll us _).symm
    case unsubscribe =>
      calc S.sub.held (vs.foldl (fun m t => (S.sub.unsubscribe m t c).1)
        db'.subscriptions) (S.key c)
        _ = (S.sub.held db'.subscriptions (S.key c)).map fun f s => if s ∈ vs then none else f s :=
          held_unsubscribeAll vs _
        _ = (S.sub.held db.subscriptions (S.key c)).map fun f s => if s ∈ us then
          none else f s := by
          simp only [h.held, hmem]
        _ = S.sub.held (us.foldl (fun m t => (S.sub.unsubscribe m t c).1)
          db.subscriptions) (S.key c) :=
          (held_unsubscribeAll us _).symm
    all_goals exact h.held _
  · rw [op.held_onDb_ne db' vs hk, op.held_onDb_ne db us hk, h.held]

/-- One list after the other. -/
theorem sameMasks_append (db : BrokerDb S) (op : TopicOp) (us vs : List String) :
    SameMasks (op.onDb (op.onDb db c us) c vs) (op.onDb db c (us ++ vs)) := by
  have hcell : ∀ d, (∀ m, S.acl.mem ((op.onDb db c (us ++ vs)).cell d).exclusions m ↔
      S.acl.mem ((op.onDb (op.onDb db c us) c vs).cell d).exclusions m) ∧
      ((op.onDb db c (us ++ vs)).cell d).hasExclusions =
        ((op.onDb (op.onDb db c us) c vs).cell d).hasExclusions := by
    intro d
    rw [op.cell_onDb, op.cell_onDb]
    split
    · rw [op.cell_onDb, if_pos rfl]
      cases op
      case subscribe | unsubscribe => exact ⟨fun _ => .rfl, rfl⟩
      case exclude =>
        refine ⟨fun m => by simp only [TopicOp.onCell, List.foldl_append], ?_⟩
        cases us <;> cases vs <;> rfl
      case unexclude =>
        refine ⟨fun m => by simp only [TopicOp.onCell, List.foldl_append], ?_⟩
        change (if S.acl.isEmpty ((us ++ vs).foldl S.acl.remove (db.cell c).exclusions) then false
          else (db.cell c).hasExclusions) =
          if S.acl.isEmpty (vs.foldl S.acl.remove
            (us.foldl S.acl.remove (db.cell c).exclusions)) then false
          else if S.acl.isEmpty (us.foldl S.acl.remove (db.cell c).exclusions) then false
          else (db.cell c).hasExclusions
        rw [List.foldl_append]
        by_cases hend : S.acl.isEmpty (vs.foldl S.acl.remove
          (us.foldl S.acl.remove (db.cell c).exclusions)) = true
        · rw [if_pos hend, if_pos hend]
        · rw [if_neg hend, if_neg hend, if_neg]
          -- what is left at the end was there in between
          refine fun hmid => hend ((S.acl.isEmpty_iff _).mpr fun m hm => ?_)
          exact (S.acl.isEmpty_iff _).mp hmid m ((mem_removeAll m vs _).mp hm).2
    · rw [op.cell_onDb, if_neg ‹_›]
      exact ⟨fun _ => .rfl, rfl⟩
  refine ⟨fun k => ?_, fun d => (hcell d).1, fun d => (hcell d).2⟩
  cases op <;> simp only [TopicOp.onDb, TopicOp.act, execDb, Option.elim_some, List.foldl_append,
    setCell_subscriptions]

end Effect

/-! ### Over a socket -/

/-- The clients that write to a socket. -/
inductive Twin
  | async | sync
  deriving DecidableEq, Repr

/-- The bytes of an operation. -/
def Twin.bytes : Twin → UInt32 → ClientOp → List UInt8
  | async => Ipc.bytes
  | sync => SyncIpc.bytes

section Socket

variable (l : Limits) (aaa : Option (ClientAaa S)) (tw : Twin) (c : BrokerClient)

/-- What `handle_reader` makes of the bytes of an operation. -/
def overSocket (id : UInt32) (db : BrokerDb S) (o : ClientOp) : BrokerDb S :=
  match getRequest l (tw.bytes id o) with
  | .item (some r) _ => settle db (plan aaa c 0 r)
  | _ => db

/-- An operation for each topic, with the ids that follow. -/
def singles (op : TopicOp) (qos : QoS) : UInt32 → BrokerDb S → List String → BrokerDb S
  | _, db, [] => db
  | id, db, t :: ts =>
    singles op qos (incrementFrameId id) (overSocket l aaa tw c id db (op.one t qos)) ts

end Socket

/-- A bulk operation over a socket changes the masks as its single operations do and, since no
access rules bind these, as the method of `broker::Client` does without them: for every client of a
broker, whatever happened before. -/
def AsSingles (S : Submap) (l : Limits) (op : TopicOp) (ts : List String) : Prop :=
  ∀ (env : Env S) (force rpc : Bool) (q : ℕ+) (events : List (Event S)) (db : BrokerDb S)
    (ints : BrokerClient → Interest) (c : BrokerClient) (tw : Twin) (id : UInt32) (qos : QoS),
    Run (Happens env) (BrokerDb.empty S force rpc q, fun _ => .new) events (db, ints) →
      db.lookup c.name = some c →
      (∀ aaa, SameMasks (singles l aaa tw c op qos id db ts)
        (overSocket l aaa tw c id db (op.many ts qos))) ∧
        SameMasks (Local.perform env db c (op.many ts qos)).1
          (overSocket l none tw c id db (op.many ts qos))

section Socket

variable {l : Limits} {aaa : Option (ClientAaa S)} {tw : Twin} {c : BrokerClient} {db : BrokerDb S}

theorem Twin.bytes_eq (tw : Twin) (id : UInt32) (o : ClientOp) :
    tw.bytes id o = Ipc.bytes id o := by
  cases tw with
  | async => rfl
  | sync => exact bytes_sync id o

theorem overSocket_eq (hl : l.Exact) (op : TopicOp) {o : ClientOp} (hop : o.op = op.frameOp)
    (hfit : l.Allows o.body.length) {ts : List String}
    (hts : topicsOf (splitZeros o.body) = (ts, true)) (id : UInt32) :
    overSocket l aaa tw c id db o = op.onDb db c (op.admitted aaa ts) := by
  have hnop : o.op ≠ .nop := by rw [hop]; cases op <;> decide
  have hping : o ≠ .ping := by rintro rfl; exact hnop rfl
  have hget := getRequest_frame hl id o.qos hnop hfit []
  rw [List.append_nil] at hget
  have hplan : settle db (plan aaa c 0 ⟨toLe 4 id.toNat, o.op, o.qos, o.body, rfl⟩) = _ :=
    settle_plan aaa op hop (by rw [hts])
  rw [overSocket, tw.bytes_eq, bytes_frame id hping, hget]
  exact hplan.trans (by rw [hts])

theorem overSocket_one (hl : l.Exact) (op : TopicOp) {t : String} (ht : NulFree t)
    (hfit : l.Allows (utf8 t).length) (qos : QoS) (id : UInt32) :
    overSocket l aaa tw c id db (op.one t qos) = op.onDb db c (op.admitted aaa [t]) := by
  have hbody : (op.one t qos).body = utf8 t := by cases op <;> rfl
  refine overSocket_eq hl op (by cases op <;> rfl) ?_ ?_ id
  · rwa [hbody]
  · rw [hbody, topicsOf_one ht]

theorem overSocket_many (hl : l.Exact) (op : TopicOp) {ts : List String} (ht : ∀ t ∈ ts, NulFree t)
    (hfit : l.Allows (bulk ts).length) (qos : QoS) (id : UInt32) :
    overSocket l aaa tw c id db (op.many ts qos) =
      op.onDb db c (op.admitted aaa (sentTopics ts)) := by
  have hbody : (op.many ts qos).body = bulk ts := by cases op <;> rfl
  refine overSocket_eq hl op (by cases op <;> rfl) ?_ ?_ id
  · rwa [hbody]
  · rw [hbody, topicsOf_bulk ht]

theorem Limits.Allows.mono {m n : ℕ} (h : l.Allows n) (hle : m ≤ n) : l.Allows m :=
  ⟨hle.trans_lt h.1, fun limit hlim => hle.trans (h.2 limit hlim)⟩

/-- A topic alone is no longer than the list with it. -/
theorem length_le_bulk {ts : List String} {t : String} (ht : t ∈ ts) :
    (utf8 t).length ≤ (bulk ts).length := by
  have hle : ∀ (us : List String) (acc : List UInt8), acc.length ≤ (us.foldl (fun payload topic =>
      (if payload.isEmpty then payload else payload ++ [0]) ++ utf8 topic) acc).length := by
    intro us
    induction us with
    | nil => exact fun acc => le_rfl
    | cons u us ih =>
      intro acc
      calc acc.length
        _ ≤ ((if acc.isEmpty then acc else acc ++ [0]) ++ utf8 u).length := by split <;> simp
        _ ≤ _ := ih _
  obtain ⟨us, vs, rfl⟩ := List.append_of_mem ht
  rw [bulk, List.foldl_append, List.foldl_cons]
  refine le_trans ?_ (hle vs _)
  rw [List.length_append]
  omega

theorem TopicOp.admitted_append (op : TopicOp) (us vs : List String) :
    op.admitted aaa (us ++ vs) = op.admitted aaa us ++ op.admitted aaa vs := by
  cases op with
  | subscribe => exact List.filter_append ..
  | _ => rfl

theorem TopicOp.admitted_none (op : TopicOp) (ts : List String) :
    op.admitted (S := S) none ts = ts := by
  cases op with
  | subscribe => exact List.filter_eq_self.mpr fun _ _ => rfl
  | _ => rfl

theorem TopicOp.mem_admitted (op : TopicOp) {us vs : List String} (h : ∀ t, t ∈ us ↔ t ∈ vs)
    (t : String) :
    t ∈ op.admitted aaa us ↔ t ∈ op.admitted aaa vs := by
  cases op with
  | subscribe => simp only [TopicOp.admitted, List.mem_filter, h]
  | _ => exact h t

/-- The single operations do what one operation with all the topics does. -/
theorem sameMasks_singles (hl : l.Exact) (op : TopicOp) (qos : QoS) :
    ∀ (ts : List String) (id : UInt32) (db : BrokerDb S),
    ts ≠ [] → (∀ t ∈ ts, NulFree t ∧ l.Allows (utf8 t).length) →
      SameMasks (singles l aaa tw c op qos id db ts) (op.onDb db c (op.admitted aaa ts))
  | [], _, _, h, _ => absurd rfl h
  | t :: ts, id, db, _, ht => by
    obtain ⟨hn, hfit⟩ := ht t List.mem_cons_self
    rw [singles, overSocket_one hl op hn hfit]
    by_cases hts : ts = []
    · subst hts
      exact .refl _
    · have ih := sameMasks_singles hl op qos ts (incrementFrameId id)
        (op.onDb db c (op.admitted aaa [t])) hts
        fun u hu => ht u (List.mem_cons_of_mem t hu)
      have happ := sameMasks_append (c := c) db op (op.admitted aaa [t]) (op.admitted aaa ts)
      rw [← op.admitted_append] at happ
      exact ih.trans happ

/-- The method of `broker::Client` does so too: where it would stop, it had nothing to change. -/
theorem sameMasks_perform (env : Env S) (op : TopicOp) (ts : List String) (qos : QoS) :
    SameMasks (Local.perform env db c (op.many ts qos)).1 (op.onDb db c ts) := by
  obtain ⟨m, hm, hheld⟩ := perform_many env op ts qos
  rw [hm]
  exact ⟨fun k => (hheld k).symm, fun _ _ => .rfl, fun _ => rfl⟩

end Socket

/-! ### Exactly the lists that keep their topics -/

namespace TopicOp

/-- The masks that the operation is about. -/
def about (i : Interest) : TopicOp → List String
  | subscribe | unsubscribe => i.subscribed
  | exclude | unexclude => i.excluded

/-- The client has the mask. -/
def Has (db : BrokerDb S) (c : BrokerClient) (m : String) : TopicOp → Prop
  | subscribe | unsubscribe => ∃ f, S.sub.held db.subscriptions (S.key c) = some f ∧ f m ≠ none
  | exclude | unexclude => S.acl.mem (db.cell c).exclusions m

/-- The operation brings masks in. -/
def adds : TopicOp → Bool
  | subscribe | exclude => true
  | unsubscribe | unexclude => false

theorem mem_about_note (op : TopicOp) (ts : List String) (i : Interest) (m : String) :
    m ∈ op.about (op.note ts i) ↔ if op.adds then m ∈ op.about i ∨
      m ∈ ts else m ∈ op.about i ∧ m ∉ ts := by
  cases op <;> simp [about, note, adds]

end TopicOp

theorem SameMasks.has {db db' : BrokerDb S} (h : SameMasks db db') (op : TopicOp) (c : BrokerClient)
    (m : String) :
    op.Has db' c m ↔ op.Has db c m := by
  cases op with
  | subscribe | unsubscribe => simp only [TopicOp.Has, h.held]
  | exclude | unexclude => exact h.mem c m

theorem Minded.has_iff {ints : BrokerClient → Interest} {db : BrokerDb S} (h : Minded ints db)
    {c : BrokerClient} (hc : db.lookup c.name = some c) (op : TopicOp) (m : String) :
    op.Has db c m ↔ m ∈ op.about (ints c) := by
  cases op with
  | subscribe | unsubscribe =>
    obtain ⟨g, hg, hown⟩ := h.owns c.name c hc
    refine ⟨fun ⟨f, hf, hm⟩ => ?_, fun hm => ⟨g, hg, fun hn => ?_⟩⟩
    · obtain rfl := Option.some.inj (hg.symm.trans hf)
      rw [hown] at hm
      exact of_not_not fun hn => hm (if_neg hn)
    · exact absurd ((hown m).symm.trans hn) (by rw [if_pos]; exacts [nofun, hm])
  | exclude | unexclude => exact (h.shuns c ((h.inv.registered_iff c).mpr hc)).mem m

namespace Masks

/-- The only client of a broker. -/
def client : BrokerClient := ⟨0, "w", .tcp, none, none⟩

/-- It comes, and what it is to lose it has asked for. -/
def start (S : Submap) : TopicOp → List (Event S)
  | .subscribe | .exclude => [.registry (.register "w" .tcp none none)]
  | .unsubscribe =>
    [.registry (.register "w" .tcp none none), .call client (.one .subscribe "" .no)]
  | .unexclude => [.registry (.register "w" .tcp none none), .call client (.one .exclude "" .no)]

/-- The broker and the notes then. -/
def started (env : Env S) (op : TopicOp) : BrokerDb S × (BrokerClient → Interest) :=
  (start S op).foldl (Event.run env) (BrokerDb.empty S false false 1, fun _ => .new)

/-- After the first event. -/
def first (S : Submap) : BrokerDb S :=
  ((BrokerDb.empty S false false 1).alloc "w" .tcp none none).2.link client none

theorem exec_register :
    ((Op.register "w" .tcp none none).exec (BrokerDb.empty S false false 1)).1 = first S := by
  have hp : client.primary = true := by decide
  change (registerClient ((BrokerDb.empty S false false 1).alloc "w" .tcp none none).2 client).1 = _
  rw [registerClient, insertClient, hp]
  rfl

theorem lookup_first : (first S).lookup client.name = some client := by
  rw [first, lookup_link, if_pos rfl]

theorem run_call (env : Env S) (op : TopicOp) :
    (Event.call client (.one op "" .no)).run env (first S, fun _ => .new) =
      (op.onDb (first S) client [""],
        Function.update (fun _ => .new) client (op.note [""] .new)) := by
  exact Prod.ext (perform_one ..) rfl

/-- What was there to be lost. -/
def lost : TopicOp → Option TopicOp
  | .subscribe | .exclude => none
  | .unsubscribe => some .subscribe
  | .unexclude => some .exclude

theorem run_register (env : Env S) :
    (Event.registry (.register "w" .tcp none none)).run env (BrokerDb.empty S false false 1,
      fun _ => .new) =
      (first S, fun _ => .new) :=
  Prod.ext exec_register rfl

theorem run_started (env : Env S) (op : TopicOp) :
    Run (Guarded (Happens env) ByHolder) (BrokerDb.empty S false false 1,
      fun _ => .new) (start S op)
      (started env op) := by
  have hcall : ∀ op' :
      TopicOp, Guarded (Happens env) ByHolder (first S, fun _ => .new)
      (.call client (.one op' "" .no))
      ((Event.call client (.one op' "" .no)).run env (first S, fun _ => .new)) := fun op' =>
    ⟨fun _ d hd => Option.some.inj (hd.symm.trans lookup_first), Nat.zero_lt_one, rfl⟩
  have hregister : Guarded (Happens env) ByHolder (BrokerDb.empty S false false 1, fun _ => .new)
      (.registry (.register "w" .tcp none none)) (first S, fun _ => .new) :=
        ⟨trivial, trivial, (run_register env).symm⟩
  cases op <;> simp only [started, start, List.foldl_cons, List.foldl_nil, run_register]
  case subscribe | exclude => exact .single hregister
  case unsubscribe => exact .cons hregister (.single (hcall .subscribe))
  case unexclude => exact .cons hregister (.single (hcall .exclude))

theorem minded_started (env : Env S) (op : TopicOp) :
    Minded (started env op).2 (started env op).1 :=
  (run_started env op).inv (I := fun p => Minded p.2 p.1)
    (fun _ _ _ hp he => hp.step he) (minded_empty false false 1)

theorem started_eq (env : Env S) (op : TopicOp) : started env op = match lost op with
    | none => (first S, fun _ => .new)
    | some op =>
      (op.onDb (first S) client [""],
        Function.update (fun _ => .new) client (op.note [""] .new)) := by
  cases op <;> simp only [started, start, List.foldl_cons, List.foldl_nil, run_register, lost]
  case unsubscribe => exact run_call env .subscribe
  case unexclude => exact run_call env .exclude

theorem lookup_started (env : Env S) (op : TopicOp) :
    (started env op).1.lookup client.name = some client := by
  rw [started_eq]
  cases op with
  | subscribe | exclude => exact lookup_first
  | unsubscribe | unexclude => exact (TopicOp.lookup_onDb ..).trans lookup_first

theorem about_started (env : Env S) (op : TopicOp) :
    "" ∈ op.about ((started env op).2 client) ↔ op.adds = false := by
  rw [started_eq]
  cases op <;> simp [lost, TopicOp.about, TopicOp.note, TopicOp.adds, Interest.new,
    BROKER_WARN_TOPIC]

end Masks

section Exactly

variable {l : Limits} {op : TopicOp} {ts : List String}

open Masks in
/-- A list with other topics does other things: the empty topic is lost, or it comes in. -/
theorem keepsTopics_of_asSingles (hl : l.Exact) (ht : ∀ t ∈ ts, NulFree t)
    (hfit : l.Allows (bulk ts).length) (h : AsSingles S l op ts) : KeepsTopics ts := by
  rw [keepsTopics_iff]
  let env : Env S := firstEnv S fun _ => false
  have hm := minded_started env op
  have hlook := lookup_started env op
  have hid : client.id < (started env op).1.nextId := hm.inv.fresh _ _ hlook
  have hc : Unreplaced (started env op).1 client :=
    fun d hd => Option.some.inj (hd.symm.trans hlook)
  -- what an operation on some topics does, and whether the empty one is among them
  have hhas : ∀ us, op.Has (op.onDb (started env op).1 client us) client "" ↔
      (op.adds = true ↔ "" ∈ us) := by
    intro us
    rw [(hm.topics hid op (fun _ => hc) us).has_iff ((op.lookup_onDb us _).trans hlook),
      Function.update_self, op.mem_about_note, about_started]
    cases op.adds <;> simp
  have hsingles : op.Has (singles l none .async client op .no 0 (started env op).1 ts) client "" ↔
      (op.adds = true ↔ "" ∈ ts) := by
    by_cases hts : ts = []
    · subst hts
      rw [singles, hm.has_iff hlook, about_started]
      simp
    · rw [← (sameMasks_singles hl op .no ts 0 (started env op).1 hts
        fun t hu => ⟨ht t hu, hfit.mono (length_le_bulk hu)⟩).has op client "", op.admitted_none]
      exact hhas ts
  have heq :
      op.Has (overSocket l none .async client 0 (started env op).1 (op.many ts .no)) client "" ↔
      op.Has (singles l none .async client op .no 0 (started env op).1 ts) client "" :=
    ((h env false false 1 (start S op) _ _ client .async 0 .no
      ((run_started env op).mono fun _ _ _ he => he.2) hlook).1 none).has op client ""
  rw [hsingles, overSocket_many hl op ht hfit, op.admitted_none, hhas] at heq
  cases hadds : op.adds <;> simpa [hadds, not_iff_not] using heq

/-- **A bulk operation over a socket is its single operations** exactly for the lists that keep
their topics. -/
theorem bulk_iff (hl : l.Exact) (ht : ∀ t ∈ ts, NulFree t) (hfit : l.Allows (bulk ts).length) :
    AsSingles S l op ts ↔ KeepsTopics ts := by
  refine ⟨keepsTopics_of_asSingles hl ht hfit,
    fun h env force rpc q events db ints c tw id qos _ _ => ?_⟩
  have hmem : ∀ (aaa : Option (ClientAaa S)) t, t ∈ op.admitted aaa (sentTopics ts) ↔
      t ∈ op.admitted aaa ts :=
    fun aaa t => op.mem_admitted h.mem t
  refine ⟨fun aaa => ?_, ?_⟩
  · rw [overSocket_many hl op ht hfit]
    refine (sameMasks_singles hl op qos ts id db h.1 fun t hu =>
      ⟨ht t hu, hfit.mono (length_le_bulk hu)⟩).trans ?_
    exact sameMasks_of_mem (.refl db) op fun t => (hmem aaa t).symm
  · rw [overSocket_many hl op ht hfit, op.admitted_none]
    exact (sameMasks_perform env op ts qos).trans
      (sameMasks_of_mem (.refl db) op fun t => (h.mem t).symm)

end Exactly

/-- A list that begins with an empty topic keeps it if it is there twice. -/
theorem bulk_iff_twice :
    AsSingles reference {} .exclude ["", "a", ""] ↔ KeepsTopics ["", "a", ""] :=
  bulk_iff (fun _ => rfl) (by decide) ⟨by decide, nofun⟩

/-- The empty list brings the empty topic in, and an empty topic at the front is lost. -/
theorem stray_topic :
    ¬ AsSingles reference {} .subscribe [] ∧ ¬ AsSingles reference {} .subscribe ["", "a"] := by
  have hall : ∀ n < 2 ^ 32, Limits.Allows {} n := fun n hn => ⟨hn, nofun⟩
  refine ⟨fun h => ?_, fun h => ?_⟩
  · exact absurd (keepsTopics_of_asSingles (fun _ => rfl)
      (by decide) (hall _ (by decide)) h) (by decide)
  · exact absurd (keepsTopics_of_asSingles (fun _ => rfl)
      (by decide) (hall _ (by decide)) h) (by decide)

end Busrt
