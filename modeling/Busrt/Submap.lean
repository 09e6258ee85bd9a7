/-
# What the broker relies on of the `submap` crate

`submap` is not part of the repository, so its three maps and its digest are
a parameter of the model: `Submap` lists the operations the broker calls and
what it relies on of each. A map is seen through an observation (`held`,
`mem`), and each operation is described by how it changes it.

* `SubMap` and `BroadcastMap` know a client by its `Ord`/`Eq`, that is by the
  digest of its name: an entry made for one instance is found, kept or removed
  through any other instance of the same name. A registration of a key that is
  already there, and a subscription to a topic already recorded for the key,
  change nothing, so the instance stored first stays.
* `get_subscribers` and `get_clients_by_mask` return each key at most once, and
  who is returned for a key does not depend on whether another is registered.
* `AclMap` is a set of masks, matched against a literal string.

Whether a mask's last wildcard also stands for no chunk at all is left open
(`zero`).

`reference` is a map of this kind on lists, with the name for its digest.
-/
import Busrt.Basic
import Busrt.Lib.Mask
import Mathlib.Data.List.AList

namespace Busrt

open Lib

/-- The mask language of topics: `/`, `+`, `#`. -/
def topicCfg (zero : Bool) : Cfg := ⟨'/', "+", "#", zero⟩

/-- The mask language of client names: `.`, `?`, `*`. -/
def peerCfg (zero : Bool) : Cfg := ⟨'.', "?", "*", zero⟩

/-- `submap::SubMap<BrokerClient>`. `held m k` is what the map holds for the
key `k`: nothing if the client is not registered, else for each recorded topic
the instance stored with it. -/
structure SubMapApi {K : Type} (key : BrokerClient → K) (zero : Bool) where
  T : Type
  new : T
  registerClient : T → BrokerClient → T
  unregisterClient : T → BrokerClient → T
  subscribe : T → String → BrokerClient → T × Bool
  unsubscribe : T → String → BrokerClient → T × Bool
  getSubscribers : T → String → List BrokerClient
  held : T → K → Option (String → Option BrokerClient)
  held_new : ∀ k, held new k = none
  held_register : ∀ m c, held (registerClient m c) (key c) =
    some ((held m (key c)).getD fun _ => none)
  held_register_ne : ∀ m c k, k ≠ key c → held (registerClient m c) k = held m k
  held_unregister : ∀ m c, held (unregisterClient m c) (key c) = none
  held_unregister_ne : ∀ m c k, k ≠ key c → held (unregisterClient m c) k = held m k
  held_subscribe : ∀ m t c, held (subscribe m t c).1 (key c) = (held m (key c)).map fun f s =>
    if s = t then some ((f t).getD c) else f s
  held_subscribe_ne : ∀ m t c k, k ≠ key c → held (subscribe m t c).1 k = held m k
  subscribe_ok : ∀ m t c, (subscribe m t c).2 = (held m (key c)).isSome
  held_unsubscribe : ∀ m t c, held (unsubscribe m t c).1 (key c) = (held m (key c)).map fun f s =>
    if s = t then none else f s
  held_unsubscribe_ne : ∀ m t c k, k ≠ key c → held (unsubscribe m t c).1 k = held m k
  unsubscribe_ok : ∀ m t c, (unsubscribe m t c).2 = (held m (key c)).isSome
  nodup_getSubscribers : ∀ m t, ((getSubscribers m t).map key).Nodup
  of_mem_getSubscribers : ∀ m t c, c ∈ getSubscribers m t →
    ∃ f mask, held m (key c) = some f ∧ f mask = some c ∧ (topicCfg zero).isMatch mask t = true
  mem_getSubscribers : ∀ m t k f mask c, held m k = some f → f mask = some c →
    (topicCfg zero).isMatch mask t = true → ∃ c' ∈ getSubscribers m t, key c' = k
  getSubscribers_unregister_ne : ∀ m t c d, key d ≠ key c →
    (d ∈ getSubscribers (unregisterClient m c) t ↔ d ∈ getSubscribers m t)

/-- `submap::BroadcastMap<BrokerClient>`, with each client registered under its
own name. -/
structure BroadcastMapApi {K : Type} (key : BrokerClient → K) (zero : Bool) where
  T : Type
  new : T
  registerClient : T → BrokerClient → T
  unregisterClient : T → BrokerClient → T
  getClientsByMask : T → String → List BrokerClient
  held : T → K → Option BrokerClient
  held_new : ∀ k, held new k = none
  held_register : ∀ m c, held (registerClient m c) (key c) = some ((held m (key c)).getD c)
  held_register_ne : ∀ m c k, k ≠ key c → held (registerClient m c) k = held m k
  held_unregister : ∀ m c, held (unregisterClient m c) (key c) = none
  held_unregister_ne : ∀ m c k, k ≠ key c → held (unregisterClient m c) k = held m k
  nodup_getClientsByMask : ∀ m mask, ((getClientsByMask m mask).map key).Nodup
  mem_getClientsByMask : ∀ m mask c, c ∈ getClientsByMask m mask ↔
    held m (key c) = some c ∧ (peerCfg zero).isMatch mask c.name = true

/-- `submap::AclMap`: `mem a m` says that the mask `m` is in it. -/
structure AclMapApi where
  T : Type
  /-- The separator and wildcards of `AclMap::new()` alone. -/
  defaultCfg : Cfg
  new : Cfg → T
  insert : T → String → T
  remove : T → String → T
  isEmpty : T → Bool
  isMatch : T → String → Bool
  cfg : T → Cfg
  mem : T → String → Prop
  cfg_new : ∀ k, cfg (new k) = k
  cfg_insert : ∀ a m, cfg (insert a m) = cfg a
  cfg_remove : ∀ a m, cfg (remove a m) = cfg a
  mem_new : ∀ k m, ¬ mem (new k) m
  mem_insert : ∀ a m x, mem (insert a m) x ↔ x = m ∨ mem a x
  mem_remove : ∀ a m x, mem (remove a m) x ↔ x ≠ m ∧ mem a x
  isEmpty_iff : ∀ a, isEmpty a = true ↔ ∀ m, ¬ mem a m
  isMatch_iff : ∀ a s, isMatch a s = true ↔ ∃ m, mem a m ∧ (cfg a).isMatch m s = true

/-- The crate: a digest that tells names apart, and the three maps. -/
structure Submap where
  zero : Bool
  Key : Type
  sha256 : String → Key
  sha256_inj : ∀ a b, sha256 a = sha256 b → a = b
  sub : SubMapApi (fun c => sha256 c.name) zero
  bcast : BroadcastMapApi (fun c => sha256 c.name) zero
  acl : AclMapApi

namespace Submap

variable (S : Submap)

/-- `BusRtClient::digest`, by which `PartialEq` and `Ord` compare clients. -/
def key (c : BrokerClient) : S.Key := S.sha256 c.name

theorem key_ne {c : BrokerClient} {n : String} (h : n ≠ c.name) : S.sha256 n ≠ S.key c :=
  fun he => h (S.sha256_inj _ _ he)

/-- After a client's key was taken out, the other subscribers are left. -/
theorem mem_getSubscribers_unregister (m : S.sub.T) (t : String) (c d : BrokerClient) :
    d ∈ S.sub.getSubscribers (S.sub.unregisterClient m c) t ↔
      d ∈ S.sub.getSubscribers m t ∧ d.name ≠ c.name := by
  by_cases hn : d.name = c.name
  · refine ⟨fun h => ?_, fun h => absurd hn h.2⟩
    obtain ⟨f, mask, hf, -⟩ := S.sub.of_mem_getSubscribers _ t d h
    simp only [hn, S.sub.held_unregister] at hf
    cases hf
  · rw [S.sub.getSubscribers_unregister_ne m t c d fun h => hn (S.sha256_inj _ _ h)]
    exact ⟨fun h => ⟨h, hn⟩, fun h => h.1⟩

/-- A client taken out: its key is gone, the others are as they were. -/
theorem held_unregister_or (m : S.sub.T) (c : BrokerClient) (k : S.Key) :
    S.sub.held (S.sub.unregisterClient m c) k = S.sub.held m k ∨
      S.sub.held (S.sub.unregisterClient m c) k = none := by
  by_cases hk : k = S.key c
  · right; rw [hk, key, S.sub.held_unregister]
  · left; rw [S.sub.held_unregister_ne _ _ _ hk]

/-- The map records for the key `k` the topic `mask` with the instance `d`. -/
def Recorded (m : S.sub.T) (k : S.Key) (mask : String) (d : BrokerClient) : Prop :=
  ∃ g, S.sub.held m k = some g ∧ g mask = some d

section Recorded

variable {S} {m : S.sub.T} {k : S.Key} {mask t : String} {c d : BrokerClient}

theorem not_recorded_new : ¬ S.Recorded S.sub.new k mask d := by
  rintro ⟨g, hg, -⟩
  rw [S.sub.held_new] at hg
  cases hg

theorem recorded_of_register (h : S.Recorded (S.sub.registerClient m c) k mask d) :
    S.Recorded m k mask d := by
  obtain ⟨g, hg, hd⟩ := h
  by_cases hk : k = S.key c
  · subst hk
    rw [key, S.sub.held_register, Option.some.injEq] at hg
    rcases hm : S.sub.held m (S.sha256 c.name) with _ | g'
    · rw [hm] at hg; rw [← hg] at hd; cases hd
    · rw [hm] at hg; exact ⟨g', hm, by rw [← hg] at hd; exact hd⟩
  · rw [S.sub.held_register_ne _ _ _ hk] at hg; exact ⟨g, hg, hd⟩

/-- A subscription adds at most its topic, with its own instance. -/
theorem recorded_of_subscribe (h : S.Recorded (S.sub.subscribe m t c).1 k mask d) :
    S.Recorded m k mask d ∨ (mask = t ∧ d = c) := by
  obtain ⟨g, hg, hd⟩ := h
  by_cases hk : k = S.key c
  · subst hk
    rw [key, S.sub.held_subscribe] at hg
    obtain ⟨g', hm, rfl⟩ := Option.map_eq_some_iff.mp hg
    simp only at hd
    split at hd
    · rename_i ht
      rcases hgt : g' t with _ | e
      · rw [hgt] at hd; exact .inr ⟨ht, (Option.some.inj hd).symm⟩
      · rw [hgt] at hd; exact .inl ⟨g', hm, by rw [ht, hgt, ← hd]; rfl⟩
    · exact .inl ⟨g', hm, hd⟩
  · rw [S.sub.held_subscribe_ne _ _ _ _ hk] at hg; exact .inl ⟨g, hg, hd⟩

theorem recorded_of_unsubscribe (h : S.Recorded (S.sub.unsubscribe m t c).1 k mask d) :
    S.Recorded m k mask d := by
  obtain ⟨g, hg, hd⟩ := h
  by_cases hk : k = S.key c
  · subst hk
    rw [key, S.sub.held_unsubscribe] at hg
    obtain ⟨g', hm, rfl⟩ := Option.map_eq_some_iff.mp hg
    simp only at hd
    split at hd
    · cases hd
    · exact ⟨g', hm, hd⟩
  · rw [S.sub.held_unsubscribe_ne _ _ _ _ hk] at hg; exact ⟨g, hg, hd⟩

end Recorded

end Submap

/-! ### A map of this kind -/

namespace Reference

/-- For each registered name its topics, each with the instance stored. -/
structure SubMap where
  held : AList fun _ : String => List (String × BrokerClient)
  named : ∀ n l, held.lookup n = some l → ∀ x ∈ l, x.2.name = n

namespace SubMap

def new : SubMap := ⟨∅, fun n l h => by simp at h⟩

/-- Replace what is held for the name of `c`. -/
def set (m : SubMap) (c : BrokerClient) (l : List (String × BrokerClient))
    (hl : ∀ x ∈ l, x.2.name = c.name) : SubMap where
  held := m.held.insert c.name l
  named n l' h := by
    by_cases hn : n = c.name
    · subst hn
      rw [AList.lookup_insert, Option.some.injEq] at h
      exact h ▸ hl
    · rw [AList.lookup_insert_ne hn] at h
      exact m.named n l' h

def registerClient (m : SubMap) (c : BrokerClient) : SubMap :=
  match m.held.lookup c.name with
  | none => m.set c [] (by simp)
  | some _ => m

def unregisterClient (m : SubMap) (c : BrokerClient) : SubMap where
  held := m.held.erase c.name
  named n l h := by
    by_cases hn : n = c.name
    · rw [hn, AList.lookup_erase] at h; cases h
    · rw [AList.lookup_erase_ne hn] at h
      exact m.named n l h

def subscribe (m : SubMap) (t : String) (c : BrokerClient) : SubMap × Bool :=
  match h : m.held.lookup c.name with
  | none => (m, false)
  | some l =>
    if (l.lookup t).isSome then (m, true)
    else (m.set c ((t, c) :: l) (by
      intro x hx
      rcases List.mem_cons.mp hx with rfl | hx
      · rfl
      · exact m.named _ _ h x hx), true)

def unsubscribe (m : SubMap) (t : String) (c : BrokerClient) : SubMap × Bool :=
  match h : m.held.lookup c.name with
  | none => (m, false)
  | some l =>
    (m.set c (l.filter (·.1 != t)) fun x hx => m.named _ _ h x (List.mem_of_mem_filter hx), true)

/-- The first matching topic of each name decides the instance. -/
def getSubscribers (zero : Bool) (m : SubMap) (t : String) : List BrokerClient :=
  m.held.entries.filterMap fun e => (e.2.find? fun x => (topicCfg zero).isMatch x.1 t).map (·.2)

def view (m : SubMap) (k : String) : Option (String → Option BrokerClient) :=
  (m.held.lookup k).map fun l t => l.lookup t

theorem view_set (m : SubMap) (c : BrokerClient) (l hl) :
    (m.set c l hl).view c.name = some fun t => l.lookup t := by
  simp [view, set]

theorem lookup_cons_ne {a s : String} (h : s ≠ a) (d : BrokerClient)
    (l : List (String × BrokerClient)) :
    ((a, d) :: l).lookup s = l.lookup s := by
  rw [List.lookup_cons, beq_eq_false_iff_ne.mpr h]

theorem view_subscribe (m : SubMap) (t : String) (c : BrokerClient) :
    (m.subscribe t c).1.view c.name =
      (m.view c.name).map fun f s => if s = t then some ((f t).getD c) else f s := by
  unfold subscribe
  split
  · rename_i h; simp [view, h]
  · rename_i l h
    split
    · rename_i hs
      obtain ⟨d, hd⟩ := Option.isSome_iff_exists.mp hs
      simp only [view, h, Option.map_some, Option.some.injEq]
      funext s
      by_cases hst : s = t
      · subst hst; simp [hd]
      · simp [hst]
    · rename_i hs
      have hn : l.lookup t = none := Option.not_isSome_iff_eq_none.mp hs
      rw [view_set]
      simp only [view, h, Option.map_some, Option.some.injEq]
      funext s
      by_cases hst : s = t
      · subst hst; simp [hn]
      · rw [if_neg hst, lookup_cons_ne hst]

theorem lookup_filter_ne (t s : String) : ∀ l : List (String × BrokerClient),
    (l.filter (·.1 != t)).lookup s = if s = t then none else l.lookup s
  | [] => by simp
  | (a, d) :: l => by
    have ih := lookup_filter_ne t s l
    by_cases ha : a = t
    · subst ha
      simp only [List.filter_cons, bne_self_eq_false, Bool.false_eq_true, if_false, ih]
      by_cases hs : s = a
      · simp [hs]
      · rw [if_neg hs, if_neg hs, lookup_cons_ne hs]
    · have hat : (a != t) = true := bne_iff_ne.mpr ha
      simp only [List.filter_cons, hat, if_true]
      by_cases hs : s = a
      · subst hs; simp [ha]
      · rw [lookup_cons_ne hs, lookup_cons_ne hs, ih]

theorem view_unsubscribe (m : SubMap) (t : String) (c : BrokerClient) :
    (m.unsubscribe t c).1.view c.name =
      (m.view c.name).map fun f s => if s = t then none else f s := by
  unfold unsubscribe
  split
  · rename_i h; simp [view, h]
  · rename_i l h
    rw [view_set]
    simp only [view, h, Option.map_some, Option.some.injEq]
    funext s
    exact lookup_filter_ne t s l

theorem mem_of_lookup {t : String} {c : BrokerClient} : ∀ {l : List (String × BrokerClient)},
    l.lookup t = some c → (t, c) ∈ l
  | [], h => by simp at h
  | (a, d) :: l, h => by
    by_cases hta : t = a
    · subst hta; simp at h; simp [h]
    · rw [lookup_cons_ne hta] at h
      exact List.mem_cons_of_mem _ (mem_of_lookup h)

/-- The first entry that matches is the entry of its own topic. -/
theorem lookup_of_find? {zero : Bool} {t : String} {x : String × BrokerClient} :
    ∀ {l : List (String × BrokerClient)},
      l.find? (fun x => (topicCfg zero).isMatch x.1 t) = some x → l.lookup x.1 = some x.2
  | [], h => by simp at h
  | (a, d) :: l, h => by
    rw [List.find?_cons] at h
    split at h
    · simp only [Option.some.injEq] at h; subst h; simp
    · rename_i ha
      have hx := List.find?_some h
      have hne : x.1 ≠ a := by
        rintro rfl
        simp [hx] at ha
      rw [lookup_cons_ne hne]
      exact lookup_of_find? h

/-- What a subscriber comes from: an entry for its name, with a matching topic. -/
theorem mem_getSubscribers {zero : Bool} {m : SubMap} {t : String} {c : BrokerClient} :
    c ∈ m.getSubscribers zero t ↔ ∃ n l x, m.held.lookup n = some l ∧
      l.find? (fun x => (topicCfg zero).isMatch x.1 t) = some x ∧ x.2 = c := by
  unfold getSubscribers
  rw [List.mem_filterMap]
  constructor
  · rintro ⟨⟨n, l⟩, he, hx⟩
    obtain ⟨x, hf, hc⟩ := Option.map_eq_some_iff.mp hx
    exact ⟨n, l, x, AList.mem_lookup_iff.mpr he, hf, hc⟩
  · rintro ⟨n, l, x, hl, hf, rfl⟩
    exact ⟨⟨n, l⟩, AList.mem_lookup_iff.mp hl, by simp [hf]⟩

theorem nodup_names (zero : Bool) (m : SubMap) (t : String) :
    ((m.getSubscribers zero t).map (·.name)).Nodup := by
  have hsub : ((m.getSubscribers zero t).map (·.name)).Sublist m.held.keys := by
    have : ∀ es : List (Sigma fun _ : String => List (String × BrokerClient)),
        (∀ e ∈ es, e ∈ m.held.entries) →
        ((es.filterMap fun e => (e.2.find? fun x => (topicCfg zero).isMatch x.1 t).map (·.2)).map
          (·.name)).Sublist es.keys := by
      intro es hes
      induction es with
      | nil => simp
      | cons e es ih =>
        have ih := ih fun x hx => hes x (List.mem_cons_of_mem _ hx)
        rcases hf : e.2.find? (fun x => (topicCfg zero).isMatch x.1 t) with _ | x
        · simpa [hf] using ih.cons _
        · have hn : x.2.name = e.1 :=
            m.named e.1 e.2 (AList.mem_lookup_iff.mpr (hes e List.mem_cons_self)) x
              (List.mem_of_find?_eq_some hf)
          simpa [hf, hn] using ih
    exact this _ fun _ h => h
  exact m.held.keys_nodup.sublist hsub

end SubMap

/-- `reference`'s `SubMap`. -/
def sub (zero : Bool) : SubMapApi (fun c => c.name) zero where
  T := SubMap
  new := SubMap.new
  registerClient := SubMap.registerClient
  unregisterClient := SubMap.unregisterClient
  subscribe := SubMap.subscribe
  unsubscribe := SubMap.unsubscribe
  getSubscribers := SubMap.getSubscribers zero
  held := SubMap.view
  held_new k := by simp [SubMap.view, SubMap.new]
  held_register m c := by
    unfold SubMap.registerClient
    split
    · rename_i h; rw [SubMap.view_set]; simp [SubMap.view, h]
    · rename_i l h; simp [SubMap.view, h]
  held_register_ne m c k h := by
    unfold SubMap.registerClient
    split
    · simp [SubMap.view, SubMap.set, AList.lookup_insert_ne h]
    · rfl
  held_unregister m c := by simp [SubMap.view, SubMap.unregisterClient]
  held_unregister_ne m c k h := by
    simp [SubMap.view, SubMap.unregisterClient, AList.lookup_erase_ne h]
  held_subscribe := SubMap.view_subscribe
  held_subscribe_ne m t c k h := by
    unfold SubMap.subscribe
    split
    · rfl
    · split
      · rfl
      · simp [SubMap.view, SubMap.set, AList.lookup_insert_ne h]
  subscribe_ok m t c := by
    unfold SubMap.subscribe
    split
    · rename_i h; simp [SubMap.view, h]
    · rename_i l h; split <;> simp [SubMap.view, h]
  held_unsubscribe := SubMap.view_unsubscribe
  held_unsubscribe_ne m t c k h := by
    unfold SubMap.unsubscribe
    split
    · rfl
    · simp [SubMap.view, SubMap.set, AList.lookup_insert_ne h]
  unsubscribe_ok m t c := by
    unfold SubMap.unsubscribe
    split
    · rename_i h; simp [SubMap.view, h]
    · rename_i l h; simp [SubMap.view, h]
  nodup_getSubscribers := SubMap.nodup_names zero
  of_mem_getSubscribers m t c h := by
    obtain ⟨n, l, x, hl, hf, rfl⟩ := SubMap.mem_getSubscribers.mp h
    obtain rfl := m.named n l hl x (List.mem_of_find?_eq_some hf)
    have hm : (topicCfg zero).isMatch x.1 t = true :=
      List.find?_some (p := fun x : String × BrokerClient => (topicCfg zero).isMatch x.1 t) hf
    exact ⟨fun s => l.lookup s, x.1, by simp [SubMap.view, hl],
      SubMap.lookup_of_find? hf, hm⟩
  mem_getSubscribers m t k f mask c hk hc hm := by
    obtain ⟨l, hl, rfl⟩ := Option.map_eq_some_iff.mp hk
    have hmem : (mask, c) ∈ l := SubMap.mem_of_lookup hc
    obtain ⟨x, hx⟩ := Option.isSome_iff_exists.mp (List.find?_isSome
      (p := fun x : String × BrokerClient => (topicCfg zero).isMatch x.1 t).mpr
        ⟨(mask, c), hmem, hm⟩)
    exact ⟨x.2, SubMap.mem_getSubscribers.mpr ⟨k, l, x, hl, hx, rfl⟩,
      m.named k l hl x (List.mem_of_find?_eq_some hx)⟩
  getSubscribers_unregister_ne m t c d hd := by
    rw [SubMap.mem_getSubscribers, SubMap.mem_getSubscribers]
    have hne : ∀ n (l : List (String × BrokerClient)) x,
        l.find? (fun x => (topicCfg zero).isMatch x.1 t) = some x →
        x.2 = d → (∀ y ∈ l, y.2.name = n) → n ≠ c.name := by
      rintro n l x hf rfl hn rfl
      exact hd (hn x (List.mem_of_find?_eq_some hf))
    constructor
    · rintro ⟨n, l, x, hl, hf, rfl⟩
      have hn := hne n l x hf rfl ((m.unregisterClient c).named n l hl)
      rw [SubMap.unregisterClient, AList.lookup_erase_ne hn] at hl
      exact ⟨n, l, x, hl, hf, rfl⟩
    · rintro ⟨n, l, x, hl, hf, rfl⟩
      have hn := hne n l x hf rfl (m.named n l hl)
      exact ⟨n, l, x, by rw [SubMap.unregisterClient, AList.lookup_erase_ne hn]; exact hl, hf, rfl⟩

/-- The registered instances, at most one of a name. -/
structure BroadcastMap where
  clients : AList fun _ : String => BrokerClient
  named : ∀ n c, clients.lookup n = some c → c.name = n

namespace BroadcastMap

def new : BroadcastMap := ⟨∅, fun n c h => by simp at h⟩

def registerClient (m : BroadcastMap) (c : BrokerClient) : BroadcastMap where
  clients := match m.clients.lookup c.name with
    | none => m.clients.insert c.name c
    | some _ => m.clients
  named n d h := by
    split at h
    · by_cases hn : n = c.name
      · subst hn; simp at h; simp [h]
      · rw [AList.lookup_insert_ne hn] at h; exact m.named n d h
    · exact m.named n d h

def unregisterClient (m : BroadcastMap) (c : BrokerClient) : BroadcastMap where
  clients := m.clients.erase c.name
  named n d h := by
    by_cases hn : n = c.name
    · rw [hn, AList.lookup_erase] at h; cases h
    · rw [AList.lookup_erase_ne hn] at h; exact m.named n d h

def getClientsByMask (zero : Bool) (m : BroadcastMap) (mask : String) : List BrokerClient :=
  (m.clients.entries.map (·.2)).filter fun c => (peerCfg zero).isMatch mask c.name

theorem mem_values {m : BroadcastMap} {c : BrokerClient} :
    c ∈ m.clients.entries.map (·.2) ↔ m.clients.lookup c.name = some c := by
  rw [List.mem_map]
  constructor
  · rintro ⟨⟨n, d⟩, he, rfl⟩
    have hl : m.clients.lookup n = some d := AList.mem_lookup_iff.mpr he
    have hn := m.named n d hl
    simp only at hn ⊢
    rw [hn, hl]
  · intro h
    exact ⟨⟨c.name, c⟩, AList.mem_lookup_iff.mp h, rfl⟩

theorem nodup_names (zero : Bool) (m : BroadcastMap) (mask : String) :
    ((m.getClientsByMask zero mask).map (·.name)).Nodup := by
  have hk : (m.clients.entries.map (·.2)).map (·.name) = m.clients.keys := by
    rw [List.map_map, AList.keys, List.keys]
    refine List.map_congr_left fun e he => ?_
    exact m.named e.1 e.2 (AList.mem_lookup_iff.mpr he)
  refine List.Nodup.sublist (List.filter_sublist.map _) ?_
  rw [hk]
  exact m.clients.keys_nodup

end BroadcastMap

/-- `reference`'s `BroadcastMap`. -/
def bcast (zero : Bool) : BroadcastMapApi (fun c => c.name) zero where
  T := BroadcastMap
  new := BroadcastMap.new
  registerClient := BroadcastMap.registerClient
  unregisterClient := BroadcastMap.unregisterClient
  getClientsByMask := BroadcastMap.getClientsByMask zero
  held m k := m.clients.lookup k
  held_new k := by simp [BroadcastMap.new]
  held_register m c := by
    unfold BroadcastMap.registerClient
    simp only
    split <;> rename_i h <;> simp [h]
  held_register_ne m c k h := by
    unfold BroadcastMap.registerClient
    simp only
    split
    · exact AList.lookup_insert_ne h
    · rfl
  held_unregister m c := by simp [BroadcastMap.unregisterClient]
  held_unregister_ne m c k h := by simp [BroadcastMap.unregisterClient, AList.lookup_erase_ne h]
  nodup_getClientsByMask := BroadcastMap.nodup_names zero
  mem_getClientsByMask m mask c := by
    rw [BroadcastMap.getClientsByMask, List.mem_filter, BroadcastMap.mem_values]

/-- `reference`'s `AclMap`: a list of masks. -/
def acl : AclMapApi where
  T := Cfg × List String
  defaultCfg := ⟨'/', "?", "*", false⟩
  new k := (k, [])
  insert a m := (a.1, m :: a.2)
  remove a m := (a.1, a.2.filter (· ≠ m))
  isEmpty a := a.2.isEmpty
  isMatch a s := a.2.any fun m => a.1.isMatch m s
  cfg a := a.1
  mem a m := m ∈ a.2
  cfg_new _ := rfl
  cfg_insert _ _ := rfl
  cfg_remove _ _ := rfl
  mem_new _ _ := by simp
  mem_insert a m x := by simp
  mem_remove a m x := by simp [and_comm]
  isEmpty_iff a := by simp [List.eq_nil_iff_forall_not_mem]
  isMatch_iff a s := by simp

end Reference

/-- A crate of this kind: lists, and the name itself for the digest. -/
def reference : Submap where
  zero := false
  Key := String
  sha256 n := n
  sha256_inj _ _ h := h
  sub := Reference.sub false
  bcast := Reference.bcast false
  acl := Reference.acl

end Busrt
