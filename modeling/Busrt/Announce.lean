/-
# What the announcements say about the registry

`register_client` and `unregister_client` change the registry first and announce
the change after that, when no mutex is held: the announcements of two tasks
about one name may come the other way round than the changes
(`overtaken_announcement`). And a teardown announces nothing when the client was
not registered yet as `unregister_client` looked, or is dropped otherwise.

`heard` folds the published events over the names registered at the start. The
condition (`InOrder`) is about three kinds of steps. An announcement is
published only while it is true of the registry, or while something else about
the name is to come that will make up for it (`Timely`); a name is taken out of
`clients` only while an announcement or a registration of it is to come; and no
task is cancelled that still has an announcement or a registration to make. When
all steps of a run meet it, the fold is the set of primary names in `clients`
whenever no operation is in progress (`heard_of_inOrder`).

Key definitions: `heard`, `primaryNames`, `Timely`, `InOrder`, `Tallied`.
Key theorems: `Tallied.ran`, `heard_of_inOrder`, `overtaken_announcement`.
-/
import Busrt.Teardown

namespace Busrt

open Lib BrokerDb

variable {S : Submap}

/-! ### What a listener hears -/

/-- `reg` adds the name, `unreg` removes it. -/
def hear (names : String → Bool) (e : BrokerEvent) : String → Bool :=
  match e.d with
  | none => names
  | some n =>
    if e.s = "reg" then Function.update names n true
    else if e.s = "unreg" then Function.update names n false
    else names

def heard (names : String → Bool) (events : List BrokerEvent) : String → Bool :=
  events.foldl hear names

/-- The primary names in `clients`. -/
def primaryNames (db : BrokerDb S) (n : String) : Bool := (db.lookup n).any (·.primary)

/-- The event is about the name. -/
def BrokerEvent.About (e : BrokerEvent) (n : String) : Prop := e = .reg n ∨ e = .unreg n

theorem heard_append (names : String → Bool) (events : List BrokerEvent) (e : BrokerEvent) :
    heard names (events ++ [e]) = hear (heard names events) e := List.foldl_append ..

theorem hear_reg (names : String → Bool) (m n : String) :
    hear names (.reg m) n = if n = m then true else names n := by
  simp [hear, BrokerEvent.reg, Function.update_apply]

theorem hear_unreg (names : String → Bool) (m n : String) :
    hear names (.unreg m) n = if n = m then false else names n := by
  simp [hear, BrokerEvent.unreg, Function.update_apply]

/-! ### The condition -/

/-- An announcement about the name is to come. -/
def Owes (s : Mach S) (n : String) : Prop := ∃ e, BrokerEvent.About e n ∧ Pending s (.announce e)

/-- The same, after the next instruction of the task. -/
def OwesElse (s : Mach S) (t : Tid) (n : String) : Prop :=
  ∃ e, BrokerEvent.About e n ∧ ((∃ u, u ≠ t ∧ .announce e ∈ s.proc u) ∨
    .announce e ∈ (s.proc t).tail)

/-- A registration of the name is under way. -/
def Registering (s : Mach S) (n : String) : Prop :=
  ∃ c i, Pending s i ∧ i.token = some c ∧ c.name = n

/-- A registration that takes the name over, if there is somebody under it. -/
def Forcing (s : Mach S) (n : String) : Prop :=
  s.db.forceRegister = true ∧ ∃ c, c.name = n ∧
    (Pending s (.insert c false) ∨ Pending s (.displace c))

/-- The next instruction of the task publishes the event when it is true of the registry, or when
what is to come will make up for it. -/
def Timely (s : Mach S) (t : Tid) (e : BrokerEvent) : Prop :=
  ∀ n, (e = .reg n → primaryNames s.db n = true ∨ OwesElse s t n ∨ Registering s n) ∧
    (e = .unreg n → primaryNames s.db n = false ∨ OwesElse s t n ∨ Forcing s n)

/-- The condition on a step. -/
def InOrder (s : Mach S) : MachLabel → Prop
  | .run t _ =>
    (∀ e, (s.proc t).head? = some (.announce e) → Timely s t e) ∧
      ∀ c, (s.proc t).head? = some (.remove c) → primaryNames s.db c.name = true →
        Owes s c.name ∨ Registering s c.name
  | .cancel t => ∀ i ∈ s.proc t, i.token = none ∧ ∀ e, i ≠ .announce e
  | _ => True

/-! ### The invariant -/

/-- Who is put in `clients` is announced after that. -/
def Instr.promises : Instr → List Instr
  | .place c => if c.primary then [.announce (.reg c.name)] else []
  | _ => []

structure Tallied (names : String → Bool) (s : Mach S) : Prop where
  core : s.db.core.isSome
  rpc : s.db.brokerRpc = true
  follows : ∀ t, Follows Instr.promises (s.proc t)
  about : ∀ e, Pending s (.announce e) → ∃ n, primaryName n = n ∧ BrokerEvent.About e n
  secondary : ∀ n, primaryName n ≠ n → heard names s.events n = false
  present : ∀ n, primaryNames s.db n = true → ¬ Owes s n → ¬ Forcing s n →
    heard names s.events n = true
  absent : ∀ n, primaryNames s.db n = false → ¬ Owes s n → ¬ Registering s n →
    heard names s.events n = false

theorem primary_iff_of_name {c : BrokerClient} {n : String} (h : c.name = n) :
    c.primary = true ↔ primaryName n = n := by
  rw [BrokerClient.primary_iff, BrokerClient.primaryName, h]

theorem BrokerEvent.About.data_eq {e : BrokerEvent} {n : String} (h : e.About n) :
    e.d = some n := by
  rcases h with rfl | rfl <;> rfl

section Leads

variable {db : BrokerDb S} {pk : Pick} {i : Instr} {c : BrokerClient} {e : BrokerEvent}

theorem about_of_leads (h : LeadsTo db i (.announce e)) : ∃ n, primaryName n = n ∧ e.About n := by
  cases h with
  | reg _ hc => exact ⟨_, (primary_iff_of_name rfl).mp hc, .inl rfl⟩
  | unreg _ hc => exact ⟨_, (primary_iff_of_name rfl).mp hc, .inr rfl⟩
  | plain h => cases h

theorem announce_mem_insertion (hr : db.brokerRpc = true) (hc : c.primary = true)
    (pc : Option BrokerClient) :
    .announce (.reg c.name) ∈ insertion db c pc := by
  simp [insertion, hr, hc]

theorem promises_insertion (hr : db.brokerRpc = true) (pc : Option BrokerClient) :
    Follows Instr.promises (insertion db c pc) := by
  refine Follows.append (l := joining c pc ++ _ ++ _) ?_ (by simp [Follows, Instr.promises])
  rw [List.append_assoc]
  refine Follows.append ?_ ?_
  · cases pc <;> simp [joining, Follows, Instr.promises]
  · cases hc : c.primary <;> simp [Follows, Instr.promises, hr, hc]

theorem promises_leads (hr : db.brokerRpc = true) : Follows Instr.promises (i.leads pk db) := by
  cases i
  case insert c b =>
    simp only [Instr.leads]
    split
    · simp [Follows, Instr.promises]
    · exact promises_insertion hr _
    · split <;> simp [Follows, Instr.promises]
  all_goals
    refine .of_forall fun j hj => ?_
    cases leadsTo_of_mem hj with
    | plain h => cases j <;> first | rfl | cases h
    | _ => rfl

end Leads

/-! ### Every step keeps it -/

namespace Tallied

variable {names : String → Bool} {s : Mach S} {t : Tid} {i : Instr} {rest : List Instr}
  {pk : Pick} {n : String}

section Ran

variable (ho : Orderly s) (hk : Tallied names s) (hp : s.proc t = i :: rest)

include hp in
theorem owes_ran (h : Owes s n) (hi : ∀ e, i ≠ .announce e) : Owes (s.ran t i rest pk) n := by
  obtain ⟨e, he, hpe⟩ := h
  exact ⟨e, he, (hpe.ran hp).resolve_left fun h => hi e h.symm⟩

theorem owes_of_else (hp : s.proc t = i :: rest) (h : OwesElse s t n) :
    Owes (s.ran t i rest pk) n := by
  obtain ⟨e, he, ⟨u, hu, hm⟩ | hm⟩ := h
  · exact ⟨e, he, u, by rw [Mach.ran, Mach.setProc_proc, if_neg hu]; exact hm⟩
  · rw [hp] at hm
    exact ⟨e, he, pending_of_rest hm⟩

/-- The names are the same, but where a client is put in or taken out. -/
theorem primaryNames_ran (hi : i.renames = false) :
    primaryNames (s.ran t i rest pk).db n = primaryNames s.db n := by
  rw [primaryNames, primaryNames]
  exact congrArg (Option.any _) (lookup_of_renames hi s.db n)

include ho in
/-- Who is there under a primary name is a primary. -/
theorem primaryNames_of_lookup (hn : primaryName n = n) {c : BrokerClient}
    (hl : s.db.lookup n = some c) :
    primaryNames s.db n = true := by
  rw [primaryNames, hl]
  exact (primary_iff_of_name (ho.named.name_eq n c hl)).mpr hn

/-- A registration goes on until the name is there or promised. -/
theorem registering_ran (ho : Orderly s) (hk : Tallied names s) (hp : s.proc t = i :: rest)
    (hn : primaryName n = n) (h : Registering s n) :
    Registering (s.ran t i rest pk) n ∨ Owes (s.ran t i rest pk) n ∨
      primaryNames (s.ran t i rest pk).db n = true := by
  obtain ⟨c, j, hj, hc, rfl⟩ := h
  have hprim := (primary_iff_of_name rfl).mpr hn
  rcases hj.ran hp with rfl | hj
  · cases j <;> cases hc
    case inl.insert.refl b =>
      rw [primaryNames_ran rfl]
      cases hl : s.db.lookup c.name with
      | some d => exact .inr (.inr (primaryNames_of_lookup ho hn hl))
      | none =>
        have hv : vacant s.db c = some none := vacant_eq.mpr ⟨hl, by simp [primaryClient, hprim]⟩
        refine .inr (.inl ⟨.reg c.name, .inl rfl, pending_of_leads ?_⟩)
        rw [leads_of_vacant hv]
        exact announce_mem_insertion hk.rpc hprim none
    case inl.displace.refl =>
      refine .inl ⟨c, .insert c true, pending_of_leads ?_, rfl, rfl⟩
      simp only [Instr.leads]
      split <;> simp
  · exact .inl ⟨c, j, hj, hc, rfl⟩

/-- A registration that takes over goes on until the name is gone or promised. -/
theorem forcing_ran (hp : s.proc t = i :: rest) (hn : primaryName n = n)
    (h : Forcing s n) : Forcing (s.ran t i rest pk) n ∨ Owes (s.ran t i rest pk) n ∨
      primaryNames (s.ran t i rest pk).db n = false := by
  obtain ⟨hf, c, rfl, hj⟩ := h
  have hprim := (primary_iff_of_name rfl).mpr hn
  have hf' : (s.ran t i rest pk).db.forceRegister = true := (fixed_onDb i s.db).2.2.2.trans hf
  rcases hj with hj | hj <;> rcases hj.ran hp with rfl | hj
  · cases hl : s.db.lookup c.name with
    | some d =>
      refine .inl ⟨hf', c, rfl, .inr (pending_of_leads ?_)⟩
      simp [Instr.leads, primaryClient, hprim, hl, allowForce, hf]
    | none =>
      refine .inr (.inr ?_)
      rw [primaryNames_ran rfl, primaryNames, hl]
      rfl
  · exact .inl ⟨hf', c, rfl, .inl hj⟩
  · refine .inr (.inr ?_)
    rw [primaryNames]
    have hl : (s.ran t (.displace c) rest pk).db.lookup c.name = none :=
      (lookup_onDb ..).trans (if_pos rfl)
    rw [hl]
    rfl
  · exact .inl ⟨hf', c, rfl, .inr hj⟩

include hk hp

theorem about_ran {e : BrokerEvent} (h : Pending (s.ran t i rest pk) (.announce e)) :
    ∃ n, primaryName n = n ∧ e.About n := by
  rcases pending_of_ran hp h with h | h
  · exact hk.about e h
  · exact about_of_leads (leadsTo_of_mem h)

/-- A step that publishes nothing. -/
theorem present_ran (hi : ∀ e, i ≠ .announce e) (hn : primaryName n = n)
    (hu : primaryNames (s.ran t i rest pk).db n = true) (hno : ¬ Owes (s.ran t i rest pk) n)
    (hnf : ¬ Forcing (s.ran t i rest pk) n) : heard names s.events n = true := by
  refine hk.present n ?_ (fun h => hno (owes_ran hp h hi)) fun h => ?_
  · obtain ⟨c, hl, hc⟩ := (Option.any_eq_true _ _).mp hu
    rcases lookup_of_onDb hl with hl | ⟨rfl, rfl⟩
    · exact (Option.any_eq_true _ _).mpr ⟨c, hl, hc⟩
    · have hf := hk.follows t
      rw [hp] at hf
      exact absurd ⟨.reg c.name, .inl rfl,
        pending_of_rest (hf.1 _ (by simp [Instr.promises, hc]))⟩ hno
  · rcases forcing_ran hp hn h with h | h | h
    · exact hnf h
    · exact hno h
    · rw [h] at hu; cases hu

include ho

theorem absent_ran (hi : ∀ e, i ≠ .announce e) (hn : primaryName n = n)
    (hg : ∀ c, i = .remove c → primaryNames s.db c.name = true → Owes s c.name ∨
      Registering s c.name)
    (hu : primaryNames (s.ran t i rest pk).db n = false) (hno : ¬ Owes (s.ran t i rest pk) n)
    (hnr : ¬ Registering (s.ran t i rest pk) n) : heard names s.events n = false := by
  have hno' : ¬ Owes s n := fun h => hno (owes_ran hp h hi)
  have hnr' : ¬ Registering s n := fun h => by
    rcases registering_ran ho hk hp hn h with h | h | h
    · exact hnr h
    · exact hno h
    · rw [h] at hu; cases hu
  refine hk.absent n (Bool.eq_false_iff.mpr fun h => ?_) hno' hnr'
  obtain ⟨d, hl, hd⟩ := (Option.any_eq_true _ _).mp h
  -- the name was there and is not any more
  by_cases hren : i.renames = false
  · rw [primaryNames_ran hren, h] at hu; cases hu
  by_cases hc : ∃ c, (i = .displace c ∨ i = .remove c) ∧ n = c.name
  · obtain ⟨c, rfl | rfl, rfl⟩ := hc
    · refine hnr ⟨c, .insert c true, pending_of_leads ?_, rfl, rfl⟩
      simp [Instr.leads, hl]
    · exact (hg c rfl h).elim hno' hnr'
  · -- somebody was put there, or it was about another name
    have hl' : ∃ d, (s.ran t i rest pk).db.lookup n = some d := by
      change ∃ d, (i.onDb s.db).lookup n = some d
      rw [lookup_onDb]
      split
      · split
        · exact ⟨_, rfl⟩
        · exact ⟨d, hl⟩
      · rw [if_neg fun he => hc ⟨_, .inl rfl, he⟩]
        exact ⟨d, hl⟩
      · rw [if_neg fun he => hc ⟨_, .inr rfl, he⟩]
        exact ⟨d, hl⟩
      · exact ⟨d, hl⟩
    obtain ⟨d', hd'⟩ := hl'
    have hname : d'.name = n := by
      rcases lookup_of_onDb hd' with h' | ⟨-, h'⟩
      · exact ho.named.name_eq n d' h'
      · exact h'.symm
    rw [primaryNames, hd'] at hu
    have hp' : d'.primary = true := (primary_iff_of_name hname).mpr hn
    simp [hp'] at hu

end Ran

/-- What is published is published over a registry with a core client. -/
theorem events_ran (hk : Tallied names s) :
    (s.ran t i rest pk).events = s.events ++ (match i with | .announce e => [e] | _ => []) := by
  cases i
  case announce e =>
    change (if s.db.core.isSome then _ else _) = _
    rw [if_pos hk.core]
  all_goals exact (List.append_nil _).symm

theorem events_ran_of_ne (hk : Tallied names s) (hi : ∀ e, i ≠ .announce e) :
    (s.ran t i rest pk).events = s.events := by
  rw [events_ran hk]
  cases i
  case announce e => exact absurd rfl (hi e)
  all_goals exact List.append_nil _

/-- A promise about another name is kept. -/
theorem owes_ran_of_about {e : BrokerEvent} {m : String} (hp : s.proc t = .announce e :: rest)
    (he : e.About m) (hm : n ≠ m) (h : Owes s n) : Owes (s.ran t (.announce e) rest pk) n := by
  obtain ⟨f, hf, hpf⟩ := h
  refine ⟨f, hf, (hpf.ran hp).resolve_left fun h => ?_⟩
  have hfe : f = e := Instr.announce.inj h
  rw [hfe] at hf
  exact hm (Option.some.inj (hf.data_eq.symm.trans he.data_eq))

theorem hear_of_ne {e : BrokerEvent} {m : String} (he : e.About m) (hm : n ≠ m)
    (f : String → Bool) :
    hear f e n = f n := by
  rcases he with rfl | rfl
  · rw [hear_reg, if_neg hm]
  · rw [hear_unreg, if_neg hm]

/-- Somebody who is to be inserted, or to be displaced for, is so after an announcement. -/
theorem registering_ran_announce {e : BrokerEvent} (hp : s.proc t = .announce e :: rest)
    (h : Registering s n) :
    Registering (s.ran t (.announce e) rest pk) n := by
  obtain ⟨c, j, hj, hc, hn⟩ := h
  refine ⟨c, j, (hj.ran hp).resolve_left fun h => ?_, hc, hn⟩
  rw [h] at hc
  cases hc

theorem forcing_ran_announce {e : BrokerEvent} (hp : s.proc t = .announce e :: rest)
    (h : Forcing s n) :
    Forcing (s.ran t (.announce e) rest pk) n := by
  obtain ⟨hf, c, hc, hj⟩ := h
  refine ⟨hf, c, hc, hj.imp (fun hj => (hj.ran hp).resolve_left fun he => ?_)
    fun hj => (hj.ran hp).resolve_left fun he => ?_⟩
  · cases he
  · cases he

/-- A step that publishes. -/
theorem announce_ran {e : BrokerEvent} (hk : Tallied names s) (hp : s.proc t = .announce e :: rest)
    (hg : Timely s t e) (hno : ¬ Owes (s.ran t (.announce e) rest pk) n) :
    (primaryNames s.db n = true → ¬ Forcing (s.ran t (.announce e) rest pk) n →
        hear (heard names s.events) e n = true) ∧
      (primaryNames s.db n = false → ¬ Registering (s.ran t (.announce e) rest pk) n →
        hear (heard names s.events) e n = false) := by
  obtain ⟨m, -, he⟩ := hk.about e ⟨t, head_mem hp⟩
  by_cases hm : n = m
  · subst hm
    rcases he with rfl | rfl
    · rw [hear_reg, if_pos rfl]
      refine ⟨fun _ _ => rfl, fun hu hnr => ?_⟩
      rcases (hg n).1 rfl with h | h | h
      · rw [hu] at h; cases h
      · exact absurd (owes_of_else hp h) hno
      · exact absurd (registering_ran_announce hp h) hnr
    · rw [hear_unreg, if_pos rfl]
      refine ⟨fun hu hnf => ?_, fun _ _ => rfl⟩
      rcases (hg n).2 rfl with h | h | h
      · rw [hu] at h; cases h
      · exact absurd (owes_of_else hp h) hno
      · exact absurd (forcing_ran_announce hp h) hnf
  · rw [hear_of_ne he hm]
    have hno' : ¬ Owes s n := fun h => hno (owes_ran_of_about hp he hm h)
    exact ⟨fun hu hnf => hk.present n hu hno' fun h => hnf (forcing_ran_announce hp h),
      fun hu hnr => hk.absent n hu hno' fun h => hnr (registering_ran_announce hp h)⟩

theorem primaryNames_eq_false (ho : Orderly s) (hn : primaryName n ≠ n) :
    primaryNames s.db n = false := by
  refine Bool.eq_false_iff.mpr fun h => ?_
  obtain ⟨c, hl, hc⟩ := (Option.any_eq_true _ _).mp h
  exact hn ((primary_iff_of_name (ho.named.name_eq n c hl)).mp hc)

theorem secondary_ran (hk : Tallied names s) (hp : s.proc t = i :: rest) (hn : primaryName n ≠ n) :
    heard names (s.ran t i rest pk).events n = false := by
  by_cases hi : ∃ e, i = .announce e
  · obtain ⟨e, rfl⟩ := hi
    obtain ⟨m, hm, he⟩ := hk.about e ⟨t, head_mem hp⟩
    rw [events_ran hk, heard_append, hear_of_ne he fun h => hn (by rw [h]; exact hm)]
    exact hk.secondary n hn
  · rw [events_ran_of_ne hk fun e he => hi ⟨e, he⟩]
    exact hk.secondary n hn

theorem ran (ho : Orderly s) (ho' : Orderly (s.ran t i rest pk)) (hk : Tallied names s)
    (hp : s.proc t = i :: rest) (hg : ∀ e, i = .announce e → Timely s t e)
    (hg' : ∀ c, i = .remove c → primaryNames s.db c.name = true → Owes s c.name ∨
      Registering s c.name) :
    Tallied names (s.ran t i rest pk) where
  core := by
    change (i.onDb s.db).core.isSome
    rw [(fixed_onDb i s.db).2.1]
    exact hk.core
  rpc := (fixed_onDb i s.db).2.2.1.trans hk.rpc
  follows := Follows.ran hp hk.follows (promises_leads hk.rpc)
  about _ h := hk.about_ran hp h
  secondary _ hn := secondary_ran hk hp hn
  present n hu hno hnf := by
    by_cases hn : primaryName n = n
    · by_cases hi : ∃ e, i = .announce e
      · obtain ⟨e, rfl⟩ := hi
        rw [events_ran hk, heard_append]
        exact (announce_ran hk hp (hg e rfl) hno).1 hu hnf
      · have hi : ∀ e, i ≠ .announce e := fun e he => hi ⟨e, he⟩
        rw [events_ran_of_ne hk hi]
        exact hk.present_ran hp hi hn hu hno hnf
    · rw [primaryNames_eq_false ho' hn] at hu; cases hu
  absent n hu hno hnr := by
    by_cases hn : primaryName n = n
    · by_cases hi : ∃ e, i = .announce e
      · obtain ⟨e, rfl⟩ := hi
        rw [events_ran hk, heard_append]
        exact (announce_ran hk hp (hg e rfl) hno).2 hu hnr
      · have hi : ∀ e, i ≠ .announce e := fun e he => hi ⟨e, he⟩
        rw [events_ran_of_ne hk hi]
        exact hk.absent_ran ho hp hi hn hg' hu hno hnr
    · exact secondary_ran hk hp hn

/-- A step that begins or ends a task with nothing to announce or to register. -/
theorem restart {s' : Mach S} {l : List Instr} (hk : Tallied names s)
    (hr : Orderly.Restart s s' t l)
    (hdb : s'.db.core = s.db.core ∧ s'.db.brokerRpc = s.db.brokerRpc ∧
      s'.db.forceRegister = s.db.forceRegister)
    (hev : s'.events = s.events) (hold : ∀ i ∈ s.proc t, i.token = none ∧ ∀ e, i ≠ .announce e)
    (hnew : ∀ i ∈ l, i.promises = [] ∧ ∀ e, i ≠ .announce e) : Tallied names s' := by
  have hkeep : ∀ i, Pending s i → i.token ≠ none ∨ (∃ e, i = .announce e) → Pending s' i := by
    rintro i ⟨u, hi⟩ h
    refine ⟨u, ?_⟩
    rw [hr.proc u, if_neg ?_]
    · exact hi
    · rintro rfl
      obtain ⟨h1, h2⟩ := hold i hi
      rcases h with h | ⟨e, h⟩
      · exact h h1
      · exact h2 e h
  have howes : ∀ n, Owes s n → Owes s' n := fun n ⟨e, he, h⟩ => ⟨e, he, hkeep _ h (.inr ⟨e, rfl⟩)⟩
  have hnames : ∀ n, primaryNames s'.db n = primaryNames s.db n :=
    fun n => by rw [primaryNames, hr.lookup n]; rfl
  exact
    { core := by rw [hdb.1]; exact hk.core
      rpc := hdb.2.1.trans hk.rpc
      follows := fun u => by
        rw [hr.proc u]
        split
        · exact .of_forall fun i hi => (hnew i hi).1
        · exact hk.follows u
      about := fun e ⟨u, hi⟩ => by
        rw [hr.proc u] at hi
        split at hi
        · exact absurd rfl ((hnew _ hi).2 e)
        · exact hk.about e ⟨u, hi⟩
      secondary := fun n hn => by rw [hev]; exact hk.secondary n hn
      present := fun n hu hno hnf => by
        rw [hev]
        refine hk.present n ((hnames n).symm.trans hu) (fun h => hno (howes n h)) ?_
        rintro ⟨hf, c, hc, h⟩
        exact hnf ⟨hdb.2.2.trans hf, c, hc, h.imp (hkeep _ · (.inl (Option.some_ne_none _)))
          (hkeep _ · (.inl (Option.some_ne_none _)))⟩
      absent := fun n hu hno hnr => by
        rw [hev]
        refine hk.absent n ((hnames n).symm.trans hu) (fun h => hno (howes n h)) ?_
        rintro ⟨c, i, hi, hc, hn⟩
        exact hnr ⟨c, i, hkeep i hi (.inl (by rw [hc]; exact Option.some_ne_none _)), hc, hn⟩ }

theorem prog_ne_announce {errand : Errand} {i : Instr} (hi : i ∈ errand.prog) :
    i.promises = [] ∧ ∀ e, i ≠ .announce e := by
  cases errand <;> simp only [Errand.prog, List.mem_cons, List.not_mem_nil, or_false] at hi <;>
    grind [Instr.promises]

/-- **Every step that is in order keeps the tally.** -/
theorem step {l : MachLabel} {s' : Mach S} (ho : Orderly s) (hk : Tallied names s)
    (hg : InOrder s l) (h : MachSteps s l s') : Tallied names s' := by
  have ho' := ho.step h
  cases machStep_effect h with
  | register t name kind source port _ hp hs =>
    rw [hs]
    refine hk.restart (ho.restart_register hp name kind source port) ⟨rfl, rfl, rfl⟩ rfl ?_ ?_
    · rw [hp]
      exact fun i hi => by cases hi
    · simp [Instr.promises]
  | spawn t errand _ hp hs =>
    rw [hs]
    refine hk.restart (ho.restart_spawn hp errand) ⟨rfl, rfl, rfl⟩ rfl ?_ fun i hi =>
      prog_ne_announce hi
    rw [hp]
    exact fun i hi => by cases hi
  | run t pk i rest hl hp _ hs =>
    subst hl hs
    have hhead : (s.proc t).head? = some i := by rw [hp]; rfl
    refine hk.ran ho ho' hp (fun e he => hg.1 e (by rw [hhead, he])) fun c hc =>
      hg.2 c (by rw [hhead, hc])
  | cancel t i rest hl hp hi hs =>
    subst hl hs
    exact hk.restart (Orderly.restart_cancel (ho.idle_of_awaits hp hi) _) ⟨rfl, rfl, rfl⟩ rfl hg
      fun i hi => by cases hi

theorem start {db : BrokerDb S} (hdb : Inv db) (hr : db.brokerRpc = true) (hc : db.core.isSome) :
    Tallied (primaryNames db) (Mach.start db) where
  core := hc
  rpc := hr
  follows _ := trivial
  about e h := by obtain ⟨t, hi⟩ := h; cases hi
  secondary n hn := primaryNames_eq_false (Orderly.start hdb) hn
  present n hu _ _ := hu
  absent n hu _ _ := hu

end Tallied

/-! ### What follows for whole runs -/

/-- **The announcements describe the registry**, when every step is in order: whenever nothing is in
progress, folding the published events over the primary names of the start gives the primary names
in `clients`. -/
theorem heard_of_inOrder {db : BrokerDb S} (hdb : Inv db) (hrpc : db.brokerRpc = true)
    (hcore : db.core.isSome) {ls : List MachLabel} {s : Mach S}
    (h : Run (Guarded MachSteps InOrder) (Mach.start db) ls s) (hidle : ∀ t, s.proc t = []) :
    heard (primaryNames db) s.events = primaryNames s.db := by
  have hk : Orderly s ∧ Tallied (primaryNames db) s :=
    h.inv (I := fun s => Orderly s ∧ Tallied (primaryNames db) s)
      (fun _ _ _ ⟨ho, hk⟩ ⟨hg, hst⟩ => ⟨ho.step hst, hk.step ho hg hst⟩) ⟨.start hdb,
        .start hdb hrpc hcore⟩
  have hnone : ∀ i, ¬ Pending s i := by
    rintro i ⟨t, hi⟩
    rw [hidle t] at hi
    cases hi
  funext n
  cases hn : primaryNames s.db n with
  | true =>
    refine hk.2.present n hn (fun ⟨e, _, he⟩ => hnone _ he) ?_
    rintro ⟨-, c, -, h | h⟩
    · exact hnone _ h
    · exact hnone _ h
  | false => exact hk.2.absent n hn (fun ⟨e, _, he⟩ => hnone _ he) fun ⟨c, i, hi, _⟩ => hnone i hi

/-! ### Runs that are in order, and one that is not -/

/-- What is about to be published is true of the registry, and who is about to be removed is
announced after that by the same task. -/
def Instr.inOrder (db : BrokerDb S) (rest : List Instr) : Instr → Bool
  | .announce e =>
    e.d.any fun n => if primaryNames db n then decide (e = .reg n) else decide (e = .unreg n)
  | .remove c => decide (.announce (.unreg c.name) ∈ rest)
  | _ => true

def inOrder (s : Mach S) : MachLabel → Bool
  | .run t _ =>
    match s.proc t with
    | i :: rest => i.inOrder s.db rest
    | [] => true
  | .cancel _ => false
  | _ => true

theorem inOrder_of {s : Mach S} {l : MachLabel} (h : inOrder s l = true) : InOrder s l := by
  cases l with
  | run t pk =>
    simp only [inOrder] at h
    split at h
    · rename_i i rest hp
      refine ⟨fun e he n => ?_, fun c hc _ => ?_⟩
      · rw [hp] at he
        obtain rfl := Option.some.inj he
        obtain ⟨m, hm, h⟩ := (Option.any_eq_true _ _).mp h
        refine ⟨fun hn => .inl ?_, fun hn => .inl ?_⟩ <;>
        · obtain rfl : n = m := by rw [hn] at hm; exact Option.some.inj hm
          cases hu : primaryNames s.db n <;> simp_all [BrokerEvent.reg, BrokerEvent.unreg]
      · rw [hp] at hc
        obtain rfl := Option.some.inj hc
        exact .inl ⟨.unreg c.name, .inr rfl,
          t, by rw [hp]; exact List.mem_cons_of_mem _ (of_decide_eq_true h)⟩
    · rename_i hp
      exact ⟨fun e he => by (rw [hp] at he; cases he), fun c hc => by rw [hp] at hc; cases hc⟩
  | cancel t => cases h
  | _ => trivial

namespace Announced

def core : BrokerClient := ⟨0, ".broker", .internal, none, none⟩
def first : BrokerClient := ⟨1, "a", .internal, none, none⟩

/-- A broker with its core client and one more. -/
def db : BrokerDb reference :=
  { Op.run (BrokerDb.empty reference false true 4)
      [.register ".broker" .internal none none, .register "a" .internal none none] with
        core := some core }

theorem inv_db : Inv db :=
  (Op.inv_run _ (inv_empty false true 4)).of_eq (fun _ => rfl) (fun _ => rfl)
    (fun _ => rfl) rfl rfl le_rfl

def goOn (t : Tid) (n : ℕ) : List MachLabel := List.replicate n (.run t (.plain false))

/-- The client goes, and another comes after that. -/
def inTurn : List MachLabel :=
  .spawn 0 (.unregister first) :: goOn 0 22 ++ .register 1 "a" .internal none none :: goOn 1 18

/-- The other comes before it is announced that the client went. -/
def overtaking : List MachLabel :=
  .spawn 0 (.unregister first) :: goOn 0 16 ++
    .register 1 "a" .internal none none :: goOn 1 18 ++ goOn 0 6

/-- With two tasks at work nothing is in progress when both have ended. -/
theorem idle {ls : List MachLabel} {s : Mach reference} (h : Run MachSteps (Mach.start db) ls s)
    (hls : ∀ l ∈ ls, l.task < 2) (h0 : s.proc 0 = []) (h1 : s.proc 1 = []) : ∀ t, s.proc t = []
  | 0 => h0
  | 1 => h1
  | t + 2 => by
    have hg := h.guarded (G := fun _ l => l.task < 2) fun _ => hls
    refine hg.inv (I := fun s => s.proc (t + 2) = []) ?_ rfl
    rintro q l q' hq ⟨hl, hst⟩
    rw [proc_of_ne hst (Nat.ne_of_gt (lt_of_lt_of_le hl (Nat.le_add_left 2 t)))]
    exact hq

end Announced

open Announced

theorem heard_of_inOrder_inTurn : ∃ s, Run (Guarded MachSteps InOrder) (Mach.start db) inTurn s ∧
    (s.events = [.unreg "a", .reg "a"] ∧ primaryNames s.db "a" = true) ∧
      heard (primaryNames db) s.events = primaryNames s.db := by
  have hrun :
      (execList (fun s l => if inOrder s l then machStep s l else none) (Mach.start db) inTurn).map
      (fun s => (s.proc 0, s.proc 1, s.events, primaryNames s.db "a")) =
        some ([], [], [.unreg "a", .reg "a"], true) := by decide
  obtain ⟨s, hs, hobs⟩ := Option.map_eq_some_iff.mp hrun
  simp only [Prod.mk.injEq] at hobs
  obtain ⟨h0, h1, hobs⟩ := hobs
  have hr : Run (Guarded MachSteps InOrder) (Mach.start db) inTurn s :=
    run_of_checked (fun _ _ => inOrder_of) hs
  have hidle := idle (hr.mono fun _ _ _ h => h.2) (by decide) h0 h1
  exact ⟨s, hr, hobs, heard_of_inOrder inv_db rfl rfl hr hidle⟩

/-- Both have ended, the client is there, and who listened believes that it is not. -/
theorem overtaken_announcement :
    ∃ s, Run MachSteps (Mach.start db) overtaking s ∧ (∀ t, s.proc t = []) ∧
    primaryNames s.db "a" = true ∧ heard (primaryNames db) s.events "a" = false := by
  have hrun : (execList machStep (Mach.start db) overtaking).map
      (fun s => (s.proc 0, s.proc 1, primaryNames s.db "a", heard (primaryNames db) s.events "a")) =
        some ([], [], true, false) := by decide
  obtain ⟨s, hs, hobs⟩ := Option.map_eq_some_iff.mp hrun
  simp only [Prod.mk.injEq] at hobs
  obtain ⟨h0, h1, hobs⟩ := hobs
  have hr : Run MachSteps (Mach.start db) overtaking s := run_of_execList hs
  exact ⟨s, hr, idle hr (by decide) h0 h1, hobs⟩

end Busrt
