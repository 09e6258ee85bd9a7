/-
# Who removes a client

`drop_client` and the forced `register_client` take a client out of
`subscriptions`, `broadcasts` and `clients` by its name, each in a section of its
own, and `drop_client` of a primary finds its secondaries by name too. Whoever
is registered under the name at that time is removed, so the tail of the
teardown of one instance may remove a later one, or a secondary of a later one
(`removed_by_predecessor`).

`Past` records what the property speaks of: whose registration returned, whose
own teardown began or who was displaced, and the primary of every secondary. The
condition is about the vacant branch of `insert_client` (`Vacated`): no other
instance of the name has the flag or has removals to come, and no other
primary's loop has the name to come to. When every registration of a run meets
it, every client that should be there is (`present_of_vacated`).

Key definitions: `Past`, `Vacated`, `Unhurried`, `Accounted`.
Key theorems: `Accounted.ran`, `present_of_vacated`, `removed_by_predecessor`.
-/
import Busrt.Deadlock

namespace Busrt

open Lib BrokerDb

variable {S : Submap}

/-! ### What the property speaks of -/

/-- For the record, of every client: it was inserted, it was put in `clients`, its registration
returned, a teardown found it registered or a later registration removed it, the same but not
in the loop of its primary, and its primary. -/
structure Past where
  entered : BrokerClient → Bool
  placed : BrokerClient → Bool
  returned : BrokerClient → Bool
  ended : BrokerClient → Bool
  left : BrokerClient → Bool
  parent : BrokerClient → Option BrokerClient

namespace Past

/-- Before a run, for the clients that are registered. -/
def start (db : BrokerDb S) : Past where
  entered c := (db.cell c).registered
  placed c := (db.cell c).registered
  returned c := (db.cell c).registered
  ended _ := false
  left _ := false
  parent c := if c.primary then none else db.lookup c.primaryName

end Past

namespace Instr

/-- `insert_client` takes its vacant branch for the client. -/
def inserts (db : BrokerDb S) (c : BrokerClient) : Instr → Bool
  | .insert d _ => decide (d = c) && (vacant db c).isSome
  | _ => false

/-- A teardown of the client begins, or it is displaced, other than in the loop of its primary. -/
def ousts (db : BrokerDb S) (c : BrokerClient) : Instr → Bool
  | .drop d none => decide (d = c) && (db.cell c).registered
  | .displace e => decide (db.lookup e.name = some c)
  | _ => false

/-- The same, or in the loop of its primary. -/
def ends (db : BrokerDb S) (c : BrokerClient) : Instr → Bool
  | .drop d _ => decide (d = c) && (db.cell c).registered
  | i => i.ousts db c

def onPast (db : BrokerDb S) (p : Past) (i : Instr) : Past where
  entered c := p.entered c || i.inserts db c
  placed c := p.placed c || decide (i = .place c)
  returned c := p.returned c || decide (i = .ok c)
  ended c := p.ended c || i.ends db c
  left c := p.left c || i.ousts db c
  parent c := if i.inserts db c then (vacant db c).join else p.parent c

theorem inserts_iff {db : BrokerDb S} {c : BrokerClient} {i : Instr} :
    i.inserts db c = true ↔ ∃ b pc, i = .insert c b ∧ vacant db c = some pc := by
  cases i <;> simp [inserts, Option.isSome_iff_exists]

theorem ousts_iff {db : BrokerDb S} {c : BrokerClient} {i : Instr} : i.ousts db c = true ↔
    (i = .drop c none ∧ (db.cell c).registered = true) ∨ ∃ e, i = .displace e ∧
      db.lookup e.name = some c := by
  cases i
  case drop d q => cases q <;> simp [ousts]
  all_goals simp [ousts]

theorem ends_iff {db : BrokerDb S} {c : BrokerClient} {i : Instr} : i.ends db c = true ↔
    i.ousts db c = true ∨ ∃ q, i = .drop c (some q) ∧ (db.cell c).registered = true := by
  cases i
  case drop d q => cases q <;> simp [ends, ousts]
  all_goals simp [ends]

end Instr

/-- The record after a step. -/
def pastAfter (s : Mach S) (l : MachLabel) (p : Past) : Past :=
  match l with
  | .run t _ => (s.proc t).head?.elim p (Instr.onPast s.db p)
  | _ => p

/-- Where `insert_client` takes its vacant branch for `c`, with the primary `pc`: nothing of
an earlier instance of the name is to be removed, and no other primary will come to the name in
its loop. -/
structure Vacated (s : Mach S) (c : BrokerClient) (pc : Option BrokerClient) : Prop where
  unflagged : ∀ x, x ≠ c → x.name = c.name → (s.db.cell x).registered = false
  removed : ∀ x, x ≠ c → x.name = c.name → ∀ t, ∀ i ∈ s.proc t, i.removes ≠ some x
  passed : ∀ q, pc ≠ some q → ∀ t, .find q c.name ∉ s.proc t
  read : ∀ q, pc ≠ some q → c.name ∈ (s.db.cell q).secondaries → ∃ t, .clear q ∈ s.proc t

/-- The condition on a step. -/
def Unhurried (s : Mach S) : MachLabel → Prop
  | .run t _ =>
    ∀ c b pc, (s.proc t).head? = some (.insert c b) → vacant s.db c = some pc → Vacated s c pc
  | _ => True

/-! ### The invariant -/

/-- A client was inserted and not taken away. -/
def Past.stands (p : Past) (d : BrokerClient) : Prop := p.entered d = true ∧ p.ended d = false

/-- A client is under a name, or about to be. -/
def Takes (s : Mach S) (n : String) (d : BrokerClient) : Prop :=
  s.db.lookup n = some d ∨ (Pending s (.place d) ∧ d.name = n)

/-- What has to come later in the same list. -/
def Instr.needs : Instr → List Instr
  | .enterBroadcasts c => [.flag c]
  | .unflag c => [.leaveBroadcasts c]
  | _ => []

/-- A part of the teardown of a primary that follows the removals. -/
def Instr.tears : Instr → Option BrokerClient
  | .lock (.secondaries q) | .secondaries q | .find q _ | .clear q | .drop _ (some q) => some q
  | _ => none

structure Accounted (s : Mach S) (p : Past) : Prop where
  follows : ∀ t, Follows Instr.needs (s.proc t)
  lt : ∀ c, p.entered c = true → c.id < s.db.nextId
  token : ∀ t, ∀ i ∈ s.proc t, ∀ c, i.token = some c → p.entered c = false
  entered : ∀ c, Entered s c ∨ p.placed c = true ∨ p.ended c = true → p.entered c = true
  placed : ∀ c, p.placed c = true → ∀ t, ∀ i ∈ s.proc t, i.entering ≠ some c
  ok : ∀ c t, .ok c ∈ s.proc t → p.placed c = true ∨ .place c ∈ s.proc t
  returned : ∀ c, p.returned c = true → p.placed c = true
  removes : ∀ t, ∀ i ∈ s.proc t, ∀ c, i.removes = some c → p.ended c = true
  ended : ∀ c, p.ended c = true → p.left c = true ∨ ∃ q, p.parent c = some q ∧ p.left q = true
  tears : ∀ t, ∀ i ∈ s.proc t, ∀ q, i.tears = some q → p.left q = true
  child : ∀ q c, Pending s (.join q c) ∨ Pending s (.drop c (some q)) → p.parent c = some q
  found : ∀ q n d, Pending s (.find q n) → Takes s n d → p.parent d = some q
  listed : ∀ q n d, n ∈ (s.db.cell q).secondaries → (∀ t, .clear q ∉ s.proc t) → Takes s n d →
    p.parent d = some q
  unused : ∀ c, ∀ t, ∀ i ∈ s.proc t, i.entering = some c → s.db.lookup c.name = none
  alone : ∀ d, p.stands d → ∀ x, x ≠ d → x.name = d.name →
    (s.db.cell x).registered = false ∧ ∀ t, ∀ i ∈ s.proc t, i.removes ≠ some x ∧ i.entering ≠ some x
  held : ∀ n x, S.bcast.held s.db.broadcasts (S.sha256 n) = some x → x.name = n ∧
    ((s.db.cell x).registered = true ∨ Pending s (.leaveBroadcasts x) ∨ Pending s (.flag x))
  lookup : ∀ d, p.stands d → s.db.lookup d.name = some d ∨ Pending s (.place d)
  flagged : ∀ d, p.stands d → (s.db.cell d).registered = true ∨ Pending s (.flag d)
  broadcasts : ∀ d, p.stands d →
    S.bcast.held s.db.broadcasts (S.key d) = some d ∨ Pending s (.enterBroadcasts d)
  subscriptions : ∀ d, p.stands d →
    (S.sub.held s.db.subscriptions (S.key d)).isSome ∨ Pending s (.enterSubscriptions d)

/-- What the invariant is for. -/
theorem Accounted.present {s : Mach S} {p : Past} (hk : Accounted s p) {d : BrokerClient}
    (hr : p.returned d = true) (hl : p.left d = false)
    (hq : ∀ q, p.parent d = some q → p.left q = false) :
    s.db.lookup d.name = some d ∧ S.bcast.held s.db.broadcasts (S.key d) = some d ∧
      (S.sub.held s.db.subscriptions (S.key d)).isSome := by
  have hpl := hk.returned d hr
  have hno : ∀ i : Instr, i.entering = some d → ¬ Pending s i :=
    fun i hi ⟨t, hm⟩ => hk.placed d hpl t i hm hi
  have hst : p.stands d := by
    refine ⟨hk.entered d (.inr (.inl hpl)), Bool.eq_false_iff.mpr fun he => ?_⟩
    rcases hk.ended d he with h | ⟨q, hpq, h⟩
    · rw [hl] at h; cases h
    · rw [hq q hpq] at h; cases h
  refine ⟨(hk.lookup d hst).resolve_right (hno _ rfl),
    (hk.broadcasts d hst).resolve_right (hno _ rfl),
    (hk.subscriptions d hst).resolve_right (hno _ rfl)⟩

/-! ### What one instruction keeps -/

section Lists

variable {s : Mach S} {t : Tid} {i j : Instr} {rest : List Instr} {pk : Pick} {db : BrokerDb S}
  {c : BrokerClient}

theorem follows_insertion (db : BrokerDb S) (c : BrokerClient) (pc : Option BrokerClient) :
    Follows Instr.needs (insertion db c pc) := by
  refine Follows.append (Follows.append (Follows.append ?_ ?_) ?_) ?_
  · cases pc <;> simp [joining, Follows, Instr.needs]
  · simp [Follows, Instr.needs]
  · split <;> simp [Follows, Instr.needs]
  · simp [Follows, Instr.needs]

theorem follows_dismantling (c : BrokerClient) : Follows Instr.needs (dismantling c) := by
  refine Follows.append ?_ ?_
  · simp [removals, Follows, Instr.needs]
  · split <;> simp [Follows, Instr.needs]

theorem follows_leads : Follows Instr.needs (i.leads pk db) := by
  cases i
  case insert c b =>
    simp only [Instr.leads]
    split
    · simp [Follows, Instr.needs]
    · exact follows_insertion db c _
    · split <;> simp [Follows, Instr.needs]
  case drop c q =>
    simp only [Instr.leads]
    split
    · exact follows_dismantling c
    · trivial
  all_goals
    refine .of_forall fun j hj => ?_
    cases leadsTo_of_mem hj with
    | plain h => cases j <;> first | rfl | cases h
    | _ => rfl

theorem subject_of_entering (h : j.entering = some c) : j.subject = some c := by
  cases j <;> first | exact h | cases h

theorem subject_of_removes (h : j.removes = some c) : j.subject = some c := by
  cases j <;> first | exact h | cases h

theorem Instr.plain_entering (h : j.plain = true) : j.entering = none := by
  cases j <;> first | rfl | cases h

theorem Instr.plain_removes (h : j.plain = true) : j.removes = none := by
  cases j <;> first | rfl | cases h

theorem Instr.plain_tears (h : j.plain = true) : j.tears = none := by
  cases j
  case lock m => cases m <;> first | rfl | cases h
  case drop c q => cases q <;> first | rfl | cases h
  all_goals first | rfl | cases h

/-- Only an insertion leads to one. -/
theorem entering_of_leads (hj : LeadsTo db i j) (hc : j.entering = some c) :
    i.inserts db c = true := by
  cases hj with
  | join hv | enterBroadcasts hv | enterSubscriptions hv | flag hv | place hv =>
    cases hc
    exact Instr.inserts_iff.mpr ⟨_, _, rfl, hv⟩
  | plain h => rw [Instr.plain_entering h] at hc; cases hc
  | _ => cases hc

/-- Only a teardown leads to removals. -/
theorem removes_of_leads (hj : LeadsTo db i j) (hc : j.removes = some c) :
    ∃ q, i = .drop c q ∧ (db.cell c).registered = true := by
  cases hj with
  | unflag hr | leaveSubscriptions hr | leaveBroadcasts hr | remove hr =>
    cases hc; exact ⟨_, rfl, hr⟩
  | plain h => rw [Instr.plain_removes h] at hc; cases hc
  | _ => cases hc

/-- All of an insertion is to come. -/
theorem mem_leads_of_inserts (hi : i.inserts db c = true)
    (hj : j ∈ [Instr.enterBroadcasts c, .enterSubscriptions c, .flag c, .place c]) :
    j ∈ i.leads pk db := by
  obtain ⟨b, pc, rfl, hv⟩ := Instr.inserts_iff.mp hi
  rw [leads_of_vacant hv, insertion]
  simp only [List.mem_cons, List.not_mem_nil, or_false] at hj
  obtain rfl | rfl | rfl | rfl := hj <;> simp

theorem token_of_inserts (hi : i.inserts db c = true) : i.token = some c := by
  obtain ⟨b, pc, rfl, -⟩ := Instr.inserts_iff.mp hi
  rfl

end Lists

section Ran

variable {s : Mach S} {p : Past} {t : Tid} {i : Instr} {rest : List Instr} {pk : Pick}

/-- While `clients` changes and after, nobody is at the insertion of a client. -/
theorem Orderly.not_entering_ran (ho : Orderly s) (hp : s.proc t = i :: rest)
    (hren : i.renames = true) {u : Tid} {j : Instr} (hj : j ∈ (s.ran t i rest pk).proc u) :
    j.entering = none := by
  by_contra hne
  obtain ⟨c, hc⟩ := Option.ne_none_iff_exists'.mp hne
  obtain ⟨h, hh⟩ := ho.task t
  obtain ⟨h', hn, hr⟩ := hh.next hp
  obtain ⟨hcl, -, hf⟩ := next_of_renames hren hn
  by_cases hu : u = t
  · subst hu
    rw [proc_ran_self] at hj
    rcases List.mem_append.mp hj with hj | hj
    · obtain ⟨b, pc, rfl, -⟩ := Instr.inserts_iff.mp (entering_of_leads (leadsTo_of_mem hj) hc)
      cases hren
    · have := Hold.found_iff.mpr ⟨_, entering_of_mem hr hj hc, fun he => by cases he⟩
      rw [hf] at this
      cases this
  · rw [Mach.ran, Mach.setProc_proc, if_neg hu] at hj
    obtain ⟨g, hg⟩ := ho.task u
    have hge := entering_of_mem hg.runs hj hc
    exact hu (hg.clients_inj hh (by simp [hge]) hcl)

theorem Orderly.not_entering_insert {c : BrokerClient} {b : Bool} (ho : Orderly s)
    (hp : s.proc t = .insert c b :: rest) {u : Tid} {j : Instr} (hj : j ∈ s.proc u) :
    j.entering = none := by
  refine ho.not_entering hp (fun h h' hn => ?_) hj
  simp only [Instr.next, Option.ite_none_right_eq_some] at hn
  rw [hn.1]
  rfl

/-- One client is inserted at a time. -/
theorem Orderly.entering_inj (ho : Orderly s) {u : Tid} {j k : Instr} {c d : BrokerClient}
    (hj : j ∈ s.proc t) (hk : k ∈ s.proc u) (hc : j.entering = some c) (hd : k.entering = some d) :
    c = d := by
  obtain ⟨h, hh⟩ := ho.task t
  obtain ⟨g, hg⟩ := ho.task u
  have h1 := entering_of_mem hh.runs hj hc
  have h2 := entering_of_mem hg.runs hk hd
  obtain rfl : t = u := hh.clients_inj hg (by simp [h1]) (by simp [h2])
  have h3 := entering_of_mem hh.runs hk hd
  rw [h1] at h3
  cases h3
  rfl

theorem Takes.entered (ho : Orderly s) {n : String} {d : BrokerClient} (h : Takes s n d) :
    Entered s d := by
  rcases h with h | ⟨⟨u, hu⟩, -⟩
  · exact .inr (.inl (by rw [ho.named.name_eq n d h, h]))
  · exact .inr (.inr ⟨u, _, hu, rfl⟩)

theorem Takes.of_ran (hp : s.proc t = i :: rest) {n : String} {d : BrokerClient}
    (h : Takes (s.ran t i rest pk) n d) : Takes s n d ∨ (i.inserts s.db d = true ∧ d.name = n) := by
  rcases h with h | ⟨h, hn⟩
  · rcases lookup_of_onDb h with h | ⟨rfl, rfl⟩
    · exact .inl (.inl h)
    · exact .inl (.inr ⟨⟨t, head_mem hp⟩, rfl⟩)
  · rcases pending_of_ran hp h with h | h
    · exact .inl (.inr ⟨h, hn⟩)
    · exact .inr ⟨entering_of_leads (leadsTo_of_mem h) rfl, hn⟩

end Ran

theorem Errand.quiet_prog {errand : Errand} {i : Instr} (hi : i ∈ errand.prog) :
    i.needs = [] ∧ i.tears = none ∧ ∀ c, i ≠ .ok c := by
  cases errand
  case topics op c ts =>
    cases op <;> simp only [Errand.prog, TopicOp.mutex, List.mem_cons, List.not_mem_nil,
      or_false] at hi <;>
      grind [Instr.needs, Instr.tears]
  all_goals
    simp only [Errand.prog, List.mem_cons, List.not_mem_nil, or_false] at hi
    grind [Instr.needs, Instr.tears]

namespace Accounted

variable {s : Mach S} {p : Past} {t : Tid} {i : Instr} {rest : List Instr} {pk : Pick}
  (ho : Orderly s)
  (hk : Accounted s p) (hp : s.proc t = i :: rest)

section Records

include hk hp

/-- Who was inserted is not inserted again. -/
theorem not_inserts {c : BrokerClient} (hc : p.entered c = true) : i.inserts s.db c = false := by
  refine Bool.eq_false_iff.mpr fun hi => ?_
  rw [hk.token t i (head_mem hp) c (token_of_inserts hi)] at hc
  cases hc

theorem parent_ran {c : BrokerClient} (hc : p.entered c = true) :
    (i.onPast s.db p).parent c = p.parent c := by
  simp [Instr.onPast, hk.not_inserts hp hc]

theorem removes_ran {u : Tid} {j : Instr} (hj : j ∈ (s.ran t i rest pk).proc u) {c : BrokerClient}
    (hc : j.removes = some c) : (i.onPast s.db p).ended c = true := by
  rcases mem_ran hp hj with hj' | ⟨-, hj'⟩
  · simp [Instr.onPast, hk.removes u j hj' c hc]
  · obtain ⟨q, rfl, hr⟩ := removes_of_leads (leadsTo_of_mem hj') hc
    simp [Instr.onPast, Instr.ends, hr]

theorem ok_ran {c : BrokerClient} {u : Tid} (hj : .ok c ∈ (s.ran t i rest pk).proc u) :
    (i.onPast s.db p).placed c = true ∨ .place c ∈ (s.ran t i rest pk).proc u := by
  rcases mem_ran hp hj with hj' | ⟨rfl, hj'⟩
  · rcases hk.ok c u hj' with h | h
    · exact .inl (by simp [Instr.onPast, h])
    · by_cases hi : i = .place c
      · exact .inl (by simp [Instr.onPast, hi])
      · refine .inr ?_
        rw [Mach.ran, Mach.setProc_proc]
        split
        · rename_i hu
          rw [hu, hp] at h
          exact List.mem_append_right _ ((List.mem_cons.mp h).resolve_left fun he => hi he.symm)
        · exact h
  · cases leadsTo_of_mem hj' with
    | ok hv =>
      refine .inr ?_
      rw [proc_ran_self]
      exact List.mem_append_left _ (mem_leads_of_inserts
        (Instr.inserts_iff.mpr ⟨_, _, rfl, hv⟩) (by simp))
    | plain h => cases h

include ho

theorem lt_ran {c : BrokerClient} (h : (i.onPast s.db p).entered c = true) :
    c.id < (s.ran t i rest pk).db.nextId := by
  rw [nextId_ran]
  simp only [Instr.onPast, Bool.or_eq_true] at h
  rcases h with h | h
  · exact hk.lt c h
  · exact (ho.token_lt t i (head_mem hp) c (token_of_inserts h)).1

theorem token_ran {u : Tid} {j : Instr} (hj : j ∈ (s.ran t i rest pk).proc u) {c : BrokerClient}
    (hc : j.token = some c) : (i.onPast s.db p).entered c = false := by
  obtain ⟨j₀, hj₀, hc₀⟩ := token_of_ran hp hj hc
  have he := hk.token u j₀ hj₀ c hc₀
  have hi : i.inserts s.db c = false := by
    refine Bool.eq_false_iff.mpr fun hi => ?_
    obtain ⟨b, pc, hi, hv⟩ := Instr.inserts_iff.mp hi
    exact ho.not_token_of_vacant hp hi hv hj hc
  simp [Instr.onPast, he, hi]

omit hp in
/-- Who is found registered or displaced was inserted. -/
theorem entered_of_ends {c : BrokerClient} (hc : i.ends s.db c = true) : p.entered c = true := by
  rcases Instr.ends_iff.mp hc with hc | ⟨q, -, hr⟩
  · rcases Instr.ousts_iff.mp hc with ⟨-, hr⟩ | ⟨e, -, hl⟩
    · exact hk.entered c (.inl (.inl hr))
    · exact hk.entered c (.inl (.inr (.inl (by rw [ho.named.name_eq _ c hl, hl]))))
  · exact hk.entered c (.inl (.inl hr))

theorem entered_ran {c : BrokerClient}
    (h : Entered (s.ran t i rest pk) c ∨ (i.onPast s.db p).placed c = true ∨
      (i.onPast s.db p).ended c = true) :
    (i.onPast s.db p).entered c = true := by
  have hmono : p.entered c = true → (i.onPast s.db p).entered c = true :=
    fun h => by simp [Instr.onPast, h]
  rcases h with h | h | h
  · rcases h.of_ran hp ho.named with h | h
    · exact hmono (hk.entered c (.inl h))
    · simp [Instr.onPast, Instr.inserts_iff.mpr h]
  · simp only [Instr.onPast, Bool.or_eq_true, decide_eq_true_eq] at h
    rcases h with h | rfl
    · exact hmono (hk.entered c (.inr (.inl h)))
    · exact hmono (hk.entered c (.inl (.inr (.inr ⟨t, _, head_mem hp, rfl⟩))))
  · simp only [Instr.onPast, Bool.or_eq_true] at h
    rcases h with h | h
    · exact hmono (hk.entered c (.inr (.inr h)))
    · exact hmono (hk.entered_of_ends ho h)

theorem placed_ran {c : BrokerClient} (h : (i.onPast s.db p).placed c = true) {u : Tid} {j : Instr}
    (hj : j ∈ (s.ran t i rest pk).proc u) : j.entering ≠ some c := by
  intro hc
  simp only [Instr.onPast, Bool.or_eq_true, decide_eq_true_eq] at h
  rcases h with h | rfl
  · rcases mem_ran hp hj with hj' | ⟨-, hj'⟩
    · exact hk.placed c h u j hj' hc
    · have hi := entering_of_leads (leadsTo_of_mem hj') hc
      rw [hk.not_inserts hp (hk.entered c (.inr (.inl h)))] at hi
      cases hi
  · rw [ho.not_entering_ran hp rfl hj] at hc
    cases hc

theorem returned_ran {c : BrokerClient} (h : (i.onPast s.db p).returned c = true) :
    (i.onPast s.db p).placed c = true := by
  simp only [Instr.onPast, Bool.or_eq_true, decide_eq_true_eq] at h ⊢
  rcases h with h | rfl
  · exact .inl (hk.returned c h)
  · rcases hk.ok c t (head_mem hp) with h | h
    · exact .inl h
    · obtain ⟨g, hg⟩ := ho.task t
      obtain ⟨g', hn, -⟩ := hg.next hp
      simp only [Instr.next, Option.ite_none_right_eq_some] at hn
      have he := entering_of_mem hg.runs h rfl
      rw [hn.1] at he
      cases he

theorem ended_ran {c : BrokerClient} (h : (i.onPast s.db p).ended c = true) :
    (i.onPast s.db p).left c = true ∨
    ∃ q, (i.onPast s.db p).parent c = some q ∧ (i.onPast s.db p).left q = true := by
  simp only [Instr.onPast, Bool.or_eq_true] at h
  rcases h with h | h
  · rcases hk.ended c h with h' | ⟨q, hq, h'⟩
    · exact .inl (by simp [Instr.onPast, h'])
    · refine .inr ⟨q, ?_, by simp [Instr.onPast, h']⟩
      rw [hk.parent_ran hp (hk.entered c (.inr (.inr h))), hq]
  · rcases Instr.ends_iff.mp h with h' | ⟨q, rfl, hr⟩
    · exact .inl (by simp [Instr.onPast, h'])
    · refine .inr ⟨q, ?_, ?_⟩
      · rw [hk.parent_ran hp (hk.entered_of_ends ho h)]
        exact hk.child q c (.inr ⟨t, head_mem hp⟩)
      · have := hk.tears t _ (head_mem hp) q rfl
        simp [Instr.onPast, this]

theorem tears_ran {u : Tid} {j : Instr} (hj : j ∈ (s.ran t i rest pk).proc u) {q : BrokerClient}
    (hq : j.tears = some q) : (i.onPast s.db p).left q = true := by
  have hmono : p.left q = true → (i.onPast s.db p).left q = true :=
    fun h => by simp [Instr.onPast, h]
  -- the teardown of a primary is not done in anybody's loop
  have hown : ∀ r, i = .drop q r → (s.db.cell q).registered = true → q.primary = true →
      (i.onPast s.db p).left q = true := by
    rintro r rfl hr hpr
    cases r with
    | none => simp [Instr.onPast, Instr.ousts, hr]
    | some r =>
      obtain ⟨g, hg⟩ := ho.task t
      obtain ⟨g', hn, -⟩ := hg.next hp
      simp only [Instr.next, Option.ite_none_right_eq_some, hpr] at hn
      cases hn.1.2
  rcases mem_ran hp hj with hj' | ⟨-, hj'⟩
  · exact hmono (hk.tears u j hj' q hq)
  · cases leadsTo_of_mem hj' with
    | lockOwn hr hpr => cases hq; exact hown _ rfl hr hpr
    | loop hr hpr => cases hq; exact hown _ rfl hr hpr
    | find _ => cases hq; exact hmono (hk.tears t _ (head_mem hp) _ rfl)
    | clear _ => cases hq; exact hmono (hk.tears t _ (head_mem hp) _ rfl)
    | drop _ => cases hq; exact hmono (hk.tears t _ (head_mem hp) _ rfl)
    | plain h => rw [Instr.plain_tears h] at hq; cases hq
    | _ => cases hq

end Records

section Names

include ho hk hp

theorem child_ran {q c : BrokerClient} (h : Pending (s.ran t i rest pk) (.join q c) ∨
    Pending (s.ran t i rest pk) (.drop c (some q))) : (i.onPast s.db p).parent c = some q := by
  have hold : ∀ j : Instr, j.subject = some c → Pending s j →
      (i.onPast s.db p).parent c = p.parent c :=
    fun j hj ⟨u, hu⟩ => hk.parent_ran hp (hk.entered c (.inl (.inr (.inr ⟨u, j, hu, hj⟩))))
  rcases h with h | h
  · rcases pending_of_ran hp h with h | h
    · rw [hold _ rfl h]
      exact hk.child q c (.inl h)
    · cases leadsTo_of_mem h with
      | join hv => simp [Instr.onPast, Instr.inserts, hv]
      | plain h => cases h
  · rcases pending_of_ran hp h with h | h
    · rw [hold _ rfl h]
      exact hk.child q c (.inr h)
    · cases leadsTo_of_mem h with
      | drop hl =>
        have htk : Takes s _ c := .inl hl
        rw [hk.parent_ran hp (hk.entered c (.inl (htk.entered ho)))]
        exact hk.found q _ c ⟨t, head_mem hp⟩ htk
      | plain h => cases h

omit hk in
/-- Before a teardown has read the secondaries, nobody is at clearing them. -/
theorem not_clear {q : BrokerClient} (hi : i = .secondaries q) (u : Tid) : .clear q ∉ s.proc u := by
  subst hi
  intro hm
  obtain ⟨h, hh⟩ := ho.task t
  obtain ⟨g, hg⟩ := ho.task u
  obtain ⟨h', hn, -⟩ := hh.next hp
  simp only [Instr.next, Option.ite_none_right_eq_some] at hn
  have hloop := looping_of_mem hg.runs hm rfl
  obtain rfl : t = u := hh.has_inj hg (m := .secondaries q) (.inl ⟨q, by rw [hn.1]; rfl, rfl⟩)
    (.inl ⟨q, by simp [Hold.torn, hloop, Tear.client], rfl⟩)
  have := looping_of_mem hh.runs hm rfl
  rw [hn.1] at this
  cases this

theorem found_ran (hg : ∀ c b pc, i = .insert c b → vacant s.db c = some pc → Vacated s c pc)
    {q d : BrokerClient} {n : String} (hf : Pending (s.ran t i rest pk) (.find q n))
    (ht : Takes (s.ran t i rest pk) n d) :
    (i.onPast s.db p).parent d = some q := by
  rcases ht.of_ran hp with ht' | ⟨hi, rfl⟩
  · rw [hk.parent_ran hp (hk.entered d (.inl (ht'.entered ho)))]
    rcases pending_of_ran hp hf with hf' | hf'
    · exact hk.found q n d hf' ht'
    · cases leadsTo_of_mem hf' with
      | find hm => exact hk.listed q n d hm (not_clear ho hp rfl) ht'
      | plain h => cases h
  · obtain ⟨b, pc, rfl, hv⟩ := Instr.inserts_iff.mp hi
    rcases pending_of_ran hp hf with ⟨u, hf⟩ | hf
    · have hpc : pc = some q := by
        by_contra hne
        exact (hg d b pc rfl hv).passed q hne u hf
      simp [Instr.onPast, hi, hv, hpc]
    · cases leadsTo_of_mem hf with
      | plain h => cases h

theorem listed_ran (hg : ∀ c b pc, i = .insert c b → vacant s.db c = some pc → Vacated s c pc)
    {q d : BrokerClient} {n : String} (hm : n ∈ ((s.ran t i rest pk).db.cell q).secondaries)
    (hcl : ∀ u, .clear q ∉ (s.ran t i rest pk).proc u) (ht : Takes (s.ran t i rest pk) n d) :
    (i.onPast s.db p).parent d = some q := by
  have hno : ∀ u, .clear q ∉ s.proc u := by
    intro u hu
    have hpend : Pending s (.clear q) := ⟨u, hu⟩
    have hafter : _ ∨ Pending (s.ran t i rest pk) (.clear q) := hpend.ran hp
    rcases hafter with rfl | ⟨v, hv⟩
    · have hm' : n ∈ (((Instr.clear q).onDb s.db).cell q).secondaries := hm
      simp [secondaries_onDb] at hm'
    · exact hcl v hv
  rcases ht.of_ran hp with ht' | ⟨hi, rfl⟩
  · rw [hk.parent_ran hp (hk.entered d (.inl (ht'.entered ho)))]
    rcases mem_secondaries_of_onDb hm with hm' | ⟨c, rfl, rfl⟩
    · exact hk.listed q n d hm' hno ht'
    · rcases ht' with hl | ⟨⟨u, hu⟩, hn⟩
      · rw [hk.unused c t _ (head_mem hp) rfl] at hl
        cases hl
      · obtain rfl : c = d := ho.entering_inj (head_mem hp) hu rfl rfl
        exact hk.child q c (.inl ⟨t, head_mem hp⟩)
  · obtain ⟨b, pc, rfl, hv⟩ := Instr.inserts_iff.mp hi
    rcases mem_secondaries_of_onDb hm with hm | ⟨c, h, -⟩
    · have hpc : pc = some q := by
        by_contra hne
        obtain ⟨u, hu⟩ := (hg d b pc rfl hv).read q hne hm
        exact hno u hu
      simp [Instr.onPast, hi, hv, hpc]
    · cases h

theorem unused_ran {c : BrokerClient} {u : Tid} {j : Instr} (hj : j ∈ (s.ran t i rest pk).proc u)
    (hc : j.entering = some c) : (s.ran t i rest pk).db.lookup c.name = none := by
  have hren : i.renames = false := by
    refine Bool.eq_false_iff.mpr fun hren => ?_
    rw [ho.not_entering_ran hp hren hj] at hc
    cases hc
  refine (lookup_of_renames hren s.db c.name).trans ?_
  rcases mem_ran hp hj with hj' | ⟨-, hj'⟩
  · exact hk.unused c u j hj' hc
  · obtain ⟨b, pc, -, hv⟩ := Instr.inserts_iff.mp (entering_of_leads (leadsTo_of_mem hj') hc)
    exact (vacant_eq.mp hv).1

end Names

section Standing

theorem stands_of_onPast {db : BrokerDb S} {d : BrokerClient} (h : (i.onPast db p).stands d) :
    (p.stands d ∨ i.inserts db d = true) ∧ i.ends db d = false := by
  obtain ⟨he, hn⟩ := h
  simp only [Instr.onPast, Bool.or_eq_true, Bool.or_eq_false_iff] at he hn
  exact ⟨he.imp_left fun he => ⟨he, hn.1⟩, hn.2⟩

include hk in
/-- Who stands is removed by nobody. -/
theorem not_removes {d : BrokerClient} (hd : p.stands d) {u : Tid} {j : Instr} (hj : j ∈ s.proc u)
    {c : BrokerClient} (hc : j.removes = some c) : c.name ≠ d.name := by
  intro hn
  by_cases hcd : c = d
  · subst hcd
    have := hk.removes u j hj c hc
    rw [hd.2] at this
    cases this
  · exact ((hk.alone d hd c hcd hn).2 u j hj).1 hc

include hk in
/-- Nor is another instance of the name inserted. -/
theorem eq_of_entering {d : BrokerClient} (hd : p.stands d) {u : Tid} {j : Instr}
    (hj : j ∈ s.proc u) {c : BrokerClient} (hc : j.entering = some c) (hn : c.name = d.name) :
    c = d := by
  by_contra hcd
  exact ((hk.alone d hd c hcd hn).2 u j hj).2 hc

include hk in
/-- An entry for the name of a client that stands is its own. -/
theorem held_eq {d x : BrokerClient} (hd : p.stands d)
    (h : S.bcast.held s.db.broadcasts (S.sha256 d.name) = some x) : x = d := by
  obtain ⟨hn, hr | ⟨u, hu⟩ | ⟨u, hu⟩⟩ := hk.held d.name x h
  · by_contra hx
    rw [(hk.alone d hd x hx hn).1] at hr
    cases hr
  · exact absurd hn (hk.not_removes hd hu rfl)
  · exact hk.eq_of_entering hd hu rfl hn

/-- A step of an insertion was done, or it is still to be done. -/
theorem pending_or {P : Prop} {j : Instr} (hp : s.proc t = i :: rest) (hi : j = i → P)
    (hj : Pending s j) :
    P ∨ Pending (s.ran t i rest pk) j :=
  (hj.ran hp).imp_left hi

include hk hp

theorem alone_ran (ho : Orderly s)
    (hg : ∀ c b pc, i = .insert c b → vacant s.db c = some pc → Vacated s c pc) {d : BrokerClient}
    (hd : (i.onPast s.db p).stands d) {x : BrokerClient} (hx : x ≠ d) (hn : x.name = d.name) :
    ((s.ran t i rest pk).db.cell x).registered = false ∧
      ∀ u, ∀ j ∈ (s.ran t i rest pk).proc u, j.removes ≠ some x ∧ j.entering ≠ some x := by
  rcases (stands_of_onPast hd).1 with hd' | hi
  · obtain ⟨hr, ha⟩ := hk.alone d hd' x hx hn
    refine ⟨Bool.eq_false_iff.mpr fun h => ?_, fun u j hj => ⟨fun hc => ?_, fun hc => ?_⟩⟩
    · rcases registered_of_onDb h with h | rfl
      · rw [hr] at h; cases h
      · exact (ha t _ (head_mem hp)).2 rfl
    · rcases mem_ran hp hj with hj' | ⟨-, hj'⟩
      · exact (ha u j hj').1 hc
      · obtain ⟨q, -, hr'⟩ := removes_of_leads (leadsTo_of_mem hj') hc
        rw [hr] at hr'
        cases hr'
    · rcases mem_ran hp hj with hj' | ⟨-, hj'⟩
      · exact (ha u j hj').2 hc
      · obtain ⟨b, pc, rfl, hv⟩ := Instr.inserts_iff.mp (entering_of_leads (leadsTo_of_mem hj') hc)
        rcases hk.lookup d hd' with hl | ⟨v, hl⟩
        · rw [← hn, (vacant_eq.mp hv).1] at hl
          cases hl
        · cases ho.not_entering_insert hp hl
  · obtain ⟨b, pc, rfl, hv⟩ := Instr.inserts_iff.mp hi
    have hc := hg d b pc rfl hv
    refine ⟨Bool.eq_false_iff.mpr fun h => ?_, fun u j hj => ⟨fun hx' => ?_, fun hx' => ?_⟩⟩
    · rcases registered_of_onDb h with h | h
      · rw [hc.unflagged x hx hn] at h; cases h
      · cases h
    · rcases mem_ran hp hj with hj' | ⟨-, hj'⟩
      · exact hc.removed x hx hn u j hj' hx'
      · obtain ⟨q, h, -⟩ := removes_of_leads (leadsTo_of_mem hj') hx'
        cases h
    · rcases mem_ran hp hj with hj' | ⟨-, hj'⟩
      · rw [ho.not_entering_insert hp hj'] at hx'
        cases hx'
      · obtain ⟨b', pc', h, -⟩ := Instr.inserts_iff.mp (entering_of_leads (leadsTo_of_mem hj') hx')
        cases h
        exact hx rfl

theorem held_ran {n : String} {x : BrokerClient}
    (h : S.bcast.held (s.ran t i rest pk).db.broadcasts (S.sha256 n) = some x) : x.name = n ∧
      (((s.ran t i rest pk).db.cell x).registered = true ∨
        Pending (s.ran t i rest pk) (.leaveBroadcasts x) ∨
        Pending (s.ran t i rest pk) (.flag x)) := by
  have hfol := hk.follows t
  rw [hp] at hfol
  -- what accounts for an entry still does, unless it is the entry's removal that was done
  have hkeep : i ≠ .leaveBroadcasts x → x.name = n ∧
      ((s.db.cell x).registered = true ∨ Pending s (.leaveBroadcasts x) ∨
      Pending s (.flag x)) → x.name = n ∧ (((s.ran t i rest pk).db.cell x).registered = true ∨
        Pending (s.ran t i rest pk) (.leaveBroadcasts x) ∨
          Pending (s.ran t i rest pk) (.flag x)) := by
    rintro hi ⟨hn, h⟩
    refine ⟨hn, ?_⟩
    rcases h with h | h | h
    · by_cases hu : i = .unflag x
      · subst hu
        exact .inr (.inl (pending_of_rest (hfol.1 _ (by simp [Instr.needs]))))
      · exact .inl (registered_onDb_of h hu)
    · exact .inr (.inl ((h.ran hp).resolve_left fun he => hi he.symm))
    · rcases h.ran hp with rfl | h
      · exact .inl ((registered_onDb (.flag x) s.db x).trans (if_pos rfl))
      · exact .inr (.inr h)
  have h' : S.bcast.held (i.onDb s.db).broadcasts (S.sha256 n) = some x := h
  rw [held_onDb] at h'
  split at h'
  · rename_i c
    split at h'
    · rename_i hn
      cases hh : S.bcast.held s.db.broadcasts (S.sha256 n) with
      | none =>
        rw [hh] at h'
        obtain rfl := Option.some.inj h'
        exact ⟨hn.symm, .inr (.inr (pending_of_rest (hfol.1 _ (by simp [Instr.needs]))))⟩
      | some y =>
        rw [hh] at h'
        obtain rfl := Option.some.inj h'
        exact hkeep (fun he => by cases he) (hk.held n y hh)
    · exact hkeep (fun he => by cases he) (hk.held n x h')
  · rename_i c
    split at h'
    · cases h'
    · rename_i hn
      have hh := hk.held n x h'
      refine hkeep (fun he => hn ?_) hh
      cases he
      exact hh.1.symm
  · rename_i hne
    refine hkeep (fun he => ?_) (hk.held n x h')
    exact hne x he

theorem lookup_ran {d : BrokerClient} (hd : (i.onPast s.db p).stands d) :
    (s.ran t i rest pk).db.lookup d.name = some d ∨ Pending (s.ran t i rest pk) (.place d) := by
  obtain ⟨hd' | hi, hne⟩ := stands_of_onPast hd
  · rcases hk.lookup d hd' with hl | hl
    · refine .inl ((lookup_onDb ..).trans ?_)
      split
      · rename_i c
        split
        · rename_i hn
          rw [hk.eq_of_entering hd' (head_mem hp) rfl hn.symm]
        · exact hl
      · rename_i c
        split
        · rename_i hn
          rw [hn] at hl
          rw [Instr.ends_iff.mpr (.inl (Instr.ousts_iff.mpr (.inr ⟨c, rfl, hl⟩)))] at hne
          cases hne
        · exact hl
      · rename_i c
        split
        · rename_i hn
          exact absurd hn.symm (hk.not_removes hd' (head_mem hp) rfl)
        · exact hl
      · exact hl
    · refine pending_or hp ?_ hl
      rintro rfl
      exact (lookup_onDb ..).trans (if_pos rfl)
  · exact .inr (pending_of_leads (mem_leads_of_inserts hi (by simp)))

theorem flagged_ran {d : BrokerClient} (hd : (i.onPast s.db p).stands d) :
    ((s.ran t i rest pk).db.cell d).registered = true ∨ Pending (s.ran t i rest pk) (.flag d) := by
  rcases (stands_of_onPast hd).1 with hd' | hi
  · rcases hk.flagged d hd' with hr | hr
    · refine .inl (registered_onDb_of hr ?_)
      rintro rfl
      exact hk.not_removes hd' (head_mem hp) rfl rfl
    · refine pending_or hp ?_ hr
      rintro rfl
      exact (registered_onDb (.flag d) s.db d).trans (if_pos rfl)
  · exact .inr (pending_of_leads (mem_leads_of_inserts hi (by simp)))

theorem broadcasts_ran {d : BrokerClient} (hd : (i.onPast s.db p).stands d) :
    S.bcast.held (s.ran t i rest pk).db.broadcasts (S.key d) = some d ∨
      Pending (s.ran t i rest pk) (.enterBroadcasts d) := by
  rcases (stands_of_onPast hd).1 with hd' | hi
  · rcases hk.broadcasts d hd' with hh | hh
    · refine .inl ((held_onDb ..).trans ?_)
      split
      · split
        · rw [show S.bcast.held s.db.broadcasts (S.sha256 d.name) = some d from hh]
          rfl
        · exact hh
      · split
        · rename_i hn
          exact absurd hn.symm (hk.not_removes hd' (head_mem hp) rfl)
        · exact hh
      · exact hh
    · refine pending_or hp ?_ hh
      rintro rfl
      refine (held_onDb ..).trans ((if_pos rfl).trans ?_)
      cases hx : S.bcast.held s.db.broadcasts (S.sha256 d.name) with
      | none => rfl
      | some x => rw [hk.held_eq hd' hx]; rfl
  · exact .inr (pending_of_leads (mem_leads_of_inserts hi (by simp)))

theorem subscriptions_ran {d : BrokerClient} (hd : (i.onPast s.db p).stands d) :
    (S.sub.held (s.ran t i rest pk).db.subscriptions (S.key d)).isSome ∨
      Pending (s.ran t i rest pk) (.enterSubscriptions d) := by
  rcases (stands_of_onPast hd).1 with hd' | hi
  · rcases hk.subscriptions d hd' with hh | hh
    · refine .inl ((isSome_onDb ..).trans ?_)
      split
      · split
        · rfl
        · exact hh
      · split
        · rename_i hn
          exact absurd hn.symm (hk.not_removes hd' (head_mem hp) rfl)
        · exact hh
      · exact hh
    · refine pending_or hp ?_ hh
      rintro rfl
      exact (isSome_onDb ..).trans (if_pos rfl)
  · exact .inr (pending_of_leads (mem_leads_of_inserts hi (by simp)))

end Standing

include ho hk hp in
/-- **Every instruction keeps it**, when names are inserted only once they are vacated. -/
theorem ran (hg : ∀ c b pc, i = .insert c b → vacant s.db c = some pc → Vacated s c pc) :
    Accounted (s.ran t i rest pk) (i.onPast s.db p) where
  follows := Follows.ran hp hk.follows follows_leads
  lt _ h := hk.lt_ran ho hp h
  token _ _ hj _ hc := hk.token_ran ho hp hj hc
  entered _ h := hk.entered_ran ho hp h
  placed _ h _ _ hj := hk.placed_ran ho hp h hj
  ok _ _ hj := hk.ok_ran hp hj
  returned _ h := hk.returned_ran ho hp h
  removes _ _ hj _ hc := hk.removes_ran hp hj hc
  ended _ h := hk.ended_ran ho hp h
  tears _ _ hj _ hq := hk.tears_ran ho hp hj hq
  child _ _ h := hk.child_ran ho hp h
  found _ _ _ hf ht := hk.found_ran ho hp hg hf ht
  listed _ _ _ hm hcl ht := hk.listed_ran ho hp hg hm hcl ht
  unused _ _ _ hj hc := hk.unused_ran ho hp hj hc
  alone _ hd _ hx hn := hk.alone_ran hp ho hg hd hx hn
  held _ _ h := hk.held_ran hp h
  lookup _ hd := hk.lookup_ran hp hd
  flagged _ hd := hk.flagged_ran hp hd
  broadcasts _ hd := hk.broadcasts_ran hp hd
  subscriptions _ hd := hk.subscriptions_ran hp hd

/-- What else a task that is given something to do leaves alone. -/
structure Quiet (s s' : Mach S) (t : Tid) (l : List Instr) :
    Prop extends Orderly.Restart s s' t l where
  cell : ∀ c, c.id < s.db.nextId → (s'.db.cell c).registered = (s.db.cell c).registered
  broadcasts : s'.db.broadcasts = s.db.broadcasts
  subscriptions : s'.db.subscriptions = s.db.subscriptions
  other : ∀ i ∈ l, i.needs = [] ∧ i.tears = none ∧ ∀ c, i ≠ .ok c

namespace Quiet

variable {s' : Mach S} {l : List Instr} {u : Tid} {j : Instr} (hr : Quiet s s' t l)
include hr

/-- What the task was at was no insertion, no removal and no loop. -/
theorem pending (h : Pending s j) (hj : j.entering.isSome ∨ j.removes.isSome ∨ j.looping.isSome) :
    Pending s' j := by
  obtain ⟨u, hu⟩ := h
  refine ⟨u, ?_⟩
  rw [hr.proc u, if_neg]
  · exact hu
  · rintro rfl
    rcases hj with hj | hj | hj <;> obtain ⟨c, hc⟩ := Option.isSome_iff_exists.mp hj
    · cases entering_of_mem hr.idle.runs hu hc
    · cases down_of_mem hr.idle.runs hu hc
    · cases looping_of_mem hr.idle.runs hu hc

theorem old (hu : j ∈ s'.proc u) (hj : j.subject.isSome ∨ j.tears.isSome) : j ∈ s.proc u := by
  rcases hr.mem hu with h | ⟨-, h⟩
  · exact h
  · rcases hj with hj | hj
    · rw [(hr.plain j h).1] at hj; cases hj
    · rw [(hr.other j h).2.1] at hj; cases hj

theorem old_pending (h : Pending s' j) (hj : j.subject.isSome ∨ j.tears.isSome) : Pending s j :=
  h.imp fun _ hu => hr.old hu hj

theorem takes {n : String} {d : BrokerClient} (h : Takes s' n d) : Takes s n d := by
  rcases h with h | ⟨h, hn⟩
  · exact .inl (hr.lookup n ▸ h)
  · exact .inr ⟨hr.old_pending h (.inl rfl), hn⟩

theorem kept (ho : Orderly s) (hk : Accounted s p) : Accounted s' p where
  follows u := by
    rw [hr.proc u]
    split
    · exact .of_forall fun j hj => (hr.other j hj).1
    · exact hk.follows u
  lt c hc := lt_of_lt_of_le (hk.lt c hc) hr.nextId
  token u j hj c hc := by
    rcases hr.mem hj with hj' | ⟨-, hj'⟩
    · exact hk.token u j hj' c hc
    · refine Bool.eq_false_iff.mpr fun he => ?_
      exact absurd (hk.lt c he) (not_lt_of_ge (hr.token j hj' c hc).1)
  entered c h := hk.entered c (h.imp_left hr.entered)
  placed c h u j hj hc := by
    have hs := subject_of_entering hc
    exact hk.placed c h u j (hr.old hj (.inl (by rw [hs]; rfl))) hc
  ok c u hu := by
    rcases hr.mem hu with hu' | ⟨-, hu'⟩
    · rcases hk.ok c u hu' with h | h
      · exact .inl h
      · refine .inr ?_
        rw [hr.proc u, if_neg]
        · exact h
        · rintro rfl
          cases entering_of_mem hr.idle.runs h rfl
    · exact absurd rfl ((hr.other _ hu').2.2 c)
  returned := hk.returned
  removes u j hj c hc := by
    have hs := subject_of_removes hc
    exact hk.removes u j (hr.old hj (.inl (by rw [hs]; rfl))) c hc
  ended := hk.ended
  tears u j hj q hq := hk.tears u j (hr.old hj (.inr (by rw [hq]; rfl))) q hq
  child q c h := hk.child q c (h.imp (hr.old_pending · (.inl rfl)) (hr.old_pending · (.inl rfl)))
  found q n d hf ht := hk.found q n d (hr.old_pending hf (.inr rfl)) (hr.takes ht)
  listed q n d hm hcl ht := by
    refine hk.listed q n d (hr.secondaries q n hm) (fun u hu => ?_) (hr.takes ht)
    obtain ⟨v, hv⟩ := hr.pending ⟨u, hu⟩ (.inr (.inr rfl))
    exact hcl v hv
  unused c u j hj hc := by
    have hs := subject_of_entering hc
    rw [hr.lookup]
    exact hk.unused c u j (hr.old hj (.inl (by rw [hs]; rfl))) hc
  alone d hd x hx hn := by
    obtain ⟨h1, h2⟩ := hk.alone d hd x hx hn
    refine ⟨Bool.eq_false_iff.mpr fun h => ?_, fun u j hj => ⟨fun hc => ?_, fun hc => ?_⟩⟩
    · rw [hr.registered x h] at h1; cases h1
    · exact (h2 u j (hr.old hj (.inl (by rw [subject_of_removes hc]; rfl)))).1 hc
    · exact (h2 u j (hr.old hj (.inl (by rw [subject_of_entering hc]; rfl)))).2 hc
  held n x h := by
    rw [hr.broadcasts] at h
    obtain ⟨hn, h | h | h⟩ := hk.held n x h
    · refine ⟨hn, .inl ?_⟩
      rw [hr.cell x (ho.entered_lt x (.inl h)), h]
    · exact ⟨hn, .inr (.inl (hr.pending h (.inr (.inl rfl))))⟩
    · exact ⟨hn, .inr (.inr (hr.pending h (.inl rfl)))⟩
  lookup d hd := by
    rw [hr.lookup]
    exact (hk.lookup d hd).imp_right (hr.pending · (.inl rfl))
  flagged d hd := by
    rw [hr.cell d (hk.lt d hd.1)]
    exact (hk.flagged d hd).imp_right (hr.pending · (.inl rfl))
  broadcasts d hd := by
    rw [hr.broadcasts]
    exact (hk.broadcasts d hd).imp_right (hr.pending · (.inl rfl))
  subscriptions d hd := by
    rw [hr.subscriptions]
    exact (hk.subscriptions d hd).imp_right (hr.pending · (.inl rfl))

end Quiet

theorem quiet_register (hro : Orderly s) (hpr : s.proc t = []) (name kind source port) :
    let r := s.db.alloc name kind source port
    Quiet s (({ s with db := r.2 } : Mach S).setProc t [.lock .clients, .insert r.1 false]) t
      [.lock .clients, .insert r.1 false] where
  toRestart := hro.restart_register hpr name kind source port
  cell c hc := by
    simp only [alloc, Mach.setProc_db, setCell_cell]
    rw [if_neg]
    rintro rfl
    exact lt_irrefl _ hc
  broadcasts := rfl
  subscriptions := rfl
  other i hi := by
    simp only [List.mem_cons, List.not_mem_nil, or_false] at hi
    obtain rfl | rfl := hi
    · exact ⟨rfl, rfl, fun _ he => by cases he⟩
    · exact ⟨rfl, rfl, fun _ he => by cases he⟩

theorem quiet_spawn (hro : Orderly s) (hpr : s.proc t = []) (errand : Errand) :
    Quiet s (s.setProc t errand.prog) t errand.prog where
  toRestart := hro.restart_spawn hpr errand
  cell _ _ := rfl
  broadcasts := rfl
  subscriptions := rfl
  other _ hi := Errand.quiet_prog hi

theorem quiet_cancel (hidle : TaskOk s t .free) (r : Option Tid) :
    Quiet s (({ s with rpcClient := r } : Mach S).setProc t []) t [] where
  toRestart := Orderly.restart_cancel hidle r
  cell _ _ := rfl
  broadcasts := rfl
  subscriptions := rfl
  other i hi := by cases hi

/-- **Every step keeps it**, under the condition. -/
theorem step {l : MachLabel} {s' : Mach S} (hos : Orderly s) (hks : Accounted s p)
    (hg : Unhurried s l) (h : MachSteps s l s') : Accounted s' (pastAfter s l p) := by
  cases machStep_effect h with
  | register t name kind source port hl hpr hs =>
    subst hl hs
    exact (quiet_register hos hpr name kind source port).kept hos hks
  | spawn t errand hl hpr hs =>
    subst hl hs
    exact (quiet_spawn hos hpr errand).kept hos hks
  | run t pk i rest hl hpr _ hs =>
    subst hl hs
    have hpast : pastAfter s (.run t pk) p = i.onPast s.db p := by simp [pastAfter, hpr]
    rw [hpast]
    refine hks.ran hos hpr fun c b pc hi hv => ?_
    exact hg c b pc (by rw [hpr, hi]; rfl) hv
  | cancel t i rest hl hpr hi hs =>
    subst hl hs
    exact (quiet_cancel (hos.idle_of_awaits hpr hi) _).kept hos hks

theorem start {db : BrokerDb S} (hdb : Inv db) : Accounted (Mach.start db) (Past.start db) where
  follows t := trivial
  lt c hc := hdb.fresh c.name c ((hdb.registered_iff c).mp hc)
  token t i hi := by cases hi
  entered c h := by
    rcases h with (h | h | ⟨t, i, hi, -⟩) | h | h
    · exact h
    · exact (hdb.registered_iff c).mpr h
    · cases hi
    · exact h
    · cases h
  placed c h t i hi := by cases hi
  ok c t hi := by cases hi
  returned c h := h
  removes t i hi := by cases hi
  ended c h := by cases h
  tears t i hi := by cases hi
  child q c h := by rcases h with ⟨t, hi⟩ | ⟨t, hi⟩ <;> cases hi
  found q n d hf := by obtain ⟨t, hi⟩ := hf; cases hi
  listed q n d hm _ ht := by
    obtain ⟨⟨hq, -⟩, c, hl, hc, hcq⟩ := (hdb.mem_secondaries q n).mp hm
    obtain rfl : c = d := by
      rcases ht with ht | ⟨⟨t, hi⟩, -⟩
      · exact Option.some.inj (hl.symm.trans ht)
      · cases hi
    simp only [Past.start, hc, Bool.false_eq_true, if_false]
    rw [hcq, hq]
  unused c t i hi := by cases hi
  alone d hd x hx hn := by
    refine ⟨Bool.eq_false_iff.mpr fun h => hx ?_, fun t i hi => by cases hi⟩
    have h1 := (hdb.registered_iff x).mp h
    have h2 := (hdb.registered_iff d).mp hd.1
    rw [hn] at h1
    exact Option.some.inj (h1.symm.trans h2)
  held n x h := by
    have hl : db.lookup n = some x := (hdb.broadcasts_eq n).symm.trans h
    have hn := hdb.name_eq n x hl
    exact ⟨hn, .inl ((hdb.registered_iff x).mpr (by rw [hn, hl]))⟩
  lookup d hd := .inl ((hdb.registered_iff d).mp hd.1)
  flagged d hd := .inl hd.1
  broadcasts d hd := .inl ((hdb.broadcasts_eq d.name).trans ((hdb.registered_iff d).mp hd.1))
  subscriptions d hd := by
    refine .inl ((hdb.subscriptions_iff d.name).trans ?_)
    rw [(hdb.registered_iff d).mp hd.1]
    rfl

end Accounted

/-! ### What follows for whole runs -/

/-- **Nobody is removed by another's teardown**, when every insertion finds its name vacated: a
client whose registration returned, whose own teardown did not begin, who was not displaced, and
whose primary's teardown did not begin either, is in `clients`, `broadcasts` and `subscriptions`. -/
theorem present_of_vacated {db : BrokerDb S} (hdb : Inv db) {ls : List MachLabel} {s : Mach S}
    {p : Past}
    (h : Run (Guarded (Tracked MachSteps pastAfter) fun q l => Unhurried q.1 l) (Mach.start db,
      Past.start db) ls (s, p))
    {d : BrokerClient} (hr : p.returned d = true) (hl : p.left d = false)
    (hq : ∀ q, p.parent d = some q → p.left q = false) :
    s.db.lookup d.name = some d ∧ S.bcast.held s.db.broadcasts (S.key d) = some d ∧
      (S.sub.held s.db.subscriptions (S.key d)).isSome := by
  have hk : Orderly s ∧ Accounted s p := by
    refine h.inv (I := fun q => Orderly q.1 ∧ Accounted q.1 q.2) ?_ ⟨.start hdb, .start hdb⟩
    rintro ⟨s, p⟩ l ⟨s', p'⟩ ⟨ho, hk⟩ ⟨hg, hst, rfl⟩
    exact ⟨ho.step hst, hk.step ho hg hst⟩
  exact hk.2.present hr hl hq

/-- In a registry that is in order, and with nobody else at anything, the name is vacated. -/
theorem vacated_of_inv {s : Mach S} {c : BrokerClient} {pc : Option BrokerClient} (hdb : Inv s.db)
    (hv : vacant s.db c = some pc) (hidle : ∀ t, ∀ i ∈ s.proc t, i.token.isSome) :
    Vacated s c pc where
  unflagged x _ hn := by
    refine Bool.eq_false_iff.mpr fun hr => ?_
    have hl := (hdb.registered_iff x).mp hr
    rw [hn, (vacant_eq.mp hv).1] at hl
    cases hl
  removed x _ _ t i hi hx := by
    have ht := hidle t i hi
    cases i <;> cases hx <;> cases ht
  passed q _ t hi := by cases hidle t _ hi
  read q _ hm := by
    obtain ⟨-, d, hl, -⟩ := (hdb.mem_secondaries q c.name).mp hm
    rw [(vacant_eq.mp hv).1] at hl
    cases hl

/-- The step is no insertion. -/
def notInsert (s : Mach S) : MachLabel → Bool
  | .run t _ => match (s.proc t).head? with
    | some (.insert _ _) => false
    | _ => true
  | _ => true

theorem unhurried_of_notInsert {s : Mach S} {l : MachLabel} (h : notInsert s l = true) :
    Unhurried s l := by
  cases l with
  | run t pk =>
    intro c b pc hi
    simp [notInsert, hi] at h
  | _ => trivial

/-- Whose step it is. -/
def MachLabel.task : MachLabel → Tid
  | .register t .. | .spawn t _ | .run t _ | .cancel t => t

/-- A step of a task leaves what the others have to do. -/
theorem proc_of_ne {s s' : Mach S} {l : MachLabel} (h : MachSteps s l s') {u : Tid}
    (hu : u ≠ l.task) :
    s'.proc u = s.proc u := by
  cases machStep_effect h with
  | register _ _ _ _ _ hl _ hs
  | spawn _ _ hl _ hs
  | run _ _ _ _ hl _ _ hs
  | cancel _ _ _ hl _ _ hs =>
    subst hl hs
    exact (Mach.setProc_proc ..).trans (if_neg hu)

namespace Reconnect

def old : BrokerClient := ⟨0, "a", .internal, none, none⟩
def new : BrokerClient := ⟨1, "a", .internal, none, none⟩

/-- A broker that lets a later instance take over, with one client. -/
def db : BrokerDb reference :=
  Op.run (BrokerDb.empty reference true false 4) [.register "a" .internal none none]

def goOn (t : Tid) (n : ℕ) : List MachLabel := List.replicate n (.run t (.plain false))

/-- The client is dropped, and the next instance comes after that, up to its insertion. -/
def dropped : List MachLabel :=
  .spawn 0 (.drop old) :: goOn 0 15 ++ [.register 1 "a" .internal none none, .run 1 (.plain false)]

/-- The next instance comes while the teardown of the first is at its last removal. -/
def overtaken : List MachLabel :=
  .spawn 0 (.drop old) :: goOn 0 8 ++ .register 1 "a" .internal none none :: goOn 1 20 ++ goOn 0 2

/-- A step that is no insertion. -/
def checked (q : Mach reference × Past) (l : MachLabel) : Option (Mach reference × Past) :=
  if notInsert q.1 l then track machStep pastAfter q l else none

theorem run_checked {as : List MachLabel} {q q' : Mach reference × Past}
    (h : execList checked q as = some q') :
    Run (Guarded (Tracked MachSteps pastAfter) fun q l => Unhurried q.1 l) q as q' :=
  (run_of_checked (fun _ _ hg => unhurried_of_notInsert hg) h).mono fun _ _ _ hq =>
    ⟨hq.1, tracked_of_track hq.2⟩

end Reconnect

section

open Reconnect

/-- With the first instance gone its name is vacated. -/
theorem Reconnect.vacated {s : Mach reference} {p : Past}
    (h : execList checked (Mach.start db, Past.start db) dropped = some (s, p)) :
    Unhurried s (.run 1 (.plain false)) := by
  have hobs : (execList checked (Mach.start db, Past.start db) dropped).map
      (fun q => (q.1.db, q.1.proc 0, q.1.proc 1)) =
        some (((db.dropClient old).alloc "a" .internal none none).2, [], [.insert new false]) := rfl
  rw [h] at hobs
  obtain ⟨hdb, h0, h1⟩ : s.db = _ ∧ s.proc 0 = [] ∧ s.proc 1 = [.insert new false] := by
    simpa only [Option.map_some, Option.some.injEq, Prod.mk.injEq] using hobs
  have hproc : ∀ u, 2 ≤ u → s.proc u = [] := by
    have hr := (run_checked h).guarded (G := fun _ l => l.task < 2) fun _ l
      hl => by revert l; decide
    refine hr.inv (I := fun q => ∀ u, 2 ≤ u → q.1.proc u = []) ?_ fun _ _ => rfl
    rintro q l q' hq ⟨hl, -, hst, -⟩ u hu
    rw [proc_of_ne hst (Nat.ne_of_gt (lt_of_lt_of_le hl hu))]
    exact hq u hu
  have hinv : Inv s.db := by
    rw [hdb]
    exact Op.inv_alloc (Inv.dropClient (Op.inv_run _ (inv_empty true false 4)) old) ..
  intro c b pc hc hv
  refine vacated_of_inv hinv hv fun t i hi => ?_
  match t with
  | 0 => rw [h0] at hi; cases hi
  | 1 => rw [h1] at hi; rw [List.mem_singleton.mp hi]; rfl
  | t + 2 => rw [hproc (t + 2) (Nat.le_add_left 2 t)] at hi; cases hi

theorem present_of_vacated_after :
    ∃ s p, (Run (Guarded (Tracked MachSteps pastAfter) fun q l => Unhurried q.1 l)
      (Mach.start db, Past.start db) (dropped ++ .run 1 (.plain false) :: goOn 1 10) (s, p) ∧
    Past.returned p new = true ∧ Past.left p new = false) ∧
      s.db.lookup new.name = some new ∧
        reference.bcast.held s.db.broadcasts (reference.key new) = some new ∧
        (reference.sub.held s.db.subscriptions (reference.key new)).isSome := by
  have hrun : ((execList checked (Mach.start db, Past.start db) dropped).bind fun q =>
      (track machStep pastAfter q (.run 1 (.plain false))).bind fun q =>
        execList checked q (goOn 1 10)).map
        (fun q => (q.2.returned new, q.2.left new, q.2.parent new)) =
          some (true, false, none) := by decide
  obtain ⟨⟨s, p⟩, hs, hobs⟩ := Option.map_eq_some_iff.mp hrun
  obtain ⟨⟨s₁, p₁⟩, h₁, hs⟩ := Option.bind_eq_some_iff.mp hs
  obtain ⟨q₂, h₂, h₃⟩ := Option.bind_eq_some_iff.mp hs
  obtain ⟨hret, hleft, hpar⟩ : p.returned new = true ∧ p.left new = false ∧
      p.parent new = none := by
    simpa only [Prod.mk.injEq] using hobs
  have hr := (run_checked h₁).append (.cons ⟨Reconnect.vacated h₁,
    tracked_of_track h₂⟩ (run_checked h₃))
  have hdb : Inv db := Op.inv_run _ (inv_empty true false 4)
  exact ⟨s, p, ⟨hr, hret, hleft⟩,
    present_of_vacated hdb hr hret hleft fun q hq => by rw [hpar] at hq; cases hq⟩

end

open Reconnect in
/-- The tail of the first instance's teardown removes the next one. -/
theorem removed_by_predecessor :
    ∃ s p, Run (Tracked MachSteps pastAfter) (Mach.start db, Past.start db) overtaken (s, p) ∧
    p.returned new = true ∧ p.left new = false ∧ p.parent new = none ∧
      s.db.lookup new.name = none := by
  have hrun : (execList (track machStep pastAfter) (Mach.start db, Past.start db) overtaken).map
      (fun q => (q.2.returned new, q.2.left new, q.2.parent new, q.1.db.lookup new.name)) =
        some (true, false, none, none) := by decide
  obtain ⟨⟨s, p⟩, hs, hobs⟩ := Option.map_eq_some_iff.mp hrun
  simp only [Prod.mk.injEq] at hobs
  exact ⟨s, p, (run_of_execList hs).mono fun q l q' hq => tracked_of_track hq, hobs⟩

end Busrt
