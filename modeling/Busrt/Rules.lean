/-
# What a sequence of rule calls allows

A category of `ClientAaa` is a shortcut, `x_any`, and a map of masks, `x_to`. An
`allow_x_to` call adds its masks and sets the shortcut to whether one of them
stands for everything; a `deny_x` call clears both, and puts the map back to
`AclMap::new()`, whose separator and wildcards are the crate's own and not those
of the category.

A `Ledger` is what a sequence of calls says about a category. The decision
is what the masks given since the last `deny_x` say, unless there was one and
the masks read otherwise under the crate's own setting (`permits_iff`); as this
setting is one and those of peers and of topics are two, some category is
misread whatever it is (`misread_after_deny`).

Key definitions: `Category`, `RuleCall`, `build`, `Ledger`, `Permits`, `ReadAlike`.
Key theorems: `Ledger.Of.apply`, `decision_iff`, `permits_iff`, `misread_after_deny`.
-/
import Busrt.Access

namespace Busrt

open Lib

variable {S : Submap}

/-! ### The builder -/

namespace ClientAaa

/-- `ClientAaa::deny_p2p`. -/
def denyP2p (a : ClientAaa S) : ClientAaa S :=
  { a with allowP2pAny := false, allowP2pTo := S.acl.new S.acl.defaultCfg }

/-- `ClientAaa::deny_publish`. -/
def denyPublish (a : ClientAaa S) : ClientAaa S :=
  { a with allowPublishAny := false, allowPublishTo := S.acl.new S.acl.defaultCfg }

/-- `ClientAaa::deny_subscribe`. -/
def denySubscribe (a : ClientAaa S) : ClientAaa S :=
  { a with allowSubscribeAny := false, allowSubscribeTo := S.acl.new S.acl.defaultCfg }

/-- `ClientAaa::deny_broadcast`. -/
def denyBroadcast (a : ClientAaa S) : ClientAaa S :=
  { a with allowBroadcastAny := false, allowBroadcastTo := S.acl.new S.acl.defaultCfg }

end ClientAaa

inductive Category
  | p2p | publish | subscribe | broadcast
  deriving DecidableEq, Repr

namespace Category

/-- The shortcut of the category. -/
def any (a : ClientAaa S) : Category → Bool
  | p2p => a.allowP2pAny
  | publish => a.allowPublishAny
  | subscribe => a.allowSubscribeAny
  | broadcast => a.allowBroadcastAny

/-- The masks of the category. -/
def acl (a : ClientAaa S) : Category → S.acl.T
  | p2p => a.allowP2pTo
  | publish => a.allowPublishTo
  | subscribe => a.allowSubscribeTo
  | broadcast => a.allowBroadcastTo

/-- The separator and wildcards as documented. -/
def cfg (zero : Bool) : Category → Cfg
  | p2p | broadcast => peerCfg zero
  | publish | subscribe => topicCfg zero

/-- The mask that stands for everything. -/
def all : Category → String
  | p2p | broadcast => "*"
  | publish | subscribe => "#"

/-- The check of `handle_reader`. -/
def decision (a : ClientAaa S) (k : Category) (s : String) : Bool :=
  allowed (some a) (fun a => k.any a) (fun a => k.acl a) s

end Category

/-- A call of the builder. -/
inductive RuleCall
  | allowTo (k : Category) (masks : List String)
  | deny (k : Category)
  deriving DecidableEq, Repr

def RuleCall.apply (a : ClientAaa S) : RuleCall → ClientAaa S
  | .allowTo .p2p masks => a.withP2pTo masks
  | .allowTo .publish masks => a.withPublishTo masks
  | .allowTo .subscribe masks => a.withSubscribeTo masks
  | .allowTo .broadcast masks => a.withBroadcastTo masks
  | .deny .p2p => a.denyP2p
  | .deny .publish => a.denyPublish
  | .deny .subscribe => a.denySubscribe
  | .deny .broadcast => a.denyBroadcast

/-- The rules a sequence of calls makes. -/
def build (S : Submap) (calls : List RuleCall) : ClientAaa S :=
  calls.foldl RuleCall.apply (ClientAaa.new S)

/-! ### What the calls say -/

/-- What the calls so far say about a category: the masks given since the last
`deny_x`, if it was configured at all, whether the last call gave the mask for
everything, and whether there was a `deny_x`. -/
structure Ledger where
  given : Option (List String)
  whole : Bool
  denied : Bool
  deriving DecidableEq, Repr

namespace Ledger

def empty : Ledger := ⟨none, false, false⟩

def note (k : Category) (l : Ledger) : RuleCall → Ledger
  | .allowTo j masks =>
    if j = k then
      { l with given := some (l.given.getD [] ++ masks), whole := masks.any (· == k.all) }
    else l
  | .deny j => if j = k then ⟨some [], false, true⟩ else l

def of (k : Category) (calls : List RuleCall) : Ledger := calls.foldl (note k) empty

/-- The masks that count. -/
def masks (l : Ledger) : List String := l.given.getD []

end Ledger

/-- The decision as documented: everything as long as the category is not configured, then what a
mask given since the last `deny_x` matches. -/
def Permits (S : Submap) (k : Category) (calls : List RuleCall) (s : String) : Prop :=
  (Ledger.of k calls).given = none ∨
    ∃ m ∈ (Ledger.of k calls).masks, (k.cfg S.zero).isMatch m s = true

/-- After a `deny_x` the masks given since say the same about the string under the setting of
`AclMap::new()` as under the documented one, or the last call gave the mask for everything. -/
def ReadAlike (S : Submap) (k : Category) (calls : List RuleCall) (s : String) : Prop :=
  (Ledger.of k calls).denied = true → (Ledger.of k calls).whole = true ∨
    ((∃ m ∈ (Ledger.of k calls).masks, S.acl.defaultCfg.isMatch m s = true) ↔
      ∃ m ∈ (Ledger.of k calls).masks, (k.cfg S.zero).isMatch m s = true)

/-! ### The shortcut and the map keep to the ledger -/

theorem mem_insertAll (x : String) : ∀ (masks : List String) (acl : S.acl.T),
    S.acl.mem (masks.foldl S.acl.insert acl) x ↔ x ∈ masks ∨ S.acl.mem acl x
  | [], acl => by simp
  | m :: masks, acl => by
    rw [List.foldl_cons, mem_insertAll x masks, S.acl.mem_insert, List.mem_cons, or_left_comm,
      or_assoc]

theorem cfg_insertAll :
    ∀ (masks : List String)
    (acl : S.acl.T), S.acl.cfg (masks.foldl S.acl.insert acl) = S.acl.cfg acl
  | [], _ => rfl
  | m :: masks, acl => (cfg_insertAll masks (S.acl.insert acl m)).trans (S.acl.cfg_insert acl m)

namespace Ledger

/-- The pair of the category is what the ledger says. -/
structure Of (k : Category) (l : Ledger) (a : ClientAaa S) : Prop where
  any : k.any a = (l.given.isNone || l.whole)
  mem : ∀ m, S.acl.mem (k.acl a) m ↔ m ∈ l.masks
  cfg : S.acl.cfg (k.acl a) = if l.denied then S.acl.defaultCfg else k.cfg S.zero
  whole : l.whole = true → k.all ∈ l.masks
  denied : l.denied = true → l.given.isSome

variable {k : Category} {l : Ledger} {a b : ClientAaa S}

theorem Of.new (k : Category) : Of k empty (ClientAaa.new S) where
  any := by cases k <;> rfl
  mem m := by cases k <;> exact ⟨fun h => absurd h (S.acl.mem_new _ m), nofun⟩
  cfg := by cases k <;> exact S.acl.cfg_new _
  whole := nofun
  denied := nofun

/-- A call about another category leaves the pair. -/
theorem Of.congr (h : Of k l a) (hany : k.any b = k.any a) (hacl : k.acl b = k.acl a) : Of k l b :=
  ⟨hany.trans h.any, by rw [hacl]; exact h.mem, by rw [hacl]; exact h.cfg, h.whole, h.denied⟩

/-- Masks are added to those there, and the shortcut is what these masks say. -/
theorem Of.allowTo (h : Of k l a) {masks : List String} (hany : k.any b = masks.any (· == k.all))
    (hacl : k.acl b = masks.foldl S.acl.insert (k.acl a)) : Of k
      (l.note k (.allowTo k masks)) b := by
  simp only [note, if_pos]
  refine ⟨by simpa using hany, fun m => ?_, ?_, fun hw => ?_, fun _ => rfl⟩
  · rw [hacl, mem_insertAll, h.mem, or_comm]
    exact List.mem_append.symm
  · rw [hacl, cfg_insertAll]
    exact h.cfg
  · obtain ⟨m, hm, hk⟩ := List.any_eq_true.mp hw
    exact List.mem_append_right _ (beq_iff_eq.mp hk ▸ hm)

/-- Nothing is left. -/
theorem Of.deny (hany : k.any b = false)
    (hacl : k.acl b = S.acl.new S.acl.defaultCfg) : Of k (l.note k (.deny k)) b := by
  simp only [note, if_pos]
  refine ⟨hany, fun m => ?_, ?_, nofun, fun _ => rfl⟩
  · rw [hacl]
    exact ⟨fun h => absurd h (S.acl.mem_new _ m), nofun⟩
  · rw [hacl]
    exact S.acl.cfg_new _

/-- **Every call keeps the pair to the ledger.** -/
theorem Of.apply (h : Of k l a) (call : RuleCall) : Of k (l.note k call) (call.apply a) := by
  cases call with
  | allowTo j masks =>
    by_cases hj : j = k
    · subst hj
      cases j <;> exact h.allowTo rfl rfl
    · simp only [note, if_neg hj]
      cases j <;> cases k <;> first | exact absurd rfl hj | exact h.congr rfl rfl
  | deny j =>
    by_cases hj : j = k
    · subst hj
      cases j <;> exact Of.deny rfl rfl
    · simp only [note, if_neg hj]
      cases j <;> cases k <;> first | exact absurd rfl hj | exact h.congr rfl rfl

theorem Of.foldl : ∀ (calls : List RuleCall) {l : Ledger} {a : ClientAaa S}, Of k l a →
    Of k (calls.foldl (note k) l) (calls.foldl RuleCall.apply a)
  | [], _, _, h => h
  | call :: calls, _, _, h => Of.foldl calls (h.apply call)

theorem of_build (k : Category) (calls : List RuleCall) :
    Of k (of k calls) (build S calls) := Of.foldl calls (.new k)

end Ledger

/-! ### The decision -/

theorem Category.isMatch_all (k : Category) (zero : Bool) (s : String) :
    (k.cfg zero).isMatch k.all s = true := by
  have hone : (k.cfg zero).chunks k.all = [(k.cfg zero).wild.many] := by
    cases zero <;> cases k <;> decide
  have hne : (k.cfg zero).chunks s ≠ [] := List.splitOn_ne_nil _ _
  rw [Cfg.isMatch, hone, Mask.isMatch_many]
  simp [hne]

/-- What the rules decide after any calls. -/
theorem decision_iff (k : Category) (calls : List RuleCall) (s : String) :
    k.decision (build S calls) s = true ↔ (Ledger.of k calls).given = none ∨
      (Ledger.of k calls).whole = true ∨
      ∃ m ∈ (Ledger.of k calls).masks,
        (if (Ledger.of k calls).denied then S.acl.defaultCfg else k.cfg S.zero).isMatch m s =
          true := by
  have h := Ledger.of_build (S := S) k calls
  simp only [Category.decision, allowed, Bool.or_eq_true, h.any, S.acl.isMatch_iff, h.mem, h.cfg,
    or_assoc, Option.isNone_iff_eq_none]

/-- **The rules compose, where masks read alike**: the decision of a category is the documented one
if and only if, after a `deny_x`, the masks given since say the same under the crate's own
setting. -/
theorem permits_iff (S : Submap) (k : Category) (calls : List RuleCall) (s : String) :
    (k.decision (build S calls) s = true ↔ Permits S k calls s) ↔ ReadAlike S k calls s := by
  have h := Ledger.of_build (S := S) k calls
  have hwhole : (Ledger.of k calls).whole = true →
      ∃ m ∈ (Ledger.of k calls).masks, (k.cfg S.zero).isMatch m s = true :=
    fun hw => ⟨k.all, h.whole hw, k.isMatch_all S.zero s⟩
  rw [decision_iff, Permits, ReadAlike]
  cases hd : (Ledger.of k calls).denied with
  | false =>
    -- the setting is the documented one
    simp only [Bool.false_eq_true, if_false, false_imp_iff, iff_true]
    exact or_congr_right (or_iff_right_of_imp hwhole)
  | true =>
    have hg : (Ledger.of k calls).given ≠ none := by
      rw [Option.ne_none_iff_isSome]
      exact h.denied hd
    simp only [hg, false_or, if_true, true_imp_iff]
    cases hw : (Ledger.of k calls).whole with
    | false => simp
    | true => simp [hwhole hw]

/-- There is no setting of `AclMap::new()` under which all categories are decided as documented:
`a.?` means one thing for peers and another for topics. -/
theorem misread_after_deny :
    ¬ ∃ S : Submap, ∀ k calls s, k.decision (build S calls) s = true ↔ Permits S k calls s := by
  rintro ⟨S, h⟩
  have hp := (h .p2p [.deny .p2p, .allowTo .p2p ["a.?"]] "a.b")
  have ht := (h .publish [.deny .publish, .allowTo .publish ["a.?"]] "a.b")
  rw [decision_iff] at hp ht
  have hpeer : (peerCfg S.zero).isMatch "a.?" "a.b" = true := by cases S.zero <;> decide
  have htopic : (topicCfg S.zero).isMatch "a.?" "a.b" = false := by cases S.zero <;> decide
  simp [Permits, Ledger.of, Ledger.note, Ledger.masks, Category.cfg, Category.all, hpeer,
    htopic] at hp ht
  rw [hp] at ht
  cases ht

end Busrt
