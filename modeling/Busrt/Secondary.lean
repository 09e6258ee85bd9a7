/-
# Secondaries and their primary

A client makes a secondary of itself under its own name, two percent signs and a
counter. The broker knows whose it is by its name alone: `register_client`,
`handle_peer` and `primary_sender` all cut a name at the first `%%`. In the name
of a secondary the first `%%` is the one put there, unless the name before it
ends with a percent sign (`primaryChars_append`).

Then the secondary is another client's: of `a%` it belongs to `a`.

Key definitions: `secondaryName`, `Ipc.registerSecondary`, `SentBy`, `Belongs`.
Key theorems: `containsSep_iff`, `primaryName_secondaryName`, `belongs_iff`.
-/
import Busrt.Peer
import Busrt.Wire

namespace Busrt

open Lib BrokerDb

variable {S : Submap}

/-! ### Making a secondary -/

/-- `format!("{}{}{}", name, SECONDARY_SEP, secondary_id)`. -/
def secondaryName (name : String) (secondaryId : ℕ) : String :=
  name ++ SECONDARY_SEP ++ toString secondaryId

/-- `name.contains(SECONDARY_SEP)`. -/
def containsSep (name : String) : Bool := decide (SECONDARY_SEP.toList <:+: name.toList)

/-- The name a secondary is connected with, or the refusal. -/
def registerSecondary (name : String) (secondaryId : ℕ) : Except Error String :=
  if containsSep name then .error (Error.notSupported "not a primary client")
  else .ok (secondaryName name secondaryId)

/-- `ipc::Client::register_secondary`. -/
def Ipc.registerSecondary (name : String) (secondaryId : ℕ) : Except Error String :=
  Busrt.registerSecondary name secondaryId

/-- `sync::ipc::Client::register_secondary`. -/
def SyncIpc.registerSecondary (name : String) (secondaryId : ℕ) : Except Error String :=
  Busrt.registerSecondary name secondaryId

/-! ### Whose it is -/

/-- `FrameData::primary_sender`. -/
def FrameData.primarySender (f : FrameData) : Option String := f.sender.map primaryName

/-- The frames a client sends: those the reader of its connection makes of its operations, and
those the macros of `broker::Client` make. -/
inductive SentBy (c : BrokerClient) : Frame → Prop
  | remote (n : ℕ) (r : Request) (fr : Frame) (h : r.outgoing c n = some fr) : SentBy c fr
  | direct (kind : FrameKind) (topic : Option String) (header : Option (List UInt8))
      (buf : List UInt8) (payloadPos : ℕ) (realtime : Bool) :
      SentBy c ⟨.broker, ⟨kind, some c.name, topic, header, buf, payloadPos, realtime⟩⟩

/-- The secondary `k` of a client `name` belongs to it: it is split into that name, a peer of its
name is given the rules of that name, when it is registered so is that client and has it among its
secondaries, and that client is the primary sender of what it sends. -/
structure Belongs (S : Submap) (name : String) (k : ℕ) : Prop where
  split : primaryName (secondaryName name k) = name
  rules : ∀ params : PeerHandlerParams, params.aaaMap = true →
    ∃ next, (Peer.accessRules (S := S) params (secondaryName name k)).run = .op (.aaa name) next ∧
      ∀ a, (∀ addr, params.ip = some addr → a.connectAllowed addr = true) →
        next (some a) = .ret (.ok (some a))
  attached : ∀ force rpc q ops, let db := Op.run (BrokerDb.empty S force rpc q) ops
    ∀ d, db.lookup (secondaryName name k) = some d →
      ∃ c, db.lookup name = some c ∧ secondaryName name k ∈ (db.cell c).secondaries
  sender : ∀ d fr, d.name = secondaryName name k → SentBy d fr → fr.data.primarySender = some name

/-! ### The first separator -/

/-- A name is cut iff there is a separator in it. -/
theorem infix_iff : ∀ cs : List Char, ['%', '%'] <:+: cs ↔ primaryChars cs ≠ cs
  | [] => by decide
  | [c] => by
    rw [List.infix_cons_iff]
    simp [primaryChars]
  | c :: d :: cs => by
    have ih := infix_iff (d :: cs)
    rw [List.infix_cons_iff, ih, primaryChars]
    by_cases h : c = '%' ∧ d = '%'
    · obtain ⟨rfl, rfl⟩ := h
      simp
    · rw [if_neg h, Ne, Ne, List.cons.injEq, and_iff_right rfl, or_iff_right]
      rintro ⟨t, ht⟩
      simp only [List.cons_append, List.nil_append, List.cons.injEq] at ht
      exact h ⟨ht.1.symm, ht.2.1.symm⟩

/-- What the clients ask and what the broker asks is the same. -/
theorem containsSep_iff (name : String) : containsSep name = false ↔ primaryName name = name := by
  have hsep : SECONDARY_SEP.toList = ['%', '%'] := rfl
  rw [containsSep, decide_eq_false_iff_not, hsep, infix_iff, Ne, not_not, primaryName]
  constructor
  · intro h
    rw [h, String.ofList_toList]
  · intro h
    have hl := congrArg String.toList h
    rwa [String.toList_ofList] at hl

/-- Two percent signs after some characters without: they are found, or those before them end with
a percent sign and they are found one character earlier. -/
theorem primaryChars_append (r : List Char) : ∀ cs : List Char, primaryChars cs = cs →
    primaryChars (cs ++ '%' :: '%' :: r) = if cs.getLast? = some '%' then cs.dropLast else cs
  | [], _ => by simp [primaryChars]
  | [c], _ => by
    by_cases hc : c = '%'
    · simp [primaryChars, hc]
    · simp [primaryChars, hc]
  | c :: d :: cs, h => by
    rw [primaryChars] at h
    by_cases hcd : c = '%' ∧ d = '%'
    · rw [if_pos hcd] at h
      cases h
    · rw [if_neg hcd] at h
      have ih := primaryChars_append r (d :: cs) (List.cons.inj h).2
      rw [List.cons_append, List.cons_append, primaryChars, if_neg hcd, ← List.cons_append, ih,
        List.getLast?_cons_cons]
      split <;> rfl

theorem toList_secondaryName (name : String) (k : ℕ) :
    (secondaryName name k).toList = name.toList ++ '%' :: '%' :: (toString k).toList := by
  rw [secondaryName, String.toList_append, String.toList_append, List.append_assoc]
  rfl

/-- The name of a secondary is cut where it was put together iff the name before it does not end
with a percent sign. -/
theorem primaryName_secondaryName {name : String} (h : primaryName name = name) (k : ℕ) :
    primaryName (secondaryName name k) = name ↔ name.toList.getLast? ≠ some '%' := by
  have hcs : primaryChars name.toList = name.toList := by
    have hl := congrArg String.toList h
    rwa [primaryName, String.toList_ofList] at hl
  rw [primaryName, toList_secondaryName, primaryChars_append _ _ hcs]
  by_cases hp : name.toList.getLast? = some '%'
  · rw [if_pos hp]
    refine iff_of_false (fun he => ?_) fun hn => hn hp
    have hlen := congrArg (fun s : String => s.toList.length) he
    have hpos : 0 < name.toList.length := List.length_pos_of_mem (List.mem_of_getLast? hp)
    simp only [String.toList_ofList, List.length_dropLast] at hlen
    omega
  · rw [if_neg hp, String.ofList_toList]
    exact iff_of_true rfl hp

/-- Different counters give different names. -/
theorem secondaryName_injective (name : String) : Function.Injective (secondaryName name) := by
  intro k k' h
  have hl := congrArg String.toList h
  rw [toList_secondaryName, toList_secondaryName] at hl
  have hd : Nat.toDigits 10 k = Nat.toDigits 10 k' := by
    have htail := List.append_cancel_left hl
    simpa [Nat.toString_eq_repr, Nat.toList_repr] using htail
  rw [← Nat.ofDigitChars_toDigits (b := 10) (n := k) (by omega) (by omega), hd,
    Nat.ofDigitChars_toDigits (by omega) (by omega)]

/-! ### What follows from its name -/

theorem sender_of_sentBy {c : BrokerClient} {fr : Frame} (h : SentBy c fr) :
    fr.data.sender = some c.name := by
  cases h with
  | remote n r fr h => exact (data_outgoing h).2.1
  | direct => rfl

/-- A name that is split as it should be belongs to its primary. -/
theorem belongs_of_split {name : String} {k : ℕ} (h : primaryName (secondaryName name k) = name) :
    Belongs S name k where
  split := h
  rules := by
    intro params hmap
    refine ⟨_, by rw [Peer.accessRules, if_pos hmap, h]; rfl, fun a ha => ?_⟩
    cases hip : params.ip with
    | none => rfl
    | some addr =>
      exact if_pos (ha addr hip)
  attached := by
    intro force rpc q ops db d hd
    have hinv : Inv db := Op.inv_run ops (inv_empty force rpc q)
    have hname : d.name = secondaryName name k := hinv.name_eq _ _ hd
    have hprimary : d.primaryName = name := by rw [BrokerClient.primaryName, hname, h]
    have hsec : d.primary = false := by
      rw [BrokerClient.primary_eq_false, hprimary, hname]
      intro he
      have hlen := congrArg (fun s : String => s.toList.length) he
      simp only [toList_secondaryName, List.length_append, List.length_cons] at hlen
      omega
    obtain ⟨c, hc⟩ := Option.isSome_iff_exists.mp (hprimary ▸ hinv.primary_mem _ d hd hsec)
    have hcname : c.name = name := hinv.name_eq _ _ hc
    have hcp : c.primary = true := BrokerClient.primary_of_name_eq (hcname.trans hprimary.symm)
    exact ⟨c, hc, (hinv.secondaries_iff (hcname.symm ▸ hc) hcp _).mpr ⟨d, hd, hsec,
      hprimary.trans hcname.symm⟩⟩
  sender := by
    intro d fr hd hsent
    rw [FrameData.primarySender, sender_of_sentBy hsent, Option.map_some, hd, h]

/-- **The secondaries of a primary client belong to it iff its name does not end with a percent
sign.** All who make one give it the same name, and every counter another. -/
theorem belongs_iff (S : Submap) (name : String) (hname : primaryName name = name) :
    (∀ (c : BrokerClient) (db : BrokerDb S) k, c.name = name →
      (Op.registerSecondaryFor c k).exec db =
        Op.registerNew db (secondaryName name k) .internal none none) ∧
    (∀ k, Ipc.registerSecondary name k = .ok (secondaryName name k) ∧
      SyncIpc.registerSecondary name k = .ok (secondaryName name k)) ∧
    Function.Injective (secondaryName name) ∧
    ∀ k, Belongs S name k ↔ name.toList.getLast? ≠ some '%' := by
  have hsep : ¬containsSep name = true := by
    rw [Bool.not_eq_true]
    exact (containsSep_iff name).mpr hname
  refine ⟨?_, fun k => ⟨if_neg hsep, if_neg hsep⟩, secondaryName_injective name, fun k => ?_⟩
  · rintro c db k rfl
    have hprimary : c.primary = true := (BrokerClient.primary_iff c).mpr hname
    rw [Op.exec, if_pos hprimary, secondaryName]
  · rw [← primaryName_secondaryName hname k]
    exact ⟨Belongs.split, belongs_of_split⟩

/-- The secondary of `w` is one of `w`. -/
theorem belongs_iff_w : Belongs reference "w" 0 ∧ secondaryName "w" 0 = "w%%0" :=
  ⟨((belongs_iff reference "w" rfl).2.2.2 0).mpr (by decide), rfl⟩

/-- `a%` is a primary client, and its secondary is one of `a`. -/
theorem secondary_of_other : primaryName "a%" = "a%" ∧ primaryName (secondaryName "a%" 0) = "a" ∧
    ¬Belongs reference "a%" 0 := by
  have hsplit : primaryName (secondaryName "a%" 0) = "a" := rfl
  refine ⟨rfl, hsplit, fun h => ?_⟩
  have ha : "a" = "a%" := hsplit.symm.trans h.split
  exact absurd ha (by decide)

end Busrt
