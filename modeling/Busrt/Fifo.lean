/-
# Commands from the fifo

A line of the fifo is a command: `TARGET MESSAGE` sends or broadcasts,
`=TOPIC MESSAGE` publishes, `TARGET .MESSAGE` notifies and
`TARGET :method param=value` calls. `send_fifo_cmd` trims the line, but only to
see whether it is a publication: the other commands are read from the line as
it came, and white space before the target makes an empty target of it. Of a
message it takes the first word.

So a line is read by the grammar iff it is a publication of one word; a trimmed
line of another form is, iff it is a call or its message is one word
(`parsed_iff`).

Key definitions: `FifoOp`, `sendFifoCmd`, `documented`, `Parsed`.
Key theorems: `sendFifoCmd_targeted`, `parsed_iff`.
-/
import Busrt.Params
import Busrt.Encode

namespace Busrt

open Lib

variable {F : Type*} (P : FloatParser F)

/-! ### The command -/

/-- What the core client of the broker is told to do: an operation of its client, `notify`
or `call0`. -/
inductive FifoOp (F : Type*)
  | client (op : ClientOp)
  | notify (target : String) (data : List UInt8) (qos : QoS)
  | call0 (target method : String) (params : Params F) (qos : QoS)

/-- It is a call. -/
def FifoOp.isCall : FifoOp F → Bool
  | .call0 .. => true
  | _ => false

/-- `BROKER_RPC_NOT_INIT_ERR`. -/
def BROKER_RPC_NOT_INIT_ERR : String := "broker core RPC client not initialized"

/-- `char::is_whitespace`: the property `White_Space` of Unicode. -/
def isWhitespace (c : Char) : Bool :=
  let n := c.toNat
  (0x09 ≤ n && n ≤ 0x0d) || n == 0x20 || n == 0x85 || n == 0xa0 || n == 0x1680 ||
    (0x2000 ≤ n && n ≤ 0x200a) ||
    n == 0x2028 || n == 0x2029 || n == 0x202f || n == 0x205f || n == 0x3000

/-- `str::trim`. -/
def trimmed (line : String) : String := String.ofList (trim isWhitespace line.toList)

/-- A message to a target: to all that a mask matches, or to one client. -/
def regularMessage (target payload : String) : FifoOp F :=
  .client
    (if target.toList.any fun c => c == '*' || c == '?' then
      .sendBroadcast target (utf8 payload) .no
    else .send target (utf8 payload) .no)

/-- The branches of a command with a target: its first two words, and the others. -/
def targetCmd (target payload : String) (sp : List String) : Except Error (FifoOp F) :=
  match stripPrefix '.' payload with
  | some s => .ok (.notify target (utf8 s) .no)
  | none =>
    match stripPrefix ':' payload with
    | some method =>
      match strToParamsMap P sp with
      | .ok params => .ok (.call0 target method params .no)
      | .error e => .error e
    | none => .ok (regularMessage target payload)

/-- `Broker::send_fifo_cmd`; `rpc` says that there is a core client. -/
def sendFifoCmd (rpc : Bool) (line : String) : Except Error (FifoOp F) :=
  let cmd := trimmed line
  if !rpc then .error (Error.notSupported BROKER_RPC_NOT_INIT_ERR)
  else match stripPrefix '=' cmd with
    | some s =>
      match splitText ' ' s with
      | [] => .error ⟨.data, some "topic not specified"⟩
      | [_] => .error ⟨.data, some "payload not specified"⟩
      | topic :: payload :: _ => .ok (.client (.publish topic (utf8 payload) .no))
    | none =>
      match splitText ' ' line with
      | [] => .error ⟨.data, some "target not specified"⟩
      | [_] => .error ⟨.data, some "payload not specified"⟩
      | target :: payload :: sp => targetCmd P target payload sp

/-! ### The grammar -/

/-- A message to a target as documented. -/
def documentedTo (target message : String) : Option (FifoOp F) :=
  match stripPrefix '.' message with
  | some data => some (.notify target (utf8 data) .no)
  | none =>
    match stripPrefix ':' message with
    | some call =>
      match splitText ' ' call with
      | [] => none
      | method :: pairs =>
        (strToParamsMap P pairs).toOption.map fun params => .call0 target method params .no
    | none => some (regularMessage target message)

/-- What a command without white space around it stands for, if it has one of the documented
forms: the target or topic is the text before the first space, the message all that follows. -/
def documented (cmd : String) : Option (FifoOp F) :=
  match stripPrefix '=' cmd with
  | some s =>
    if ' ' ∈ s.toList then some (.client (.publish (upTo ' ' s) (utf8 (after ' ' s)) .no)) else none
  | none => if ' ' ∈ cmd.toList then documentedTo P (upTo ' ' cmd) (after ' ' cmd) else none

/-- The message of a command. -/
def messageOf (cmd : String) : String := after ' ' ((stripPrefix '=' cmd).getD cmd)

/-- The line is read by the grammar: white space around it makes no difference, and what is
done is what it stands for. -/
structure Parsed (line : String) : Prop where
  around : ∀ line', trimmed line' = trimmed line →
    sendFifoCmd P true line' = sendFifoCmd P true line
  performed : ∀ op, documented P (trimmed line) = some op → sendFifoCmd P true line = .ok op

/-! ### White space around a line -/

theorem toList_trimmed (line : String) :
    (trimmed line).toList = trim isWhitespace line.toList := String.toList_ofList

theorem trimmed_trimmed (line : String) : trimmed (trimmed line) = trimmed line := by
  rw [trimmed, toList_trimmed, trim_idem, trimmed]

/-- Two spaces in front of a line. -/
def indented (line : String) : String := String.ofList (' ' :: ' ' :: line.toList)

theorem trimmed_indented (line : String) : trimmed (indented line) = trimmed line := by
  have hw : ∀ c ∈ [' ', ' '], isWhitespace c = true := by
    intro c hc
    rw [List.mem_cons, List.mem_singleton, or_self] at hc
    rw [hc]
    rfl
  have h := trim_append isWhitespace hw line.toList
  rw [trimmed, indented, String.toList_ofList, trimmed, ← h]
  rfl

/-- What is before the first space of a trimmed line is not empty. -/
theorem upTo_ne_empty {line : String} (h : trimmed line = line) (hsp : ' ' ∈ line.toList) :
    upTo ' ' line ≠ "" := by
  intro hempty
  have htake : line.toList.takeWhile (· != ' ') = [] := by
    rw [← toList_upTo, hempty]
    rfl
  cases hl : line.toList with
  | nil =>
    rw [hl] at hsp
    cases hsp
  | cons x t =>
    have hx : isWhitespace x = false := by
      refine head_trim isWhitespace (l := line.toList) (t := t) ?_
      rw [← toList_trimmed, h, hl]
    have hne : x ≠ ' ' := by
      rintro rfl
      exact absurd hx (by decide)
    rw [hl, List.takeWhile_cons_of_pos (by simpa using hne)] at htake
    cases htake

/-! ### What the code does -/

/-- A publication is read from the trimmed line: the topic up to the first space, and then a
word. -/
theorem sendFifoCmd_publish {line s : String} (h : stripPrefix '=' (trimmed line) = some s) :
    sendFifoCmd P true line = if ' ' ∈ s.toList then
      .ok (.client (.publish (upTo ' ' s) (utf8 (upTo ' ' (after ' ' s))) .no))
    else .error ⟨.data, some "payload not specified"⟩ := by
  simp only [sendFifoCmd, h, Bool.not_true, Bool.false_eq_true, if_false]
  by_cases hs : ' ' ∈ s.toList
  · obtain ⟨r, hr⟩ := splitText_eq_cons ' ' (after ' ' s)
    rw [splitText_of_mem hs, hr, if_pos hs]
  · rw [splitText_of_notMem hs, if_neg hs]

/-- The other commands are read from the line as it came. -/
theorem sendFifoCmd_targeted (line : String) (h : stripPrefix '=' (trimmed line) = none)
    (hs : ' ' ∈ line.toList) :
    ∃ sp, splitText ' ' (after ' ' line) = upTo ' ' (after ' ' line) :: sp ∧
      sendFifoCmd P true line = targetCmd P (upTo ' ' line) (upTo ' ' (after ' ' line)) sp := by
  obtain ⟨sp, hsp⟩ := splitText_eq_cons ' ' (after ' ' line)
  refine ⟨sp, hsp, ?_⟩
  simp only [sendFifoCmd, h, Bool.not_true, Bool.false_eq_true, if_false]
  rw [splitText_of_mem hs, hsp]

theorem sendFifoCmd_error {line : String} (h : stripPrefix '=' (trimmed line) = none)
    (hs : ' ' ∉ line.toList) :
    sendFifoCmd P true line = .error ⟨.data, some "payload not specified"⟩ := by
  simp only [sendFifoCmd, h, Bool.not_true, Bool.false_eq_true, if_false]
  rw [splitText_of_notMem hs]

/-- Spaces in front of a command make it a message to nobody. -/
theorem sendFifoCmd_indented {line : String} (h : stripPrefix '=' (trimmed line) = none) :
    sendFifoCmd P true (indented line) = .ok (.client (.send "" (utf8 "") .no)) := by
  have hsplit : splitText ' ' (indented line) = "" :: "" :: splitText ' ' line := by
    have hempty : ' ' ∉ ("" : String).toList := by decide
    have hcut : ∀ l : List Char, splitText ' ' (String.ofList (' ' :: l)) =
        "" :: splitText ' ' (String.ofList l) := by
      intro l
      rw [splitText_of_mem (by simp)]
      simp [upTo, after]
    rw [indented, hcut, hcut, String.ofList_toList]
  simp only [sendFifoCmd, trimmed_indented, h, Bool.not_true, Bool.false_eq_true, if_false]
  rw [hsplit]
  rfl

theorem targetCmd_ne {target : String} (h : target ≠ "") (payload : String) (sp : List String)
    (b : List UInt8) (q : QoS) : targetCmd P target payload sp ≠ .ok (.client (.send "" b q)) := by
  intro he
  unfold targetCmd at he
  split at he
  · cases he
  · split at he
    · split at he <;> cases he
    · unfold regularMessage at he
      split at he
      · cases he
      · exact h (ClientOp.send.inj (FifoOp.client.inj (Except.ok.inj he))).1

/-- The effect of a command with a target is not that of its trimmed text alone. -/
theorem not_trimmed (line : String) (h : stripPrefix '=' (trimmed line) = none) :
    ∃ line', trimmed line' = trimmed line ∧ sendFifoCmd P true line' ≠ sendFifoCmd P true line := by
  have hind := sendFifoCmd_indented P h
  by_contra hno
  push Not at hno
  have htt := trimmed_trimmed line
  have heq : sendFifoCmd P true (trimmed line) = .ok (.client (.send "" (utf8 "") .no)) := by
    rw [hno _ htt, ← hno _ (trimmed_indented line), hind]
  rw [← htt] at h
  by_cases hs : ' ' ∈ (trimmed line).toList
  · obtain ⟨sp, _, hsend⟩ := sendFifoCmd_targeted P _ h hs
    rw [hsend] at heq
    exact targetCmd_ne P (upTo_ne_empty htt hs) _ _ _ _ heq
  · rw [sendFifoCmd_error P h hs] at heq
    cases heq

/-! ### Where code and grammar agree -/

theorem regularMessage_inj {target m m' : String}
    (h : (regularMessage target m : FifoOp F) = regularMessage target m') : m = m' := by
  unfold regularMessage at h
  split at h
  · exact utf8_inj (ClientOp.sendBroadcast.inj (FifoOp.client.inj h)).2.1
  · exact utf8_inj (ClientOp.send.inj (FifoOp.client.inj h)).2.1

/-- With the first word for the message, and the other words: the same operation iff it is a call or
there is one word. -/
theorem targetCmd_documented {target m : String} {sp : List String} {op : FifoOp F}
    (hsp : splitText ' ' m = upTo ' ' m :: sp) (hop : documentedTo P target m = some op) :
    targetCmd P target (upTo ' ' m) sp = .ok op ↔ op.isCall = true ∨ ' ' ∉ m.toList := by
  have hd : '.' ≠ ' ' := by decide
  have hc : ':' ≠ ' ' := by decide
  cases hdot : stripPrefix '.' m with
  | some data =>
    have hcmd : targetCmd P target (upTo ' ' m) sp =
        .ok (.notify target (utf8 (upTo ' ' data)) .no) := by
      simp only [targetCmd, stripPrefix_upTo hd hdot]
    have hop : op = .notify target (utf8 data) .no := by simpa [documentedTo, hdot] using hop.symm
    rw [hcmd, hop, ← mem_stripPrefix hd hdot, ← upTo_eq_self]
    constructor
    · intro h
      exact .inr (utf8_inj (FifoOp.notify.inj (Except.ok.inj h)).2.1)
    · rintro (h | h)
      · cases h
      · rw [h]
  | none =>
    have hdot' := stripPrefix_upTo_none (a := ' ') hdot
    cases hcolon : stripPrefix ':' m with
    | some call =>
      have hcall := splitText_stripPrefix hc hcolon hsp
      simp only [documentedTo, hdot, hcolon, hcall] at hop
      cases hparams : strToParamsMap P sp with
      | error e =>
        rw [hparams] at hop
        cases hop
      | ok params =>
        rw [hparams] at hop
        cases hop
        simp only [targetCmd, hdot', stripPrefix_upTo hc hcolon, hparams]
        exact iff_of_true trivial (.inl rfl)
    | none =>
      have hop : op = regularMessage target m := by
        simpa [documentedTo, hdot, hcolon] using hop.symm
      have hcall : (regularMessage target m : FifoOp F).isCall = false := rfl
      simp only [targetCmd, hdot', stripPrefix_upTo_none hcolon]
      rw [hop, hcall, ← upTo_eq_self]
      constructor
      · intro h
        exact .inr (regularMessage_inj (Except.ok.inj h))
      · rintro (h | h)
        · cases h
        · rw [h]

/-- The message of a publication is kept iff it is one word. -/
theorem publish_documented (line : String) {s : String}
    (h : stripPrefix '=' (trimmed line) = some s) (hs : ' ' ∈ s.toList) :
    sendFifoCmd P true line = .ok (.client (.publish (upTo ' ' s) (utf8 (after ' ' s)) .no)) ↔
      ' ' ∉ (after ' ' s).toList := by
  rw [sendFifoCmd_publish P h, if_pos hs, ← upTo_eq_self]
  constructor
  · intro he
    exact utf8_inj (ClientOp.publish.inj (FifoOp.client.inj (Except.ok.inj he))).2.1
  · intro he
    rw [he]

/-- A text without a space has nothing after it. -/
theorem after_of_notMem {s : String} (h : ' ' ∉ s.toList) : ' ' ∉ (after ' ' s).toList := by
  intro hmem
  rw [toList_after] at hmem
  exact h ((List.dropWhile_sublist _).subset (List.mem_of_mem_tail hmem))

/-- **A line is read by the grammar iff it publishes one word.** Of the trimmed lines of a
documented form, what they stand for is done for the calls, and where the message is one word. -/
theorem parsed_iff (line : String) :
    (Parsed P line ↔ (stripPrefix '=' (trimmed line)).isSome = true ∧
      ' ' ∉ (messageOf (trimmed line)).toList) ∧
    ∀ op, trimmed line = line → documented P line = some op →
      (sendFifoCmd P true line = .ok op ↔ op.isCall = true ∨ ' ' ∉ (messageOf line).toList) := by
  constructor
  · cases h : stripPrefix '=' (trimmed line) with
    | none =>
      refine iff_of_false (fun hp => ?_) fun hp => Bool.false_ne_true hp.1
      obtain ⟨line', heq, hne⟩ := not_trimmed P _ h
      exact hne (hp.around line' heq)
    | some s =>
      rw [messageOf, h, Option.getD_some]
      constructor
      · intro hp
        refine ⟨rfl, ?_⟩
        by_cases hs : ' ' ∈ s.toList
        · exact (publish_documented P _ h hs).mp
            (hp.performed _ (by simp only [documented, h, if_pos hs]))
        · exact after_of_notMem hs
      · rintro ⟨_, hone⟩
        constructor
        · intro line' heq
          rw [sendFifoCmd_publish P h, sendFifoCmd_publish P (heq ▸ h)]
        · intro op hop
          simp only [documented, h] at hop
          by_cases hs : ' ' ∈ s.toList
          · rw [if_pos hs] at hop
            cases hop
            exact (publish_documented P _ h hs).mpr hone
          · rw [if_neg hs] at hop
            cases hop
  · intro op htrim hop
    rw [messageOf]
    cases h : stripPrefix '=' line with
    | none =>
      simp only [documented, h] at hop
      by_cases hs : ' ' ∈ line.toList
      · rw [if_pos hs] at hop
        obtain ⟨sp, hsp, hsend⟩ := sendFifoCmd_targeted P line (htrim.symm ▸ h) hs
        rw [hsend]
        exact targetCmd_documented P hsp hop
      · rw [if_neg hs] at hop
        cases hop
    | some s =>
      simp only [documented, h] at hop
      by_cases hs : ' ' ∈ s.toList
      · rw [if_pos hs] at hop
        cases hop
        have hpub := publish_documented P line (htrim.symm ▸ h) hs
        rw [hpub]
        simp [FifoOp.isCall]
      · rw [if_neg hs] at hop
        cases hop

/-- `lamp turn on` sends `turn`, and not `turn on`. -/
theorem sendFifoCmd_cuts : ¬Parsed (FloatParser.none ℕ) "lamp turn on" ∧
    documented (FloatParser.none ℕ) (trimmed "lamp turn on") =
      some (.client (.send "lamp" (utf8 "turn on") .no)) ∧
    sendFifoCmd (FloatParser.none ℕ) true "lamp turn on" =
      .ok (.client (.send "lamp" (utf8 "turn") .no)) := by
  refine ⟨fun h => ?_, rfl, rfl⟩
  obtain ⟨line', heq, hne⟩ := not_trimmed (FloatParser.none ℕ) "lamp turn on" (by decide)
  exact hne (h.around line' heq)

end Busrt
