/-
# The handshake, from both ends

A client that connects runs `chat`: it checks the greetings of the broker, sends
them back, and gives its name. At the other end of the connection `handle_peer`
runs, and both wait for each other. The clients in Rust, Python and JavaScript
differ in where they check the length of a name, in how many writes they send it,
and in their errors (`ChatForm`).

Whatever the order of the steps, and whatever the broker finds in its map of
rules and answers a registration with, the two come to an end that the name and
these answers fix (`Settled`): the client has connected and its connection is
served, or it has the error with the code of the refusal, or its name was too
long and the broker still waits for it (`handshake_settles`). When operations fail
on the way, a client that has connected is still one that the broker registered
(`registered_of_connected`).

Key definitions: `ChatForm`, `chatWith`, `admission`, `Settled`.
Key theorems: `ends_handshake`, `chat_quits`, `handlePeer_quits`, `registered_of_connected`.
-/
import Busrt.Lib.Duplex
import Busrt.Wire

namespace Busrt

open Lib

variable {S : Submap} {ε : Type}

/-! ### The clients -/

/-- What a client asks of its environment as it connects. -/
inductive ChatOp
  /-- `write_all`. -/
  | writeAll (buf : List UInt8)
  /-- `read_exact`. -/
  | readExact (len : ℕ)

/-- The answers. -/
def ChatOp.Ans (ε : Type) : ChatOp → Type
  | .writeAll _ => Except ε Unit
  | .readExact len => Except ε { bs : List UInt8 // bs.length = len }

/-- A program of a client. -/
abbrev Chat (ε : Type) := Prog (ChatOp.Ans ε)

/-- What the clients' handshakes differ in: whether the length of the name is
checked before anything is read or as it is sent, whether it is sent in one
write with the name, and the errors. -/
structure ChatForm (ε : Type) where
  lengthFirst : Bool
  together : Bool
  nameTooLong : ε
  greetings : ε
  version : ε
  greetingsResponse : UInt8 → ε
  registrationResponse : UInt8 → ε

/-- More than two bytes can count. -/
def tooLong (name : String) : Bool := 2 ^ 16 ≤ (utf8 name).length

namespace Chat

def writeAll (buf : List UInt8) : ExceptT ε (Chat ε) Unit :=
  ExceptT.mk (.op (.writeAll buf) fun r => .ret r)

def readExact (len : ℕ) : ExceptT ε (Chat ε) { bs : List UInt8 // bs.length = len } :=
  ExceptT.mk (.op (.readExact len) fun r => .ret r)

def throwIf (p : Prop) [Decidable p] (e : ε) : ExceptT ε (Chat ε) Unit :=
  if p then throw e else pure ()

/-- A response of one byte. -/
def response (e : UInt8 → ε) : ExceptT ε (Chat ε) Unit := do
  let buf ← readExact 1
  throwIf (buf.1.getD 0 0 ≠ RESPONSE_OK) (e (buf.1.getD 0 0))

/-- The name, after its length. -/
def sendName (together : Bool) (name : String) : ExceptT ε (Chat ε) Unit :=
  if together then writeAll (toLe 2 (utf8 name).length ++ utf8 name)
  else do
    writeAll (toLe 2 (utf8 name).length)
    writeAll (utf8 name)

end Chat

open Chat in
/-- The handshake of a client. -/
def chatWith (form : ChatForm ε) (name : String) : ExceptT ε (Chat ε) Unit := do
  throwIf (form.lengthFirst && tooLong name) form.nameTooLong
  let buf ← readExact 3
  throwIf (buf.1.getD 0 0 ≠ GREETINGS) form.greetings
  throwIf (ofLe ((buf.1.drop 1).take 2) ≠ PROTOCOL_VERSION) form.version
  writeAll buf.1
  response form.greetingsResponse
  throwIf (!form.lengthFirst && tooLong name) form.nameTooLong
  sendName form.together name
  response form.registrationResponse

/-- The clients in Rust. -/
def chatForm : ChatForm Error where
  lengthFirst := true
  together := false
  nameTooLong := ⟨.data, some "name too long"⟩
  greetings := Error.notSupported "Invalid greetings"
  version := Error.notSupported "Unsupported protocol version"
  greetingsResponse :=
    fun code => ⟨.ofCode code, some ("Server greetings response: " ++ toString code.toNat)⟩
  registrationResponse :=
    fun code => ⟨.ofCode code, some ("Server registration response: " ++ toString code.toNat)⟩

/-- `chat`, of the asynchronous client and of the synchronous one. -/
def chat (name : String) : ExceptT Error (Chat Error) Unit := chatWith chatForm name

/-- `RuntimeError`, with its text, or the exception of a number that does not fit. -/
inductive PyException
  | runtimeError (text : String)
  | overflowError
  deriving DecidableEq, Repr

/-- `hex`. -/
def hex (n : UInt8) : String := "0x" ++ String.ofList (Nat.toDigits 16 n.toNat)

namespace Py

/-- The clients in Python. -/
def connectForm : ChatForm PyException where
  lengthFirst := false
  together := true
  nameTooLong := .overflowError
  greetings := .runtimeError "Unsupported protocol"
  version := .runtimeError "Unsupported protocol version"
  greetingsResponse := fun code => .runtimeError ("Server response: " ++ hex code)
  registrationResponse := fun code => .runtimeError ("Server response: " ++ hex code)

/-- `Client.connect`, once the socket is connected. -/
def connect (name : String) : ExceptT PyException (Chat PyException) Unit :=
  chatWith connectForm name

end Py

/-- What is thrown in JavaScript: a text, or a `RangeError`. -/
inductive JsThrown
  | text (text : String)
  | rangeError
  deriving DecidableEq, Repr

namespace Js

/-- The client in JavaScript. -/
def connectForm : ChatForm JsThrown where
  lengthFirst := false
  together := false
  nameTooLong := .rangeError
  greetings := .text "Unsupported protocol"
  version := .text "Unsupported protocol version"
  greetingsResponse := fun code => .text ("Server response " ++ toString code.toNat)
  registrationResponse := fun code => .text ("Server response " ++ toString code.toNat)

/-- `Bus.connect`, once the socket is connected. -/
def connect (name : String) : ExceptT JsThrown (Chat JsThrown) Unit := chatWith connectForm name

end Js

/-! ### The connection -/

/-- What the operations of a client do with the connection. -/
def ChatOp.move : ∀ o : ChatOp, Transfer (o.Ans ε)
  | .writeAll buf => .put buf (.ok ())
  | .readExact len => .take len .ok

/-- What those of `handle_peer` do; it may be answered with the rules `rules` and
with the registrations `reg`. The connection is not served any further here. -/
def PeerOp.move (rules : String → Option (ClientAaa S) → Prop)
    (reg : String → Except Error BrokerClient → Prop) :
    ∀ o : PeerOp, Transfer (o.Ans S)
  | .write buf => .put buf (.ok ())
  | .readExact len => .take len .ok
  | .aaa name => .aside (rules name)
  | .connect name => .aside (reg name)
  | .settle => .aside fun _ => True
  | .serve => .aside fun _ => False

/-- The answers among these rules and registrations. -/
def PeerOp.among (rules : String → Option (ClientAaa S) → Prop)
    (reg : String → Except Error BrokerClient → Prop) :
    ∀ o : PeerOp, o.Ans S → Prop
  | .aaa name, a => rules name a
  | .connect name, r => reg name r
  | _, _ => True

theorem PeerOp.move_only (rules : String → Option (ClientAaa S) → Prop)
    (reg : String → Except Error BrokerClient → Prop) :
    (fun o => (PeerOp.move (fun _ _ => True) (fun _ _ => True) o).only (PeerOp.among rules reg o)) =
      PeerOp.move rules reg := by
  funext o
  cases o <;> simp [PeerOp.move, Transfer.only, PeerOp.among]

/-- A client and `handle_peer`, at the ends of a new connection. -/
abbrev Greeting (S : Submap) (ε : Type) :=
  Line (ChatOp.Ans ε) (PeerOp.Ans S) (Except ε Unit) (Except Error Unit)

/-- Nothing is on its way yet. -/
def opening (form : ChatForm ε) (params : PeerHandlerParams) (name : String) : Greeting S ε :=
  ⟨(chatWith form name).run, (Peer.handlePeer params).run, [], []⟩

/-! ### Where it ends -/

/-- What speaks against a client, with the rules the broker has for it. -/
def denial (params : PeerHandlerParams) (name : String) (a : Option (ClientAaa S)) : Option Error :=
  if !Peer.validName name then some ⟨.data, some ("Invalid client name: " ++ name)⟩
  else if params.aaaMap then
    match a, params.ip with
    | none, _ => some ⟨.access, some ("Client not in AAA map: " ++ name)⟩
    | some _, none => none
    | some a, some addr =>
      if a.connectAllowed addr then none
      else some ⟨.access, some ("Client " ++ name ++ " is not allowed to connect from " ++ addr)⟩
  else none

/-- What comes of a name, with these rules and the answer to its registration. -/
def admission (params : PeerHandlerParams) (name : String) (a : Option (ClientAaa S))
    (r : Except Error BrokerClient) :
    Except Error BrokerClient :=
  match denial params name a with
  | some e => .error e
  | none => r

/-- The end: the client has connected and is served, or has the code of the error
that the broker has, with nothing more on its way; or it has not given its name. -/
def Settled (form : ChatForm ε) (params : PeerHandlerParams) (name : String)
    (a : Option (ClientAaa S)) (r : Except Error BrokerClient) (l : Greeting S ε) : Prop :=
  if tooLong name then
    l.left = .ret (.error form.nameTooLong) ∧ l.toRight = [] ∧
      ∃ len next, l.right = .op (.readExact len) next
  else l.toLeft = [] ∧ l.toRight = [] ∧
    match admission params name a r with
    | .ok _ => l.left = .ret (.ok ()) ∧ l.right = (Peer.serveClient name).run
    | .error e =>
      l.left = .ret (.error (form.registrationResponse e.kind.code)) ∧ l.right = .ret (.error e)

/-! ### On the way -/

section Ends

open Peer

variable {rules : String → Option (ClientAaa S) → Prop}
  {reg : String → Except Error BrokerClient → Prop}
  {Q : Greeting S ε → Prop} {n : ℕ} {toLeft toRight : List UInt8} {α : Type}

theorem refuseIf_neg {p : Prop} [Decidable p] (h : ¬ p) (e : Error)
    (f : Unit → ExceptT Error (Peer S) α) :
    (refuseIf p e >>= f) = f () := by
  rw [refuseIf, if_neg h]
  rfl

theorem throwIf_neg {p : Prop} [Decidable p] (h : ¬ p) (e : ε) (f : Unit → ExceptT ε (Chat ε) α) :
    (Chat.throwIf p e >>= f) = f () := by
  rw [Chat.throwIf, if_neg h]
  rfl

theorem throwIf_pos {p : Prop} [Decidable p] (h : p) (e : ε) (f : Unit → ExceptT ε (Chat ε) α) :
    (Chat.throwIf p e >>= f).run = .ret (.error e) := by
  rw [Chat.throwIf, if_pos h]
  rfl

/-- The client sends. -/
theorem ends_writeAll {f : Unit → ExceptT ε (Chat ε) Unit} {q : Peer S (Except Error Unit)}
    {buf : List UInt8}
    (h : EndsIn ChatOp.move (PeerOp.move rules reg) Q n ⟨(f ()).run, q, toLeft, toRight ++ buf⟩) :
    EndsIn ChatOp.move (PeerOp.move rules reg) Q (n + 1) ⟨(Chat.writeAll buf >>= f).run, q,
      toLeft, toRight⟩ :=
  EndsIn.put_left rfl h

/-- `handle_peer` sends. -/
theorem ends_writeAndFlush {p : Chat ε (Except ε Unit)} {f : Unit → ExceptT Error (Peer S) Unit}
    {buf : List UInt8}
    (h : EndsIn ChatOp.move (PeerOp.move rules reg) Q n ⟨p, (f ()).run, toLeft ++ buf, toRight⟩) :
    EndsIn ChatOp.move (PeerOp.move rules reg) Q (n + 1) ⟨p, (writeAndFlush buf >>= f).run,
      toLeft, toRight⟩ :=
  EndsIn.put_right rfl h

/-- It reads what has come. -/
theorem ends_peer_readExact {p : Chat ε (Except ε Unit)} (bs : List UInt8) {len : ℕ}
    (hl : bs.length = len)
    {f : { bs : List UInt8 // bs.length = len } → ExceptT Error (Peer S) Unit}
    (h : EndsIn ChatOp.move (PeerOp.move rules reg) Q n ⟨p, (f ⟨bs, hl⟩).run, toLeft, toRight⟩) :
    EndsIn ChatOp.move (PeerOp.move rules reg) Q (n + 1) ⟨p, (Peer.readExact len >>= f).run, toLeft,
      bs ++ toRight⟩ := by
  refine EndsIn.take_right Except.ok rfl ⟨bs, hl⟩ ?_
  exact h

theorem ends_readExact {q : Peer S (Except Error Unit)} (bs : List UInt8) {len : ℕ}
    (hl : bs.length = len) {f : { bs : List UInt8 // bs.length = len } → ExceptT ε (Chat ε) Unit}
    (h : EndsIn ChatOp.move (PeerOp.move rules reg) Q n ⟨(f ⟨bs, hl⟩).run, q, toLeft, toRight⟩) :
    EndsIn ChatOp.move (PeerOp.move rules reg) Q (n + 1) ⟨(Chat.readExact len >>= f).run, q,
      bs ++ toLeft, toRight⟩ := by
  refine EndsIn.take_left Except.ok rfl ⟨bs, hl⟩ ?_
  exact h

/-- The client has the response that all is well. -/
theorem ends_response {q : Peer S (Except Error Unit)} {e : UInt8 → ε}
    {f : Unit → ExceptT ε (Chat ε) Unit}
    (h : EndsIn ChatOp.move (PeerOp.move rules reg) Q n ⟨(f ()).run, q, toLeft, toRight⟩) :
    EndsIn ChatOp.move (PeerOp.move rules reg) Q (n + 1)
      ⟨(Chat.response e >>= f).run, q, RESPONSE_OK :: toLeft, toRight⟩ := by
  refine EndsIn.take_left Except.ok rfl ⟨[RESPONSE_OK], rfl⟩ ?_
  exact h

/-- Both have returned, or one waits for what does not come. -/
theorem stuck_of_read {p : Chat ε (Except ε Unit)} {a : Except ε Unit} {len : ℕ}
    {next : Except Error { bs : List UInt8 // bs.length = len } → Peer S (Except Error Unit)}
    (hp : p = .ret a) (hlen : 0 < len) :
    Line.Stuck ChatOp.move (PeerOp.move rules reg)
    (⟨p, .op (.readExact len) next, toLeft, []⟩ : Greeting S ε) := by
  subst hp
  intro d l' h
  cases h with
  | left h => cases h
  | right h =>
    cases h with
    | put h | aside h => cases h
    | take h bs hc =>
      obtain ⟨rfl, -⟩ := Transfer.take.inj h
      have hnil := List.append_eq_nil_iff.mp hc.symm
      have := bs.2
      rw [hnil.1] at this
      exact absurd this (Nat.ne_of_lt hlen)

theorem stuck_of_ret {a : Except ε Unit} {b : Except Error Unit} :
    Line.Stuck ChatOp.move (PeerOp.move rules reg)
    (⟨.ret a, .ret b, toLeft, toRight⟩ : Greeting S ε) := by
  intro d l' h
  cases h with
  | left h | right h => cases h

theorem stuck_of_serve {a : Except ε Unit} {name : String} :
    Line.Stuck ChatOp.move (PeerOp.move rules reg)
      (⟨.ret a, (serveClient name).run, toLeft, toRight⟩ : Greeting S ε) := by
  intro d l' h
  cases h with
  | left h => cases h
  | right h =>
    rcases h with h | ⟨h, _, _⟩ | ⟨h, ha⟩
    · cases h
    · cases h
    · obtain rfl := Transfer.aside.inj h
      exact ha

/-- The last response, whatever it is. -/
theorem ends_last {q : Peer S (Except Error Unit)} {e : UInt8 → ε} {code : UInt8}
    (h : EndsIn ChatOp.move (PeerOp.move rules reg) Q n
      ⟨.ret (if code = RESPONSE_OK then .ok () else .error (e code)), q, toLeft, toRight⟩) :
    EndsIn ChatOp.move (PeerOp.move rules reg) Q (n + 1) ⟨(Chat.response e).run, q,
      code :: toLeft, toRight⟩ := by
  have hret : (Chat.throwIf (code ≠ RESPONSE_OK) (e code)).run =
      .ret (if code = RESPONSE_OK then .ok () else .error (e code)) := by
    by_cases hc : code = RESPONSE_OK
    · rw [Chat.throwIf, if_neg (not_not_intro hc), if_pos hc]
      rfl
    · rw [Chat.throwIf, if_pos hc, if_neg hc]
      rfl
  rw [← hret] at h
  refine EndsIn.take_left Except.ok rfl ⟨[code], rfl⟩ ?_
  exact h

/-- A refusal ends both. -/
theorem ends_refuse {e : UInt8 → ε} {err : Error} {f : α → ExceptT Error (Peer S) Unit}
    (hQ : Q ⟨.ret (.error (e err.kind.code)), .ret (.error err), [], []⟩) :
    EndsIn ChatOp.move (PeerOp.move rules reg) Q 2 ⟨(Chat.response e).run,
      (refuse err >>= f).run, [], []⟩ := by
  refine EndsIn.put_right rfl ?_
  refine ends_last ?_
  rw [if_neg err.kind.code_ne_ok]
  exact .stop stuck_of_ret hQ

/-- The name and the rules are checked, and then the program goes on, or refuses. -/
theorem ends_checked (hrules : ∀ name, ∃ a, rules name a) (params : PeerHandlerParams)
    (name : String) {e : UInt8 → ε} {f : ExceptT Error (Peer S) Unit} (hn : 2 ≤ n)
    (hok : ∀ a, rules (primaryName name) a → denial params name a = none →
      EndsIn ChatOp.move (PeerOp.move rules reg) Q n ⟨(Chat.response e).run, f.run, [], []⟩)
    (herr : ∀ a err, rules (primaryName name) a → denial params name a = some err →
      Q ⟨.ret (.error (e err.kind.code)), .ret (.error err), [], []⟩) :
    EndsIn ChatOp.move (PeerOp.move rules reg) Q (n + 1) ⟨(Chat.response e).run, (do
      refuseIf (!validName name) ⟨.data, some ("Invalid client name: " ++ name)⟩
      let _aaa ← accessRules params name
      f : ExceptT Error (Peer S) Unit).run, [], []⟩ := by
  obtain ⟨a₀, ha₀⟩ := hrules (primaryName name)
  by_cases hvalid : validName name
  · rw [refuseIf_neg (by simp [hvalid])]
    by_cases haaa : params.aaaMap
    · rw [accessRules, if_pos haaa]
      refine EndsIn.aside_right (rules (primaryName name)) rfl ⟨a₀, ha₀⟩
        fun (a : Option (ClientAaa S)) (ha : rules (primaryName name) a) => ?_
      have hok := hok a ha
      have herr := fun err => herr a err ha
      simp only [denial, hvalid, haaa, Bool.not_true, Bool.false_eq_true, if_false,
        if_true] at hok herr
      cases a with
      | none => exact (ends_refuse (herr _ rfl)).mono hn
      | some a =>
        cases hip : params.ip with
        | none =>
          rw [hip] at hok
          exact hok rfl
        | some addr =>
          rw [hip] at hok herr
          change EndsIn _ _ _ _ ⟨_,
            ((if a.connectAllowed addr then pure (some a) else
              refuse ⟨.access,
                some ("Client " ++ name ++ " is not allowed to connect from " ++ addr)⟩) >>=
              fun _ => f).run, [], []⟩
          by_cases hc : a.connectAllowed addr
          · rw [if_pos hc]
            exact hok (if_pos hc)
          · rw [if_neg hc]
            exact (ends_refuse (herr _ (if_neg hc))).mono hn
    · rw [accessRules, if_neg haaa]
      exact (hok a₀ ha₀ (by simp [denial, hvalid, haaa])).mono (by omega)
  · rw [refuseIf, if_pos (by simp [hvalid])]
    exact (ends_refuse (herr a₀ _ ha₀ (by simp [denial, hvalid]))).mono (by omega)

/-- The client is registered and told so, or refused. -/
theorem ends_registered (hreg : ∀ name, ∃ r, reg name r) {name : String} {e : UInt8 → ε}
    (hok : ∀ c, reg name (.ok c) → Q ⟨.ret (.ok ()), (serveClient name).run, [], []⟩)
    (herr : ∀ err, reg name (.error err) →
      Q ⟨.ret (.error (e err.kind.code)), .ret (.error err), [], []⟩) :
    EndsIn ChatOp.move (PeerOp.move rules reg) Q 4 ⟨(Chat.response e).run, (do
      let _client ← registerClient name
      writeAndFlush [RESPONSE_OK]
      serveClient name : ExceptT Error (Peer S) Unit).run, [], []⟩ := by
  refine EndsIn.aside_right (reg name) rfl (hreg name) fun (r : Except Error BrokerClient)
    (hr : reg name r) => ?_
  cases r with
  | error err => exact (ends_refuse (herr err hr)).mono (by omega)
  | ok c =>
    refine EndsIn.aside_right (fun _ => True) rfl ⟨(), trivial⟩ fun _ _ => ?_
    refine EndsIn.put_right rfl (ends_last ?_)
    exact .stop stuck_of_serve (hok c hr)

/-- `handle_peer` has its greetings back, and the client sends its name. -/
theorem ends_name (hrules : ∀ name, ∃ a, rules name a) (hreg : ∀ name, ∃ r, reg name r)
    (params : PeerHandlerParams) {name : String} (hlen : tooLong name = false) (together : Bool)
    {e : UInt8 → ε}
    (hQ : ∀ a r, rules (primaryName name) a → reg name r →
      Q (match admission params name a r with
        | .ok _ => ⟨.ret (.ok ()), (serveClient name).run, [], []⟩
        | .error err => ⟨.ret (.error (e err.kind.code)), .ret (.error err), [], []⟩)) :
    EndsIn ChatOp.move (PeerOp.move rules reg) Q 9 ⟨(do
        Chat.sendName together name
        Chat.response e : ExceptT ε (Chat ε) Unit).run, (do
      let buf ← readExact 2
      let buf ← readExact (ofLe buf.1)
      let name ← clientName buf.1
      refuseIf (!validName name) ⟨.data, some ("Invalid client name: " ++ name)⟩
      let _aaa ← accessRules params name
      let _client ← registerClient name
      writeAndFlush [RESPONSE_OK]
      serveClient name : ExceptT Error (Peer S) Unit).run, [], []⟩ := by
  obtain ⟨a₀, ha₀⟩ := hrules (primaryName name)
  obtain ⟨r₀, hr₀⟩ := hreg name
  have hlt : (utf8 name).length < 2 ^ 16 := by simpa [tooLong] using hlen
  have hle : ofLe (toLe 2 (utf8 name).length) = (utf8 name).length := by
    rw [ofLe_toLe]
    exact Nat.mod_eq_of_lt hlt
  -- what follows once the name has come
  have hread : EndsIn ChatOp.move (PeerOp.move rules reg) Q 7
      ⟨(Chat.response e).run, (do
        let buf ← readExact 2
        let buf ← readExact (ofLe buf.1)
        let name ← clientName buf.1
        refuseIf (!validName name) ⟨.data, some ("Invalid client name: " ++ name)⟩
        let _aaa ← accessRules params name
        let _client ← registerClient name
        writeAndFlush [RESPONSE_OK]
        serveClient name : ExceptT Error (Peer S) Unit).run, [],
          toLe 2 (utf8 name).length ++ (utf8 name ++ [])⟩ := by
    refine ends_peer_readExact (toLe 2 (utf8 name).length) (length_toLe 2 _) ?_
    refine ends_peer_readExact (utf8 name) hle.symm ?_
    simp only [clientName, fromUtf8_utf8]
    refine ends_checked hrules params name (by omega)
      (fun a ha hno => ends_registered hreg ?_ ?_) ?_
    · intro c hc
      have hq := hQ a _ ha hc
      simpa only [admission, hno] using hq
    · intro err hc
      have hq := hQ a _ ha hc
      simpa only [admission, hno] using hq
    · intro a err ha he
      have hq := hQ a r₀ ha hr₀
      simpa only [admission, he] using hq
  rw [List.append_nil] at hread
  cases together with
  | true =>
    rw [Chat.sendName, if_pos rfl]
    exact (ends_writeAll hread).mono (by omega)
  | false =>
    rw [Chat.sendName, if_neg Bool.false_ne_true]
    refine EndsIn.put_left rfl (EndsIn.put_left rfl ?_)
    exact hread

/-- Both ends of a new connection come to where the name and the answers lead. -/
theorem ends_handshake (hrules : ∀ name, ∃ a, rules name a) (hreg : ∀ name, ∃ r, reg name r)
    (form : ChatForm ε) (params : PeerHandlerParams) (name : String) :
    EndsIn ChatOp.move (PeerOp.move rules reg)
      (fun l => ∃ a r, rules (primaryName name) a ∧ reg name r ∧ Settled form params name a r l) 15
      (opening form params name) := by
  obtain ⟨a₀, ha₀⟩ := hrules (primaryName name)
  obtain ⟨r₀, hr₀⟩ := hreg name
  set Q : Greeting S ε → Prop := fun l => ∃ a r, rules (primaryName name) a ∧ reg name r ∧
    Settled form params name a r l
  have hlong : ∀ (len : ℕ) next bs, 0 < len → tooLong name = true →
      EndsIn ChatOp.move (PeerOp.move rules reg) Q 0 ⟨.ret (.error form.nameTooLong),
        .op (.readExact len) next, bs, []⟩ := by
    intro len next bs hpos hl
    refine .stop (stuck_of_read rfl hpos) ⟨a₀, r₀, ha₀, hr₀, ?_⟩
    rw [Settled, if_pos hl]
    exact ⟨rfl, rfl, len, next, rfl⟩
  have hsettled : tooLong name = false → ∀ a r, rules (primaryName name) a → reg name r →
      Q (match admission params name a r with
      | .ok _ => ⟨.ret (.ok ()), (serveClient name).run, [], []⟩
      | .error err =>
        ⟨.ret (.error (form.registrationResponse err.kind.code)), .ret (.error err), [], []⟩) := by
    intro hl a r ha hr
    refine ⟨a, r, ha, hr, ?_⟩
    rw [Settled, if_neg (by simp [hl])]
    cases admission params name a r with
    | ok _ => exact ⟨rfl, rfl, rfl, rfl⟩
    | error _ => exact ⟨rfl, rfl, rfl, rfl⟩
  refine ends_writeAndFlush ?_
  by_cases hfirst : (form.lengthFirst && tooLong name) = true
  · rw [chatWith, throwIf_pos hfirst]
    exact (hlong 3 _ _ (by omega) (by simp_all)).mono (by omega)
  · rw [chatWith, throwIf_neg hfirst]
    refine ends_readExact (GREETINGS :: toLe 2 PROTOCOL_VERSION) rfl ?_
    rw [throwIf_neg (by decide), throwIf_neg (by decide)]
    refine ends_writeAll ?_
    refine ends_peer_readExact (GREETINGS :: toLe 2 PROTOCOL_VERSION) rfl ?_
    rw [refuseIf_neg (by decide), refuseIf_neg (by decide)]
    refine ends_writeAndFlush (ends_response ?_)
    by_cases hl : tooLong name = true
    · rw [throwIf_pos (by simp_all)]
      exact (hlong 2 _ _ (by omega) hl).mono (by omega)
    · rw [throwIf_neg (by simp_all)]
      exact ends_name hrules hreg params (by simpa using hl) _ (hsettled (by simpa using hl))

end Ends

/-- In every order of their steps a client and `handle_peer` take at most fifteen,
and then the client is served or refused, as its name and the answers have it. -/
theorem handshake_settles (form : ChatForm ε) (params : PeerHandlerParams) (name : String)
    {rules : String → Option (ClientAaa S) → Prop} {reg : String → Except Error BrokerClient → Prop}
    (hrules : ∀ name, ∃ a, rules name a) (hreg : ∀ name, ∃ r, reg name r)
    {as : List (Did (ChatOp.Ans ε) ⊕ Did (PeerOp.Ans S))} {l : Greeting S ε}
    (h : Run (Line.Step ChatOp.move (PeerOp.move rules reg)) (opening form params name) as l) :
    as.length ≤ 15 ∧
    (∃ bs l', Run (Line.Step ChatOp.move (PeerOp.move rules reg)) l bs l' ∧
      Line.Stuck ChatOp.move (PeerOp.move rules reg) l') ∧
    (Line.Stuck ChatOp.move (PeerOp.move rules reg) l →
      ∃ a r, rules (primaryName name) a ∧ reg name r ∧ Settled form params name a r l) := by
  obtain ⟨k, hk, hl⟩ := (ends_handshake hrules hreg form params name).run h
  obtain ⟨bs, l', hr, hs, -⟩ := hl.ends
  exact ⟨by omega, ⟨bs, l', hr, hs⟩, hl.stuck⟩

namespace Greetings

def params : PeerHandlerParams := ⟨.tcp, none, none, none, false, by decide⟩

def client : BrokerClient := ⟨7, "me", .tcp, none, none⟩

/-- There are no rules, and the name is free. -/
def rules (_name : String) (a : Option (ClientAaa reference)) : Prop := a = none

def reg (_name : String) (r : Except Error BrokerClient) : Prop := r = .ok client

end Greetings

open Greetings in
/-- There the client is served. -/
theorem handshake_settles_served : ∃ as l,
    Run (Line.Step ChatOp.move (PeerOp.move rules reg)) (opening chatForm params "me") as l ∧
      as.length ≤ 15 ∧
    l.left = .ret (.ok ()) := by
  have hrules : ∀ name, ∃ a, rules name a := fun _ => ⟨none, rfl⟩
  have hreg : ∀ name, ∃ r, reg name r := fun _ => ⟨.ok client, rfl⟩
  obtain ⟨-, ⟨as, l, hr, hs⟩, -⟩ := handshake_settles chatForm params "me" hrules hreg (.nil _)
  obtain ⟨hlen, -, hend⟩ := handshake_settles chatForm params "me" hrules hreg hr
  obtain ⟨a, r, rfl, rfl, hl⟩ := hend hs
  exact ⟨as, l, hr, hlen, hl.2.2.1⟩

/-! ### Failures -/

/-- The answers of a failure: an error, or a timeout. -/
def ChatOp.fails : ∀ o : ChatOp, o.Ans ε → Prop
  | .writeAll _, r => ∃ e, r = .error e
  | .readExact _, r => ∃ e, r = .error e

def PeerOp.fails : ∀ o : PeerOp, o.Ans S → Prop
  | .write _, r => ∃ e, r = .error e
  | .readExact _, r => ∃ e, r = .error e
  | _, _ => False

section Quits

variable {α : Type} {fin : Prop → Except ε α → Prop} {q : Prop}

theorem quits_writeAll {fin : Prop → Except ε Unit → Prop} {buf : List UInt8}
    (hok : ∀ q, q → fin q (.ok ())) (herr : ∀ q e, fin q (.error e)) (hq : q) :
    Prog.Follows (quits ChatOp.fails) fin q (Chat.writeAll buf).run := by
  refine quits_op hq (fun r hr q hq => ?_) fun r hr => ?_
  · cases r with
    | ok _ => exact hok q hq
    | error e => exact absurd ⟨e, rfl⟩ hr
  · obtain ⟨e, rfl⟩ := hr
    exact ⟨.error e, rfl, fun q => herr q e⟩

theorem quits_readExact {len : ℕ}
    {fin : Prop → Except ε { bs : List UInt8 // bs.length = len } → Prop}
    (hok : ∀ q bs, q → fin q (.ok bs)) (herr : ∀ q e, fin q (.error e)) (hq : q) :
    Prog.Follows (quits ChatOp.fails) fin q (Chat.readExact len).run := by
  refine quits_op hq (fun r hr q hq => ?_) fun r hr => ?_
  · cases r with
    | ok bs => exact hok q bs hq
    | error e => exact absurd ⟨e, rfl⟩ hr
  · obtain ⟨e, rfl⟩ := hr
    exact ⟨.error e, rfl, fun q => herr q e⟩

theorem quits_throwIf {fin : Prop → Except ε Unit → Prop} {p : Prop} [Decidable p] {e : ε}
    (hok : ∀ q, q → fin q (.ok ())) (herr : ∀ q, q → fin q (.error e)) (hq : q) :
    Prog.Follows (quits ChatOp.fails) fin q (Chat.throwIf p e).run := by
  unfold Chat.throwIf
  split
  · exact herr q hq
  · exact hok q hq

theorem quits_response {fin : Prop → Except ε Unit → Prop} {e : UInt8 → ε}
    (hok : ∀ q, q → fin q (.ok ())) (herr : ∀ q e, fin q (.error e)) (hq : q) :
    Prog.Follows (quits ChatOp.fails) fin q (Chat.response e).run :=
  Prog.Follows.except (quits_readExact
    (fun _ _ hq => quits_throwIf hok (fun q _ => herr q _) hq) herr hq)

theorem quits_sendName {fin : Prop → Except ε Unit → Prop} {together : Bool} {name : String}
    (hok : ∀ q, q → fin q (.ok ())) (herr : ∀ q e, fin q (.error e)) (hq : q) :
    Prog.Follows (quits ChatOp.fails) fin q (Chat.sendName together name).run := by
  unfold Chat.sendName
  split
  · exact quits_writeAll hok herr hq
  · exact Prog.Follows.except (quits_writeAll (fun _ hq => quits_writeAll hok herr hq) herr hq)

/-- A client does nothing more after a failure. If it fails, it returns an error. -/
theorem chat_quits (form : ChatForm ε) (name : String) (hq : q) :
    Prog.Follows (quits ChatOp.fails) (fun q r => q ∨ r ≠ .ok ()) q (chatWith form name).run := by
  have herr : ∀ (q : Prop) (e : ε), q ∨ (.error e : Except ε Unit) ≠ .ok () := fun _ _ => .inr nofun
  have herr' : ∀ (e : ε) (q : Prop), q → q ∨ (.error e : Except ε Unit) ≠ .ok () :=
    fun _ _ hq => .inl hq
  refine Prog.Follows.except (quits_throwIf (fun q hq => ?_) (herr' _) hq)
  refine Prog.Follows.except (quits_readExact (fun q buf hq => ?_) herr hq)
  refine Prog.Follows.except (quits_throwIf (fun q hq => ?_) (herr' _) hq)
  refine Prog.Follows.except (quits_throwIf (fun q hq => ?_) (herr' _) hq)
  refine Prog.Follows.except (quits_writeAll (fun q hq => ?_) herr hq)
  refine Prog.Follows.except (quits_response (fun q hq => ?_) herr hq)
  refine Prog.Follows.except (quits_throwIf (fun q hq => ?_) (herr' _) hq)
  refine Prog.Follows.except (quits_sendName (fun q hq => ?_) herr hq)
  exact quits_response (fun q hq => .inl hq) herr hq

/-! `handle_peer`, with no more to say of what it returns. -/

theorem quits_writeAndFlush {buf : List UInt8} {f : Unit → ExceptT Error (Peer S) Unit}
    (h : ∀ q, q → Prog.Follows (quits PeerOp.fails) (fun _ _ => True) q (f ()).run) (hq : q) :
    Prog.Follows (quits PeerOp.fails) (fun _ _ => True) q (Peer.writeAndFlush buf >>= f).run := by
  refine quits_op hq (fun r hr q hq => ?_) fun r hr => ?_
  · cases r with
    | ok _ => exact h q hq
    | error e => exact absurd ⟨e, rfl⟩ hr
  · obtain ⟨e, rfl⟩ := hr
    exact ⟨.error e, rfl, fun _ => trivial⟩

theorem quits_peer_readExact {len : ℕ}
    {f : { bs : List UInt8 // bs.length = len } → ExceptT Error (Peer S) Unit}
    (h : ∀ bs q, q → Prog.Follows (quits PeerOp.fails) (fun _ _ => True) q (f bs).run) (hq : q) :
    Prog.Follows (quits PeerOp.fails) (fun _ _ => True) q (Peer.readExact len >>= f).run := by
  refine quits_op hq (fun r hr q hq => ?_) fun r hr => ?_
  · cases r with
    | ok bs => exact h bs q hq
    | error e => exact absurd ⟨e, rfl⟩ hr
  · obtain ⟨e, rfl⟩ := hr
    exact ⟨.error e, rfl, fun _ => trivial⟩

theorem quits_refuse {e : Error} {f : α → ExceptT Error (Peer S) Unit} (hq : q) :
    Prog.Follows (quits PeerOp.fails) (fun _ _ => True) q (Peer.refuse e >>= f).run := by
  refine quits_op hq (fun r hr q hq => ?_) fun r hr => ?_
  · cases r with
    | ok _ => trivial
    | error e => trivial
  · obtain ⟨e, rfl⟩ := hr
    exact ⟨.error e, rfl, fun _ => trivial⟩

theorem quits_refuseIf {p : Prop} [Decidable p] {e : Error} {f : Unit → ExceptT Error (Peer S) Unit}
    (h : ∀ q, q → Prog.Follows (quits PeerOp.fails) (fun _ _ => True) q (f ()).run) (hq : q) :
    Prog.Follows (quits PeerOp.fails) (fun _ _ => True) q (Peer.refuseIf p e >>= f).run := by
  by_cases hp : p
  · rw [Peer.refuseIf, if_pos hp]
    exact quits_refuse hq
  · rw [refuseIf_neg hp]
    exact h q hq

theorem quits_accessRules {params : PeerHandlerParams} {name : String}
    {f : Option (ClientAaa S) → ExceptT Error (Peer S) Unit}
    (h : ∀ a q, q → Prog.Follows (quits PeerOp.fails) (fun _ _ => True) q (f a).run) (hq : q) :
    Prog.Follows (quits PeerOp.fails)
      (fun _ _ => True) q (Peer.accessRules params name >>= f).run := by
  unfold Peer.accessRules
  split
  · refine ⟨hq, fun a => ?_⟩
    have hq' : q ∧ ¬ PeerOp.fails (.aaa (primaryName name)) a := ⟨hq, id⟩
    rcases a with _ | a
    · exact quits_refuse hq'
    · obtain ⟨kind, source, sourcePort, _ | addr, aaaMap, external⟩ := params
      · exact h _ _ hq'
      · change Prog.Follows _ _ _ ((if a.connectAllowed addr then _ else _) >>= f).run
        split
        · exact h _ _ hq'
        · exact quits_refuse hq'
  · exact h _ _ hq

/-- It does nothing more after a failure. -/
theorem handlePeer_quits (params : PeerHandlerParams) (hq : q) :
    Prog.Follows (quits (PeerOp.fails (S := S)))
      (fun _ _ => True) q (Peer.handlePeer params).run := by
  refine quits_writeAndFlush (fun q hq => quits_peer_readExact (fun buf q hq => ?_) hq) hq
  refine quits_refuseIf (fun q hq => quits_refuseIf (fun q hq => ?_) hq) hq
  refine quits_writeAndFlush (fun q hq => quits_peer_readExact (fun len q hq => ?_) hq) hq
  refine quits_peer_readExact (fun buf q hq => ?_) hq
  -- the name
  unfold Peer.clientName
  split
  · refine quits_refuseIf (fun q hq => quits_accessRules (fun _ q hq => ?_) hq) hq
    refine ⟨hq, fun (r : Except Error BrokerClient) => ?_⟩
    cases r with
    | error e => exact quits_refuse ⟨hq, id⟩
    | ok c =>
      refine ⟨⟨hq, id⟩, fun _ => ?_⟩
      refine quits_writeAndFlush (fun q hq => ?_) ⟨⟨hq, id⟩, id⟩
      exact ⟨hq, fun _ => ⟨⟨hq, id⟩, fun _ => trivial⟩⟩
  · trivial

end Quits

/-- A client that has connected is registered, whatever has failed since: its name
fits, and nothing in the rules that the broker found speaks against it. -/
theorem registered_of_connected (form : ChatForm ε) (params : PeerHandlerParams) (name : String)
    {as : List (Option (Did (ChatOp.Ans ε) ⊕ Did (PeerOp.Ans S)))}
    {u : Shaky (ChatOp.Ans ε) (PeerOp.Ans S) (Except ε Unit) (Except Error Unit)}
    (h : Run
      (ShakyStep ChatOp.move (PeerOp.move (fun _ _ => True) fun _ _ => True)
        ChatOp.fails PeerOp.fails)
      ⟨opening form params name, true, true⟩ as u)
    (hl : u.line.left = .ret (.ok ())) :
    tooLong name = false ∧ (∃ c, some (.inr ⟨.connect name, .ok c⟩) ∈ as) ∧
      ∃ a, denial params name a = none ∧
        (params.aaaMap = true → some (.inr ⟨.aaa (primaryName name), a⟩) ∈ as) := by
  -- the client has not failed, or it had returned an error
  have hok : u.leftOk = true := by
    obtain ⟨q, hf, hq⟩ := ShakyStep.failed_left h ⟨True, chat_quits form name trivial, nofun⟩
    rw [hl] at hf
    by_contra hno
    exact hf.elim (hq (by simpa using hno)) fun hne => hne rfl
  -- the broker answers only what is in the run
  set rules : String → Option (ClientAaa S) → Prop := fun n a =>
    params.aaaMap = true → denial params name a = none → some (.inr ⟨.aaa n, a⟩) ∈ as
  set reg : String → Except Error BrokerClient → Prop := fun n r =>
    (∃ c, r = .ok c) → some (.inr ⟨.connect n, r⟩) ∈ as
  have hamong : ∀ d : Did (PeerOp.Ans S), some (.inr d) ∈ as →
      PeerOp.among rules reg d.op d.ans := by
    rintro ⟨o, r⟩ hd
    cases o with
    | aaa n => exact fun _ _ => hd
    | connect n => exact fun _ => hd
    | _ => trivial
  have hrun := ShakyStep.only h hamong
  rw [PeerOp.move_only] at hrun
  have hrules : ∀ n, ∃ a, rules n a := by
    refine fun n => ⟨none, fun haaa hno => ?_⟩
    simp only [denial, haaa, if_true] at hno
    split at hno <;> cases hno
  have hreg : ∀ n, ∃ r, reg n r := fun n => ⟨.error (Error.busy ""), nofun⟩
  have hend := ends_handshake hrules hreg form params name
  obtain ⟨w, ⟨a, r, ha, hr, hset⟩, hw⟩ := hend.shaky_left hrun hok hl
  unfold Settled at hset
  split at hset
  · rw [hw] at hset
    cases hset.1
  · rename_i hlen
    obtain ⟨-, -, hset⟩ := hset
    refine ⟨by simpa using hlen, ?_⟩
    unfold admission at hset
    cases hno : denial params name a with
    | some e =>
      rw [hno, hw] at hset
      cases hset.1
    | none =>
      rw [hno] at hset
      refine ⟨?_, a, hno, fun haaa => ha haaa hno⟩
      cases r with
      | ok c => exact ⟨c, hr ⟨c, rfl⟩⟩
      | error e =>
        rw [hw] at hset
        cases hset.1

open Greetings in
/-- A client that has connected, in a run without failures. -/
theorem registered_of_connected_once :
    ∃ as, ∃ u : Shaky (ChatOp.Ans Error) (PeerOp.Ans reference) _ _, ∃ c,
    Run (ShakyStep ChatOp.move (PeerOp.move (fun _ _ => True) fun _ _ => True)
      ChatOp.fails PeerOp.fails)
      ⟨opening chatForm params "me", true, true⟩ as u ∧
        some (.inr ⟨.connect "me", .ok c⟩) ∈ as := by
  have hrules : ∀ name, ∃ a, rules name a := fun _ => ⟨none, rfl⟩
  have hreg : ∀ name, ∃ r, reg name r := fun _ => ⟨.ok client, rfl⟩
  obtain ⟨as, l, hr, -, a, r, rfl, rfl, hl⟩ :=
    (ends_handshake hrules hreg chatForm params "me").ends
  rw [← PeerOp.move_only] at hr
  obtain ⟨-, ⟨c, hc⟩, -⟩ := registered_of_connected chatForm params "me" (shaky_of_run hr) hl.2.2.1
  exact ⟨_, _, c, shaky_of_run hr, hc⟩

end Busrt
