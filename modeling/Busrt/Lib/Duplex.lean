/-
# Two programs at the ends of a connection

An operation of a program sends bytes, waits for a number of bytes, or does
nothing with the connection (`Transfer`). A `Line` is a program at each end and the
bytes on their way in each direction; either program may do its operation as
soon as the bytes it waits for are there.

What one end does never takes from the other what it can do, so the order of
the steps does not matter: if the programs come to an end of a certain kind in
one order of their steps, whatever they are answered aside, then they do in
every order, and in as many steps (`EndsIn.run`, `EndsIn.stuck`).

An operation on the connection may also fail, with some of the bytes that were
on their way lost (`ShakyStep`). The end that has not failed cannot tell: it is
where it is in a run without failures (`EndsIn.shaky_left`). A program that does
nothing more after a failure `quits`.

Key definitions: `Transfer`, `Line`, `EndsIn`, `ShakyStep`, `quits`.
Key theorems: `EndsIn.step`, `EndsIn.run`, `EndsIn.shaky_left`.
-/
import Busrt.Lib.Prog
import Busrt.Lib.Run

namespace Busrt
namespace Lib

/-- What an operation does with the connection. -/
inductive Transfer (A : Type)
  /-- It sends bytes. -/
  | put (bs : List UInt8) (sent : A)
  /-- It waits for `n` bytes. -/
  | take (n : ℕ) (got : { bs : List UInt8 // bs.length = n } → A)
  /-- It does nothing with the connection, and may be answered so. -/
  | aside (may : A → Prop)

/-- The same operation, with fewer answers aside. -/
def Transfer.only {A : Type} (P : A → Prop) : Transfer A → Transfer A
  | .aside may => .aside fun a => may a ∧ P a
  | m => m

namespace Transfer

variable {A : Type} {P : A → Prop} {t : Transfer A}

theorem only_eq_put {bs : List UInt8} {a : A} (h : t.only P = .put bs a) : t = .put bs a := by
  cases t with
  | put | take => exact h
  | aside => cases h

theorem only_eq_take {n : ℕ} {got : { bs : List UInt8 // bs.length = n } → A}
    (h : t.only P = .take n got) :
    t = .take n got := by
  cases t with
  | put | take => exact h
  | aside => cases h

theorem only_eq_aside {may : A → Prop} (h : t.only P = .aside may) :
    ∃ may', t = .aside may' ∧ ∀ a, may a → may' a := by
  cases t with
  | put | take => cases h
  | aside may' =>
    obtain rfl := aside.inj h
    exact ⟨may', rfl, fun a ha => ha.1⟩

end Transfer

/-- An operation and its answer. -/
structure Did {Op : Type} (Ans : Op → Type) where
  op : Op
  ans : Ans op

section Adv

variable {Op : Type} {Ans : Op → Type} {α : Type}

/-- One operation of a program: the bytes that had come for it, what is left of
them, and the bytes it sends. -/
inductive Adv (m : ∀ o, Transfer (Ans o)) :
    Prog Ans α → List UInt8 → Did Ans → Prog Ans α → List UInt8 → List UInt8 → Prop
  | put {o : Op} {next : Ans o → Prog Ans α} {came bs : List UInt8} {a : Ans o}
      (h : m o = .put bs a) :
      Adv m (.op o next) came ⟨o, a⟩ (next a) came bs
  | take {o : Op} {next : Ans o → Prog Ans α} {came left : List UInt8} {n : ℕ}
      {got : { bs : List UInt8 // bs.length = n } → Ans o} (h : m o = .take n got)
      (bs : { bs : List UInt8 // bs.length = n }) (hc : came = bs.1 ++ left) :
      Adv m (.op o next) came ⟨o, got bs⟩ (next (got bs)) left []
  | aside {o : Op} {next : Ans o → Prog Ans α} {came : List UInt8} {may : Ans o → Prop} {a : Ans o}
      (h : m o = .aside may) (ha : may a) : Adv m (.op o next) came ⟨o, a⟩ (next a) came []

variable {m : ∀ o, Transfer (Ans o)} {p p' p₀ : Prog Ans α} {d d₀ : Did Ans}
  {came left left₀ out out₀ : List UInt8}

/-- More bytes do not keep a program from anything. -/
theorem Adv.append (x : List UInt8) (h : Adv m p came d p' left out) :
    Adv m p (came ++ x) d p' (left ++ x) out := by
  cases h with
  | put h => exact .put h
  | take h bs hc => exact .take h bs (by rw [hc, List.append_assoc])
  | aside h ha => exact .aside h ha

/-- A program that need not wait does not read what comes later. -/
theorem Adv.of_append {x : List UInt8} (hcan : Adv m p came d₀ p₀ left₀ out₀)
    (h : Adv m p (came ++ x) d p' left out) :
    ∃ left', left = left' ++ x ∧ Adv m p came d p' left' out := by
  cases h with
  | put h => exact ⟨came, rfl, .put h⟩
  | aside h ha => exact ⟨came, rfl, .aside h ha⟩
  | take h bs hc =>
    cases hcan with
    | put h' => rw [h] at h'; cases h'
    | aside h' => rw [h] at h'; cases h'
    | take h' bs' hc' =>
      obtain ⟨rfl, -⟩ := Transfer.take.inj (h.symm.trans h')
      rw [hc', List.append_assoc] at hc
      obtain ⟨hbs, hl⟩ := List.append_inj hc (bs'.2.trans bs.2.symm)
      exact ⟨left₀, hl.symm, .take h bs (by rw [hc', hbs])⟩

theorem Adv.only {P : ∀ o, Ans o → Prop} (h : Adv m p came d p' left out) (hP : P d.op d.ans) :
    Adv (fun o => (m o).only (P o)) p came d p' left out := by
  cases h with
  | put h => exact .put (by rw [h]; rfl)
  | take h bs hc => exact .take (by rw [h]; rfl) bs hc
  | @aside o _ _ may _ h ha =>
    exact .aside (show (m o).only (P o) = .aside fun a => may a ∧ P o a by rw [h]; rfl) ⟨ha, hP⟩

theorem Adv.of_only {P : ∀ o, Ans o → Prop}
    (h : Adv (fun o => (m o).only (P o)) p came d p' left out) :
    Adv m p came d p' left out := by
  cases h with
  | put h => exact .put (Transfer.only_eq_put h)
  | take h bs hc => exact .take (Transfer.only_eq_take h) bs hc
  | aside h ha =>
    obtain ⟨may, hm, hle⟩ := Transfer.only_eq_aside h
    exact .aside hm (hle _ ha)

end Adv

variable {Op₁ Op₂ : Type} {Ans₁ : Op₁ → Type} {Ans₂ : Op₂ → Type} {α β : Type}

/-- Two programs, and the bytes on their way to each. -/
structure Line (Ans₁ : Op₁ → Type) (Ans₂ : Op₂ → Type) (α β : Type) where
  left : Prog Ans₁ α
  right : Prog Ans₂ β
  toLeft : List UInt8
  toRight : List UInt8

variable (m₁ : ∀ o, Transfer (Ans₁ o)) (m₂ : ∀ o, Transfer (Ans₂ o))

namespace Line

/-- One of the programs does its operation. -/
inductive Step : Line Ans₁ Ans₂ α β → Did Ans₁ ⊕ Did Ans₂ → Line Ans₁ Ans₂ α β → Prop
  | left {l : Line Ans₁ Ans₂ α β} {d p came out} (h : Adv m₁ l.left l.toLeft d p came out) :
      Step l (.inl d) ⟨p, l.right, came, l.toRight ++ out⟩
  | right {l : Line Ans₁ Ans₂ α β} {d p came out} (h : Adv m₂ l.right l.toRight d p came out) :
      Step l (.inr d) ⟨l.left, p, l.toLeft ++ out, came⟩

/-- Neither can. -/
def Stuck (l : Line Ans₁ Ans₂ α β) : Prop := ∀ d l', ¬ Step m₁ m₂ l d l'

variable {m₁ m₂}

/-- A program that has returned stays so. -/
theorem left_ret {l l' : Line Ans₁ Ans₂ α β} {as : List (Did Ans₁ ⊕ Did Ans₂)} {a : α}
    (h : Run (Step m₁ m₂) l as l') (hl : l.left = .ret a) : l'.left = .ret a := by
  refine h.inv (I := fun l => l.left = .ret a) (fun s d s' hs hst => ?_) hl
  cases hst with
  | left h => rw [hs] at h; cases h
  | right _ => exact hs

end Line

open Line

/-- The programs come to an end with `Q` in at most `n` steps: one of them can do
its operation, and after any answer it leads there. -/
inductive EndsIn (Q : Line Ans₁ Ans₂ α β → Prop) : ℕ → Line Ans₁ Ans₂ α β → Prop
  | stop {n : ℕ} {l : Line Ans₁ Ans₂ α β} (h : Stuck m₁ m₂ l) (hq : Q l) : EndsIn Q n l
  | left {n : ℕ} {l : Line Ans₁ Ans₂ α β}
      (hcan : ∃ d p came out, Adv m₁ l.left l.toLeft d p came out)
      (h : ∀ d p came out, Adv m₁ l.left l.toLeft d p came out →
        EndsIn Q n ⟨p, l.right, came, l.toRight ++ out⟩) :
      EndsIn Q (n + 1) l
  | right {n : ℕ} {l : Line Ans₁ Ans₂ α β}
      (hcan : ∃ d p came out, Adv m₂ l.right l.toRight d p came out)
      (h : ∀ d p came out, Adv m₂ l.right l.toRight d p came out →
        EndsIn Q n ⟨l.left, p, l.toLeft ++ out, came⟩) :
      EndsIn Q (n + 1) l

namespace EndsIn

variable {m₁ m₂} {Q : Line Ans₁ Ans₂ α β → Prop} {n : ℕ} {l l' : Line Ans₁ Ans₂ α β}

/-- Any step is one of those that lead there, only taken in another order. -/
theorem step (h : EndsIn m₁ m₂ Q n l) :
    ∀ {d : Did Ans₁ ⊕ Did Ans₂} {l' : Line Ans₁ Ans₂ α β}, Step m₁ m₂ l d l' →
    ∃ k, n = k + 1 ∧ EndsIn m₁ m₂ Q k l' := by
  induction h with
  | stop h _ => intro d l' hst; exact absurd hst (h d l')
  | @left n l hcan h ih =>
    intro d l' hst
    cases hst with
    | left h' => exact ⟨n, rfl, h _ _ _ _ h'⟩
    | right h' =>
      obtain ⟨d₀, p₀, came₀, out₀, h₀⟩ := hcan
      -- the other end's step is there after this end's step too
      obtain ⟨k, rfl, -⟩ := ih _ _ _ _ h₀ (.right (h'.append out₀))
      refine ⟨k + 1, rfl, .left ⟨_, _, _, _, h₀.append _⟩ fun d₁ p₁ came₁ out₁ h₁ => ?_⟩
      obtain ⟨came', rfl, h₁'⟩ := h₀.of_append h₁
      obtain ⟨k', hk, hl⟩ := ih _ _ _ _ h₁' (.right (h'.append out₁))
      obtain rfl := Nat.succ.inj hk
      exact hl
  | @right n l hcan h ih =>
    intro d l' hst
    cases hst with
    | right h' => exact ⟨n, rfl, h _ _ _ _ h'⟩
    | left h' =>
      obtain ⟨d₀, p₀, came₀, out₀, h₀⟩ := hcan
      obtain ⟨k, rfl, -⟩ := ih _ _ _ _ h₀ (.left (h'.append out₀))
      refine ⟨k + 1, rfl, .right ⟨_, _, _, _, h₀.append _⟩ fun d₁ p₁ came₁ out₁ h₁ => ?_⟩
      obtain ⟨came', rfl, h₁'⟩ := h₀.of_append h₁
      obtain ⟨k', hk, hl⟩ := ih _ _ _ _ h₁' (.left (h'.append out₁))
      obtain rfl := Nat.succ.inj hk
      exact hl

/-- So no run is longer, and each is on its way there. -/
theorem run {as : List (Did Ans₁ ⊕ Did Ans₂)} (hr : Run (Step m₁ m₂) l as l') :
    ∀ {n : ℕ}, EndsIn m₁ m₂ Q n l → ∃ k, n = as.length + k ∧ EndsIn m₁ m₂ Q k l' := by
  induction hr with
  | nil => intro n h; exact ⟨n, by simp, h⟩
  | cons hst _ ih =>
    intro n h
    obtain ⟨k, rfl, hk⟩ := h.step hst
    obtain ⟨k', rfl, hk'⟩ := ih hk
    exact ⟨k', by simp only [List.length_cons]; omega, hk'⟩

theorem stuck (h : EndsIn m₁ m₂ Q n l) (hs : Stuck m₁ m₂ l) : Q l := by
  cases h with
  | stop _ hq => exact hq
  | left hcan _ =>
    obtain ⟨d, p, came, out, h⟩ := hcan
    exact absurd (.left h) (hs _ _)
  | right hcan _ =>
    obtain ⟨d, p, came, out, h⟩ := hcan
    exact absurd (.right h) (hs _ _)

/-- There is a run to the end. -/
theorem ends (h : EndsIn m₁ m₂ Q n l) :
    ∃ as l', Run (Step m₁ m₂) l as l' ∧ Stuck m₁ m₂ l' ∧ Q l' := by
  induction h with
  | @stop n l hs hq => exact ⟨[], l, .nil l, hs, hq⟩
  | left hcan _ ih =>
    obtain ⟨d, p, came, out, h⟩ := hcan
    obtain ⟨as, l', hr, hl⟩ := ih _ _ _ _ h
    exact ⟨.inl d :: as, l', .cons (.left h) hr, hl⟩
  | right hcan _ ih =>
    obtain ⟨d, p, came, out, h⟩ := hcan
    obtain ⟨as, l', hr, hl⟩ := ih _ _ _ _ h
    exact ⟨.inr d :: as, l', .cons (.right h) hr, hl⟩

theorem mono (h : EndsIn m₁ m₂ Q n l) : ∀ {k : ℕ}, n ≤ k → EndsIn m₁ m₂ Q k l := by
  induction h with
  | stop hs hq => intro k _; exact .stop hs hq
  | left hcan _ ih =>
    intro k hk
    obtain ⟨k, rfl⟩ := Nat.exists_eq_add_of_le' (Nat.one_le_of_lt hk)
    exact .left hcan fun d p came out h => ih d p came out h (by omega)
  | right hcan _ ih =>
    intro k hk
    obtain ⟨k, rfl⟩ := Nat.exists_eq_add_of_le' (Nat.one_le_of_lt hk)
    exact .right hcan fun d p came out h => ih d p came out h (by omega)

/-! The next operation is known. -/

variable {o₁ : Op₁} {o₂ : Op₂} {next₁ : Ans₁ o₁ → Prog Ans₁ α} {next₂ : Ans₂ o₂ → Prog Ans₂ β}
  {p : Prog Ans₁ α}
  {q : Prog Ans₂ β} {toLeft toRight : List UInt8}

theorem put_left {bs : List UInt8} {a : Ans₁ o₁} (ho : m₁ o₁ = .put bs a)
    (h : EndsIn m₁ m₂ Q n ⟨next₁ a, q, toLeft, toRight ++ bs⟩) :
    EndsIn m₁ m₂ Q (n + 1) ⟨.op o₁ next₁, q, toLeft, toRight⟩ := by
  refine .left ⟨_, _, _, _, .put ho⟩ fun d p came out ha => ?_
  cases ha with
  | put h' => obtain ⟨rfl, rfl⟩ := Transfer.put.inj (ho.symm.trans h'); exact h
  | take h' | aside h' => rw [ho] at h'; cases h'

theorem put_right {bs : List UInt8} {a : Ans₂ o₂} (ho : m₂ o₂ = .put bs a)
    (h : EndsIn m₁ m₂ Q n ⟨p, next₂ a, toLeft ++ bs, toRight⟩) :
    EndsIn m₁ m₂ Q (n + 1) ⟨p, .op o₂ next₂, toLeft, toRight⟩ := by
  refine .right ⟨_, _, _, _, .put ho⟩ fun d p came out ha => ?_
  cases ha with
  | put h' => obtain ⟨rfl, rfl⟩ := Transfer.put.inj (ho.symm.trans h'); exact h
  | take h' | aside h' => rw [ho] at h'; cases h'

theorem take_left {k : ℕ} (got : { bs : List UInt8 // bs.length = k } → Ans₁ o₁)
    (ho : m₁ o₁ = .take k got) (bs : { bs : List UInt8 // bs.length = k })
    (h : EndsIn m₁ m₂ Q n ⟨next₁ (got bs), q, toLeft, toRight⟩) :
    EndsIn m₁ m₂ Q (n + 1) ⟨.op o₁ next₁, q, bs.1 ++ toLeft, toRight⟩ := by
  refine .left ⟨_, _, _, _, .take ho bs rfl⟩ fun d p came out ha => ?_
  cases ha with
  | take h' bs' hc =>
    obtain ⟨rfl, hg⟩ := Transfer.take.inj (ho.symm.trans h')
    obtain rfl := eq_of_heq hg
    obtain ⟨hb, rfl⟩ := List.append_inj hc (bs.2.trans bs'.2.symm)
    obtain rfl := Subtype.ext hb
    rw [List.append_nil]
    exact h
  | put h' | aside h' => rw [ho] at h'; cases h'

theorem take_right {k : ℕ} (got : { bs : List UInt8 // bs.length = k } → Ans₂ o₂)
    (ho : m₂ o₂ = .take k got) (bs : { bs : List UInt8 // bs.length = k })
    (h : EndsIn m₁ m₂ Q n ⟨p, next₂ (got bs), toLeft, toRight⟩) :
    EndsIn m₁ m₂ Q (n + 1) ⟨p, .op o₂ next₂, toLeft, bs.1 ++ toRight⟩ := by
  refine .right ⟨_, _, _, _, .take ho bs rfl⟩ fun d p came out ha => ?_
  cases ha with
  | take h' bs' hc =>
    obtain ⟨rfl, hg⟩ := Transfer.take.inj (ho.symm.trans h')
    obtain rfl := eq_of_heq hg
    obtain ⟨hb, rfl⟩ := List.append_inj hc (bs.2.trans bs'.2.symm)
    obtain rfl := Subtype.ext hb
    rw [List.append_nil]
    exact h
  | put h' | aside h' => rw [ho] at h'; cases h'

theorem aside_right (may : Ans₂ o₂ → Prop) (ho : m₂ o₂ = .aside may) (hex : ∃ a, may a)
    (h : ∀ a, may a → EndsIn m₁ m₂ Q n ⟨p, next₂ a, toLeft, toRight⟩) :
    EndsIn m₁ m₂ Q (n + 1) ⟨p, .op o₂ next₂, toLeft, toRight⟩ := by
  obtain ⟨a, ha⟩ := hex
  refine .right ⟨_, _, _, _, .aside ho ha⟩ fun d p came out hadv => ?_
  cases hadv with
  | aside h' ha' =>
    obtain rfl := Transfer.aside.inj (ho.symm.trans h')
    rw [List.append_nil]
    exact h _ ha'
  | put h' | take h' => rw [ho] at h'; cases h'

end EndsIn

/-! ### Failures -/

/-- An operation on the connection fails, with one of the answers `f` of a failure.
Some of the bytes it was to send may have been sent. -/
inductive Fails {Op : Type} {Ans : Op → Type} {α : Type} (m : ∀ o, Transfer (Ans o))
    (f : ∀ o, Ans o → Prop) :
    Prog Ans α → Prog Ans α → List UInt8 → Prop
  | put {o : Op} {next : Ans o → Prog Ans α} {bs : List UInt8} {a r : Ans o}
      (h : m o = .put bs a) (hr : f o r) :
      Fails m f (.op o next) (next r) bs
  | take {o : Op} {next : Ans o → Prog Ans α} {n : ℕ}
      {got : { bs : List UInt8 // bs.length = n } → Ans o} {r : Ans o} (h : m o = .take n got)
      (hr : f o r) : Fails m f (.op o next) (next r) []

section Fails

variable {Op : Type} {Ans : Op → Type} {m : ∀ o, Transfer (Ans o)} {f : ∀ o, Ans o → Prop}
  {p p' : Prog Ans α}
  {bs : List UInt8}

/-- The operation might have sent its bytes instead; if it sends none, it might wait. -/
theorem Fails.done (h : Fails m f p p' bs) :
    (∃ d q, ∀ came, Adv m p came d q came bs) ∨ bs = [] := by
  cases h with
  | put h _ => exact .inl ⟨_, _, fun _ => .put h⟩
  | take _ _ => exact .inr rfl

theorem Fails.only {P : ∀ o, Ans o → Prop} (h : Fails m f p p' bs) :
    Fails (fun o => (m o).only (P o)) f p p' bs := by
  cases h with
  | put h hr => exact .put (by rw [h]; rfl) hr
  | take h hr => exact .take (by rw [h]; rfl) hr

end Fails

/-- A line, and which of its ends have not failed. -/
structure Shaky (Ans₁ : Op₁ → Type) (Ans₂ : Op₂ → Type) (α β : Type) where
  line : Line Ans₁ Ans₂ α β
  leftOk : Bool
  rightOk : Bool

variable (f₁ : ∀ o, Ans₁ o → Prop) (f₂ : ∀ o, Ans₂ o → Prop)

/-- A step of an end that has not failed, or its failure. What it has sent may get
lost from some byte on. -/
inductive ShakyStep : Shaky Ans₁ Ans₂ α β → Option (Did Ans₁ ⊕ Did Ans₂) →
    Shaky Ans₁ Ans₂ α β → Prop
  | left {u : Shaky Ans₁ Ans₂ α β} {d p came out} (hok : u.leftOk = true)
      (h : Adv m₁ u.line.left u.line.toLeft d p came out) :
      ShakyStep u (some (.inl d))
        ⟨⟨p, u.line.right, came, u.line.toRight ++ out⟩, u.leftOk, u.rightOk⟩
  | right {u : Shaky Ans₁ Ans₂ α β} {d p came out} (hok : u.rightOk = true)
      (h : Adv m₂ u.line.right u.line.toRight d p came out) :
      ShakyStep u (some (.inr d))
        ⟨⟨u.line.left, p, u.line.toLeft ++ out, came⟩, u.leftOk, u.rightOk⟩
  | failLeft {u : Shaky Ans₁ Ans₂ α β} {p bs sent} (hok : u.leftOk = true)
      (h : Fails m₁ f₁ u.line.left p bs) (hs : sent <+: u.line.toRight ++ bs) :
      ShakyStep u none ⟨⟨p, u.line.right, u.line.toLeft, sent⟩, false, u.rightOk⟩
  | failRight {u : Shaky Ans₁ Ans₂ α β} {p bs sent} (hok : u.rightOk = true)
      (h : Fails m₂ f₂ u.line.right p bs) (hs : sent <+: u.line.toLeft ++ bs) :
      ShakyStep u none ⟨⟨u.line.left, p, sent, u.line.toRight⟩, u.leftOk, false⟩

/-- The ends that have not failed are where they are in a line without failures;
to them comes no more than there. -/
structure Unshaken (u : Shaky Ans₁ Ans₂ α β) (v : Line Ans₁ Ans₂ α β) : Prop where
  left : u.leftOk = true → u.line.left = v.left
  right : u.rightOk = true → u.line.right = v.right
  toLeft : ∃ x, v.toLeft = u.line.toLeft ++ x ∧ (u.rightOk = true → x = [])
  toRight : ∃ x, v.toRight = u.line.toRight ++ x ∧ (u.leftOk = true → x = [])

variable {m₁ m₂ f₁ f₂}

theorem Unshaken.step {u u' : Shaky Ans₁ Ans₂ α β} {v : Line Ans₁ Ans₂ α β}
    {d : Option (Did Ans₁ ⊕ Did Ans₂)} (hm : Unshaken u v) (h : ShakyStep m₁ m₂ f₁ f₂ u d u') :
    ∃ as v', Run (Step m₁ m₂) v as v' ∧ Unshaken u' v' := by
  obtain ⟨x, hx, hxe⟩ := hm.toLeft
  obtain ⟨y, hy, hye⟩ := hm.toRight
  cases h with
  | left hok h =>
    obtain rfl := hye hok
    have hadv := h.append x
    rw [hm.left hok, ← hx] at hadv
    exact ⟨_, _, .single (.left hadv), fun _ => rfl, hm.right, ⟨x, rfl, hxe⟩,
      ⟨[], by simp [hy], fun _ => rfl⟩⟩
  | right hok h =>
    obtain rfl := hxe hok
    have hadv := h.append y
    rw [hm.right hok, ← hy] at hadv
    exact ⟨_, _, .single (.right hadv), hm.left, fun _ => rfl,
      ⟨[], by simp [hx], fun _ => rfl⟩, ⟨y, rfl, hye⟩⟩
  | failLeft hok h hs =>
    obtain rfl := hye hok
    obtain ⟨z, hz⟩ := hs
    rw [List.append_nil] at hy
    rcases h.done with ⟨d, q, hd⟩ | rfl
    · -- the operation that fails here is done there
      rw [hm.left hok] at hd
      refine ⟨_, _, .single (.left (hd v.toLeft)), nofun, hm.right, hm.toLeft, z, ?_, nofun⟩
      rw [hy, hz]
    · refine ⟨[], v, .nil v, nofun, hm.right, hm.toLeft, z, ?_, nofun⟩
      rw [hy, hz, List.append_nil]
  | failRight hok h hs =>
    obtain rfl := hxe hok
    obtain ⟨z, hz⟩ := hs
    rw [List.append_nil] at hx
    rcases h.done with ⟨d, q, hd⟩ | rfl
    · rw [hm.right hok] at hd
      refine ⟨_, _, .single (.right (hd v.toRight)), hm.left, nofun, ⟨z, ?_, nofun⟩, hm.toRight⟩
      rw [hx, hz]
    · refine ⟨[], v, .nil v, hm.left, nofun, ⟨z, ?_, nofun⟩, hm.toRight⟩
      rw [hx, hz, List.append_nil]

theorem Unshaken.run {u u' : Shaky Ans₁ Ans₂ α β} {as : List (Option (Did Ans₁ ⊕ Did Ans₂))}
    (h : Run (ShakyStep m₁ m₂ f₁ f₂) u as u') : ∀ {v : Line Ans₁ Ans₂ α β}, Unshaken u v →
    ∃ bs v', Run (Step m₁ m₂) v bs v' ∧ Unshaken u' v' := by
  induction h with
  | nil => intro v hm; exact ⟨[], v, .nil v, hm⟩
  | cons hst _ ih =>
    intro v hm
    obtain ⟨bs, v₁, h₁, hm₁⟩ := hm.step hst
    obtain ⟨cs, v₂, h₂, hm₂⟩ := ih hm₁
    exact ⟨bs ++ cs, v₂, h₁.append h₂, hm₂⟩

/-- A run without failures, with fewer answers of the right end. -/
theorem shaky_of_run {P : ∀ o, Ans₂ o → Prop} {l l' : Line Ans₁ Ans₂ α β}
    {as : List (Did Ans₁ ⊕ Did Ans₂)} (h : Run (Step m₁ fun o => (m₂ o).only (P o)) l as l') :
    Run (ShakyStep m₁ m₂ f₁ f₂) ⟨l, true, true⟩ (as.map some) ⟨l', true, true⟩ := by
  induction h with
  | nil => exact .nil _
  | cons hst _ ih =>
    cases hst with
    | left h => exact .cons (.left rfl h) ih
    | right h => exact .cons (.right rfl h.of_only) ih

/-- The answers aside of the right end are all `P`. -/
theorem ShakyStep.only {P : ∀ o, Ans₂ o → Prop} {u u' : Shaky Ans₁ Ans₂ α β}
    {as : List (Option (Did Ans₁ ⊕ Did Ans₂))} (h : Run (ShakyStep m₁ m₂ f₁ f₂) u as u')
    (hP : ∀ d, some (.inr d) ∈ as → P d.op d.ans) :
    Run (ShakyStep m₁ (fun o => (m₂ o).only (P o)) f₁ f₂) u as u' := by
  induction h with
  | nil => exact .nil _
  | cons hst _ ih =>
    refine .cons ?_ (ih fun d hd => hP d (List.mem_cons_of_mem _ hd))
    cases hst with
    | left hok h => exact .left hok h
    | right hok h => exact .right hok (h.only (hP _ List.mem_cons_self))
    | failLeft hok h hs => exact .failLeft hok h hs
    | failRight hok h hs => exact .failRight hok h.only hs

/-- The automaton of a program that does nothing more after an operation has failed;
its state says whether none has. -/
def quits {Op : Type} {Ans : Op → Type} (f : ∀ o, Ans o → Prop) : Prog.Phases Ans Prop :=
  ⟨fun q _ => q, fun q o r => q ∧ ¬ f o r⟩

theorem quits_op {Op : Type} {Ans : Op → Type} {f : ∀ o, Ans o → Prop} {fin : Prop → α → Prop}
    {o : Op} {next : Ans o → Prog Ans α} {q : Prop} (hq : q)
    (hok : ∀ r, ¬ f o r → ∀ q, q → Prog.Follows (quits f) fin q (next r))
    (hfail : ∀ r, f o r → ∃ a, next r = .ret a ∧ ∀ q, fin q a) :
    Prog.Follows (quits f) fin q (.op o next) := by
  refine ⟨hq, fun r => ?_⟩
  by_cases hf : f o r
  · obtain ⟨a, ha, hfin⟩ := hfail r hf
    rw [ha]
    exact hfin _
  · exact hok r hf _ ⟨hq, hf⟩

/-- Where a left end that quits is after a failure. -/
theorem ShakyStep.failed_left {fin : Prop → α → Prop} {u u' : Shaky Ans₁ Ans₂ α β}
    {as : List (Option (Did Ans₁ ⊕ Did Ans₂))} (h : Run (ShakyStep m₁ m₂ f₁ f₂) u as u')
    (hu : ∃ q, Prog.Follows (quits f₁) fin q u.line.left ∧ (u.leftOk = false → ¬ q)) :
    ∃ q, Prog.Follows (quits f₁) fin q u'.line.left ∧ (u'.leftOk = false → ¬ q) := by
  refine h.inv (I := fun u => ∃ q, Prog.Follows (quits f₁) fin q u.line.left ∧
    (u.leftOk = false → ¬ q)) ?_ hu
  rintro ⟨⟨p, q, x, y⟩, lok, rok⟩ d u' ⟨st, hf, hst⟩ hs
  cases hs with
  | left hok h =>
    rcases h with h | ⟨h, bs, hc⟩ | ⟨h, ha⟩ <;>
      exact ⟨_, hf.2 _, fun hl => absurd (hl.symm.trans hok) (by simp)⟩
  | right _ _ => exact ⟨st, hf, hst⟩
  | failRight _ _ _ => exact ⟨st, hf, hst⟩
  | failLeft hok h hs =>
    rcases h with ⟨h, hr⟩ | ⟨h, hr⟩ <;> exact ⟨_, hf.2 _, fun _ hq => hq.2 hr⟩

/-- What the left end returns without having failed, it returns in a run without
failures. -/
theorem EndsIn.shaky_left {Q : Line Ans₁ Ans₂ α β → Prop} {n : ℕ} {l : Line Ans₁ Ans₂ α β}
    {u : Shaky Ans₁ Ans₂ α β} {as : List (Option (Did Ans₁ ⊕ Did Ans₂))} {a : α}
    (h : EndsIn m₁ m₂ Q n l) (hr : Run (ShakyStep m₁ m₂ f₁ f₂) ⟨l, true, true⟩ as u)
    (hok : u.leftOk = true) (hl : u.line.left = .ret a) :
    ∃ w, Q w ∧ w.left = .ret a := by
  have hm : Unshaken ⟨l, true, true⟩ l :=
    ⟨fun _ => rfl, fun _ => rfl, ⟨[], by simp, fun _ => rfl⟩, ⟨[], by simp, fun _ => rfl⟩⟩
  obtain ⟨bs, v, hv, hmv⟩ := hm.run hr
  obtain ⟨k, -, hk⟩ := h.run hv
  obtain ⟨cs, w, hw, -, hq⟩ := hk.ends
  exact ⟨w, hq, left_ret hw ((hmv.left hok).symm.trans hl)⟩

end Lib
end Busrt
