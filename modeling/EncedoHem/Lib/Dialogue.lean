import Mathlib.Data.List.Basic
import Mathlib.Data.List.Count

namespace Dialogue

/-- A program that asks its environment questions `i : I` and goes on with an
answer in `O i`. Every branch is finite, so a program always comes to an end. -/
inductive Prog (I : Type) (O : I → Type) (α : Type) where
  | ret (a : α)
  | ask (i : I) (k : O i → Prog I O α)

/-- One exchange: the question asked and the answer it got. -/
structure Event (I : Type) (O : I → Type) where
  op : I
  ans : O op

variable {I : Type} {O : I → Type} {S E α β γ : Type}

/-- `Run p es a`: with the answers recorded in `es`, the program `p` ends in `a`. -/
inductive Run : Prog I O α → List (Event I O) → α → Prop where
  | ret (a : α) : Run (.ret a) [] a
  | ask (i : I) (k : O i → Prog I O α) (o : O i) {es : List (Event I O)} {a : α}
      (rest : Run (k o) es a) : Run (.ask i k) (⟨i, o⟩ :: es) a

namespace Prog

def bind : Prog I O α → (α → Prog I O β) → Prog I O β
  | .ret a, f => f a
  | .ask i k, f => .ask i (fun o => (k o).bind f)

theorem bind_assoc (p : Prog I O α) (f : α → Prog I O β) (g : β → Prog I O γ) :
    (p.bind f).bind g = p.bind fun a => (f a).bind g := by
  induction p with
  | ret a => rfl
  | ask i k ih =>
    simp only [bind]
    congr 1
    funext o
    exact ih o

/-- Answer every question by a strategy that sees the exchanges so far. -/
def play (σ : List (Event I O) → (i : I) → O i) :
    List (Event I O) → Prog I O α → List (Event I O) × α
  | h, .ret a => (h, a)
  | h, .ask i k => (k (σ h i)).play σ (h ++ [⟨i, σ h i⟩])

end Prog

theorem run_ret {a b : α} {es : List (Event I O)} :
    Run (.ret a : Prog I O α) es b ↔ es = [] ∧ b = a := by
  constructor
  · intro h; cases h; exact ⟨rfl, rfl⟩
  · rintro ⟨rfl, rfl⟩; exact .ret b

theorem run_ask {i : I} {k : O i → Prog I O α} {es : List (Event I O)} {a : α} :
    Run (.ask i k) es a ↔ ∃ o es', es = ⟨i, o⟩ :: es' ∧ Run (k o) es' a := by
  constructor
  · intro h; cases h with
    | ask _ _ o rest => exact ⟨o, _, rfl, rest⟩
  · rintro ⟨o, es', rfl, rest⟩; exact .ask i k o rest

/-- A run of a sequence splits into a run of each part. -/
theorem run_bind {p : Prog I O α} {f : α → Prog I O β} {es : List (Event I O)} {b : β} :
    Run (p.bind f) es b ↔ ∃ es₁ a es₂, es = es₁ ++ es₂ ∧ Run p es₁ a ∧ Run (f a) es₂ b := by
  induction p generalizing es with
  | ret a =>
    constructor
    · intro h; exact ⟨[], a, es, rfl, .ret a, h⟩
    · rintro ⟨es₁, a', es₂, rfl, h, hf⟩
      obtain ⟨rfl, rfl⟩ := run_ret.mp h
      exact hf
  | ask i k ih =>
    simp only [Prog.bind, run_ask]
    constructor
    · rintro ⟨o, es', rfl, h⟩
      obtain ⟨es₁, a, es₂, rfl, hp, hf⟩ := (ih o).mp h
      exact ⟨⟨i, o⟩ :: es₁, a, es₂, rfl, ⟨o, es₁, rfl, hp⟩, hf⟩
    · rintro ⟨es₁, a, es₂, rfl, ⟨o, es', rfl, hp⟩, hf⟩
      exact ⟨o, es' ++ es₂, rfl, (ih o).mpr ⟨es', a, es₂, rfl, hp, hf⟩⟩

/-- A program with the same answers comes to the same end. -/
theorem run_unique {p : Prog I O α} {es : List (Event I O)} {a b : α} (h : Run p es a)
    (h' : Run p es b) : a = b := by
  induction h with
  | ret a => exact (run_ret.mp h').2.symm
  | ask i k o rest ih =>
    obtain ⟨o', es', he, hr⟩ := run_ask.mp h'
    obtain ⟨hd, rfl⟩ := List.cons.inj he
    obtain rfl : o = o' := by simpa using hd
    exact ih hr

/-- Of two runs along one history neither stops before the other. -/
theorem run_prefix {p : Prog I O α} {es es' rest rest' : List (Event I O)} {a b : α} (h : Run p es a)
    (h' : Run p es' b) (he : es ++ rest = es' ++ rest') : es = es' ∧ a = b := by
  induction h generalizing es' with
  | ret a =>
    obtain ⟨rfl, rfl⟩ := run_ret.mp h'
    exact ⟨rfl, rfl⟩
  | ask i k o _ ih =>
    obtain ⟨o', es'', rfl, hr⟩ := run_ask.mp h'
    obtain ⟨hd, htail⟩ := List.cons.inj he
    obtain rfl : o = o' := by simpa using hd
    obtain ⟨rfl, rfl⟩ := ih hr htail
    exact ⟨rfl, rfl⟩

theorem play_run (σ : List (Event I O) → (i : I) → O i) (p : Prog I O α) (h : List (Event I O)) :
    ∃ es, (p.play σ h).1 = h ++ es ∧ Run p es (p.play σ h).2 := by
  induction p generalizing h with
  | ret a => exact ⟨[], by simp [Prog.play], .ret a⟩
  | ask i k ih =>
    obtain ⟨es, he, hr⟩ := ih (σ h i) (h ++ [⟨i, σ h i⟩])
    exact ⟨⟨i, σ h i⟩ :: es, by simp [Prog.play, he], .ask i k _ hr⟩

/-- Every exchange of a play is answered by its strategy. -/
theorem play_answers {σ : List (Event I O) → (i : I) → O i} {p : Prog I O α} {h : List (Event I O)}
    {e : Event I O} (he : e ∈ (p.play σ h).1) : e ∈ h ∨ ∃ h' i, e = ⟨i, σ h' i⟩ := by
  induction p generalizing h with
  | ret a => exact .inl he
  | ask i k ih =>
    rcases ih (σ h i) he with hm | hm
    · rcases List.mem_append.mp hm with hm | hm
      · exact .inl hm
      · exact .inr ⟨h, i, List.mem_singleton.mp hm⟩
    · exact .inr hm

/-- The play of a strategy from the empty history is a run. -/
theorem run_of_play (σ : List (Event I O) → (i : I) → O i) (p : Prog I O α) :
    Run p (p.play σ []).1 (p.play σ []).2 := by
  obtain ⟨es, he, hr⟩ := play_run σ p []
  rw [he]; exact hr

/-- Every program has a run, whatever the environment does: nothing gets stuck. -/
theorem run_exists [∀ i, Nonempty (O i)] (p : Prog I O α) : ∃ es a, Run p es a := by
  induction p with
  | ret a => exact ⟨[], a, .ret a⟩
  | ask i k ih =>
    obtain ⟨es, a, h⟩ := ih (Classical.choice inferInstance)
    exact ⟨_, a, .ask i k _ h⟩

/-- A stateful command that may stop with an error. -/
def Cmd (I : Type) (O : I → Type) (S E α : Type) : Type := S → Prog I O (Except E α × S)

namespace Cmd

def pure (a : α) : Cmd I O S E α := fun s => .ret (.ok a, s)

/-- Sequencing: an error ends the sequence and keeps the state it left. -/
def bind (x : Cmd I O S E α) (f : α → Cmd I O S E β) : Cmd I O S E β := fun s =>
  (x s).bind fun (r, s') =>
    match r with
    | .ok a => f a s'
    | .error e => .ret (.error e, s')

instance : Monad (Cmd I O S E) where
  pure := pure
  bind := bind

def ask (i : I) : Cmd I O S E (O i) := fun s => .ask i (fun o => .ret (.ok o, s))
def get : Cmd I O S E S := fun s => .ret (.ok s, s)
def modify (f : S → S) : Cmd I O S E Unit := fun s => .ret (.ok (), f s)
def throw (e : E) : Cmd I O S E α := fun s => .ret (.error e, s)

/-- Run a command and hand its outcome back as a value. -/
def attempt (x : Cmd I O S E α) : Cmd I O S E (Except E α) := fun s =>
  (x s).bind fun (r, s') => .ret (.ok r, s')

theorem bind_assoc (x : Cmd I O S E α) (f : α → Cmd I O S E β) (g : β → Cmd I O S E γ) :
    x >>= f >>= g = x >>= fun a => f a >>= g := by
  funext s
  show ((x s).bind _).bind _ = (x s).bind _
  rw [Prog.bind_assoc]
  congr 1
  funext ⟨r, s'⟩
  cases r with
  | ok a => rfl
  | error e => rfl

/-- What is attempted in two parts ends with the first one's error or with what the second comes to. -/
theorem attempt_bind (x : Cmd I O S E α) (f : α → Cmd I O S E β) :
    (x >>= f).attempt = x.attempt >>= fun r =>
      match r with
      | .ok a => (f a).attempt
      | .error e => Pure.pure (.error e) := by
  funext s
  show ((x s).bind _).bind _ = ((x s).bind _).bind _
  rw [Prog.bind_assoc, Prog.bind_assoc]
  congr 1
  funext ⟨r, s'⟩
  cases r with
  | ok a => rfl
  | error e => rfl

theorem bind_pure (x : Cmd I O S E α) : (x >>= fun a => Pure.pure a) = x := by
  have hend : ∀ p : Prog I O (Except E α × S), (p.bind fun (r, s') => match r with
      | .ok a => .ret (.ok a, s')
      | .error e => .ret (.error e, s')) = p := by
    intro p
    induction p with
    | ret a =>
      obtain ⟨r, s⟩ := a
      cases r with
      | ok a => rfl
      | error e => rfl
    | ask i k ih =>
      simp only [Prog.bind]
      congr 1
      funext o
      exact ih o
  funext s
  exact hend (x s)

theorem pure_bind (a : α) (f : α → Cmd I O S E β) : (Pure.pure a : Cmd I O S E α) >>= f = f a := rfl

theorem ask_bind_apply (i : I) (f : O i → Cmd I O S E α) (s : S) :
    (Cmd.ask i >>= f) s = .ask i fun o => f o s := rfl

theorem get_bind_apply (f : S → Cmd I O S E α) (s : S) : (Cmd.get >>= f) s = f s s := rfl

theorem modify_bind_apply (g : S → S) (f : Unit → Cmd I O S E α) (s : S) :
    (Cmd.modify g >>= f) s = f () (g s) := rfl

theorem throw_bind (e : E) (f : α → Cmd I O S E β) :
    (throw e : Cmd I O S E α) >>= f = throw e := rfl

end Cmd

/-- `Runs x s es r s'`: started in `s` and answered as in `es`, the command `x`
ends with the outcome `r` in the state `s'`. -/
def Runs (x : Cmd I O S E α) (s : S) (es : List (Event I O)) (r : Except E α) (s' : S) : Prop :=
  Run (x s) es (r, s')

/-- What holds of every run of `x` from `s`. -/
def wp (x : Cmd I O S E α) (Q : List (Event I O) → Except E α → S → Prop) (s : S) : Prop :=
  ∀ es r s', Runs x s es r s' → Q es r s'

section Rules
variable {x : Cmd I O S E α} {f : α → Cmd I O S E β}
  {Q : List (Event I O) → Except E α → S → Prop} {s : S}

theorem wp_mono {Q' : List (Event I O) → Except E α → S → Prop} (h : wp x Q s)
    (hq : ∀ es r s', Q es r s' → Q' es r s') : wp x Q' s :=
  fun es r s' hr => hq es r s' (h es r s' hr)

theorem wp_and {Q' : List (Event I O) → Except E α → S → Prop} (h : wp x Q s) (h' : wp x Q' s) :
    wp x (fun es r s' => Q es r s' ∧ Q' es r s') s :=
  fun es r s' hr => ⟨h es r s' hr, h' es r s' hr⟩

@[simp] theorem wp_pure {a : α} : wp (Pure.pure a : Cmd I O S E α) Q s ↔ Q [] (.ok a) s := by
  constructor
  · intro h; exact h [] (.ok a) s (.ret _)
  · intro h es r s' hr
    obtain ⟨rfl, he⟩ := run_ret.mp hr
    obtain ⟨rfl, rfl⟩ := Prod.mk.inj he
    exact h

@[simp] theorem wp_throw {e : E} : wp (Cmd.throw e : Cmd I O S E α) Q s ↔ Q [] (.error e) s := by
  constructor
  · intro h; exact h [] (.error e) s (.ret _)
  · intro h es r s' hr
    obtain ⟨rfl, he⟩ := run_ret.mp hr
    obtain ⟨rfl, rfl⟩ := Prod.mk.inj he
    exact h

@[simp] theorem wp_get {Q : List (Event I O) → Except E S → S → Prop} :
    wp (Cmd.get : Cmd I O S E S) Q s ↔ Q [] (.ok s) s := by
  constructor
  · intro h; exact h [] (.ok s) s (.ret _)
  · intro h es r s' hr
    obtain ⟨rfl, he⟩ := run_ret.mp hr
    obtain ⟨rfl, rfl⟩ := Prod.mk.inj he
    exact h

@[simp] theorem wp_modify {g : S → S} {Q : List (Event I O) → Except E Unit → S → Prop} :
    wp (Cmd.modify g : Cmd I O S E Unit) Q s ↔ Q [] (.ok ()) (g s) := by
  constructor
  · intro h; exact h [] (.ok ()) (g s) (.ret _)
  · intro h es r s' hr
    obtain ⟨rfl, he⟩ := run_ret.mp hr
    obtain ⟨rfl, rfl⟩ := Prod.mk.inj he
    exact h

@[simp] theorem wp_ask {i : I} {Q : List (Event I O) → Except E (O i) → S → Prop} :
    wp (Cmd.ask i : Cmd I O S E (O i)) Q s ↔ ∀ o, Q [⟨i, o⟩] (.ok o) s := by
  constructor
  · intro h o; exact h [⟨i, o⟩] (.ok o) s (.ask i _ o (.ret _))
  · intro h es r s' hr
    obtain ⟨o, es', rfl, hk⟩ := run_ask.mp hr
    obtain ⟨rfl, he⟩ := run_ret.mp hk
    obtain ⟨rfl, rfl⟩ := Prod.mk.inj he
    exact h o

/-- The rule of sequencing: the first part's errors end the sequence. -/
@[simp] theorem wp_bind {Q : List (Event I O) → Except E β → S → Prop} :
    wp (x >>= f) Q s ↔ wp x (fun es r s' =>
      match r with
      | .ok a => wp (f a) (fun es' => Q (es ++ es')) s'
      | .error e => Q es (.error e) s') s := by
  constructor
  · intro h es r s' hx
    cases r with
    | ok a =>
      intro es' r' s'' hf
      exact h _ _ _ (run_bind.mpr ⟨es, (.ok a, s'), es', rfl, hx, hf⟩)
    | error e =>
      have := h (es ++ []) (.error e) s' (run_bind.mpr ⟨es, (.error e, s'), [], rfl, hx, .ret _⟩)
      simpa using this
  · intro h es r s' hr
    obtain ⟨es₁, ⟨r₁, s₁⟩, es₂, rfl, hx, hf⟩ := run_bind.mp hr
    have h₁ := h es₁ r₁ s₁ hx
    cases r₁ with
    | ok a => exact h₁ es₂ r s' hf
    | error e =>
      obtain ⟨rfl, he⟩ := run_ret.mp hf
      obtain ⟨rfl, rfl⟩ := Prod.mk.inj he
      simpa using h₁

@[simp] theorem wp_attempt {Q : List (Event I O) → Except E (Except E α) → S → Prop} :
    wp x.attempt Q s ↔ wp x (fun es r s' => Q es (.ok r) s') s := by
  constructor
  · intro h es r s' hx
    have := h (es ++ []) (.ok r) s' (run_bind.mpr ⟨es, (r, s'), [], rfl, hx, .ret _⟩)
    simpa using this
  · intro h es r s' hr
    obtain ⟨es₁, ⟨r₁, s₁⟩, es₂, rfl, hx, hf⟩ := run_bind.mp hr
    obtain ⟨rfl, he⟩ := run_ret.mp hf
    obtain ⟨rfl, rfl⟩ := Prod.mk.inj he
    simpa using h es₁ r₁ _ hx

@[simp] theorem wp_ite {c : Prop} [Decidable c] {y : Cmd I O S E α} :
    wp (if c then x else y) Q s ↔ if c then wp x Q s else wp y Q s := by
  split <;> rfl

/-- Sequencing through a specification of the first part. -/
theorem wp_bind_of {P : List (Event I O) → Except E α → S → Prop}
    {Q : List (Event I O) → Except E β → S → Prop} (hx : wp x P s)
    (hok : ∀ es a s', P es (.ok a) s' → wp (f a) (fun es' => Q (es ++ es')) s')
    (herr : ∀ es e s', P es (.error e) s' → Q es (.error e) s') : wp (x >>= f) Q s := by
  rw [wp_bind]
  refine wp_mono hx fun es r s' h => ?_
  cases r with
  | ok a => exact hok es a s' h
  | error e => exact herr es e s' h

end Rules

/-- A relation between the state before, the exchanges and the state after that
holds of doing nothing and passes from the parts of a sequence to the whole. -/
structure Contract (I : Type) (O : I → Type) (S : Type) where
  rel : S → List (Event I O) → S → Prop
  refl : ∀ s, rel s [] s
  trans : ∀ {s es s' es' s''}, rel s es s' → rel s' es' s'' → rel s (es ++ es') s''

/-- Every run of `x`, successful or not, is within the contract. -/
structure Keeps (K : Contract I O S) (x : Cmd I O S E α) : Prop where
  run : ∀ s, wp x (fun es _ s' => K.rel s es s') s

namespace Keeps
variable {K : Contract I O S} {x : Cmd I O S E α} {f : α → Cmd I O S E β}

theorem pure (a : α) : Keeps K (Pure.pure a : Cmd I O S E α) :=
  ⟨fun s => by simpa using K.refl s⟩

theorem throw (e : E) : Keeps K (Cmd.throw e : Cmd I O S E α) :=
  ⟨fun s => by simpa using K.refl s⟩

theorem get : Keeps K (Cmd.get : Cmd I O S E S) :=
  ⟨fun s => by simpa using K.refl s⟩

theorem bind (hx : Keeps K x) (hf : ∀ a, Keeps K (f a)) : Keeps K (x >>= f) := by
  refine ⟨fun s => wp_bind_of (hx.run s) ?_ fun es e s' h => h⟩
  intro es a s' h
  exact wp_mono ((hf a).run s') fun es' r s'' h' => K.trans h h'

theorem attempt (hx : Keeps K x) : Keeps K x.attempt :=
  ⟨fun s => wp_attempt.mpr (hx.run s)⟩

theorem ite {c : Prop} [Decidable c] {y : Cmd I O S E α} (hx : c → Keeps K x)
    (hy : ¬c → Keeps K y) : Keeps K (if c then x else y) := by
  split
  · exact hx ‹_›
  · exact hy ‹_›

theorem ask {i : I} (h : ∀ s o, K.rel s [⟨i, o⟩] s) : Keeps K (Cmd.ask i : Cmd I O S E (O i)) :=
  ⟨fun s => by simpa using h s⟩

theorem modify {g : S → S} (h : ∀ s, K.rel s [] (g s)) :
    Keeps K (Cmd.modify g : Cmd I O S E Unit) :=
  ⟨fun s => by simpa using h s⟩

end Keeps

/-- Where the command succeeds, its value satisfies `V`. -/
structure Yields (x : Cmd I O S E α) (V : α → Prop) : Prop where
  run : ∀ s, wp x (fun _ r _ => ∀ a, r = .ok a → V a) s

namespace Yields
variable {x : Cmd I O S E α} {f : α → Cmd I O S E β}

theorem pure {a : α} {V : α → Prop} (h : V a) : Yields (Pure.pure a : Cmd I O S E α) V :=
  ⟨fun _ => wp_pure.mpr fun _ hb => Except.ok.inj hb ▸ h⟩

theorem throw (e : E) (V : α → Prop) : Yields (Cmd.throw e : Cmd I O S E α) V :=
  ⟨fun _ => wp_throw.mpr fun _ hb => nomatch hb⟩

theorem bind_of {W : α → Prop} {V : β → Prop} (hx : Yields x W) (hf : ∀ a, W a → Yields (f a) V) :
    Yields (x >>= f) V :=
  ⟨fun s => wp_bind_of (hx.run s) (fun _ a s' h => (hf a (h a rfl)).run s')
    fun _ _ _ _ _ hb => nomatch hb⟩

theorem bind {V : β → Prop} (hf : ∀ a, Yields (f a) V) : Yields (x >>= f) V :=
  bind_of (W := fun _ => True) ⟨fun _ _ _ _ _ _ _ => trivial⟩ fun a _ => hf a

theorem attempt {V : α → Prop} (hx : Yields x V) : Yields x.attempt fun r => ∀ a, r = .ok a → V a :=
  ⟨fun s => wp_attempt.mpr (wp_mono (hx.run s) fun _ _ _ h _ hb => Except.ok.inj hb ▸ h)⟩

theorem ite {c : Prop} [Decidable c] {y : Cmd I O S E α} {V : α → Prop} (hx : c → Yields x V)
    (hy : ¬c → Yields y V) : Yields (if c then x else y) V := by
  split
  · exact hx ‹_›
  · exact hy ‹_›

end Yields

/-- Where the command succeeds, its exchanges and its value satisfy `V`. -/
structure Draws (x : Cmd I O S E α) (V : List (Event I O) → α → Prop) : Prop where
  run : ∀ s, wp x (fun es r _ => ∀ a, r = .ok a → V es a) s

namespace Draws
variable {x : Cmd I O S E α} {f : α → Cmd I O S E β}

theorem pure {a : α} {V : List (Event I O) → α → Prop} (h : V [] a) : Draws (Pure.pure a : Cmd I O S E α) V :=
  ⟨fun _ => wp_pure.mpr fun _ hb => Except.ok.inj hb ▸ h⟩

theorem throw (e : E) (V : List (Event I O) → α → Prop) : Draws (Cmd.throw e : Cmd I O S E α) V :=
  ⟨fun _ => wp_throw.mpr fun _ hb => nomatch hb⟩

theorem bind_of {W : List (Event I O) → α → Prop} {V : List (Event I O) → β → Prop} (hx : Draws x W)
    (hf : ∀ es a, W es a → Draws (f a) fun es' => V (es ++ es')) : Draws (x >>= f) V :=
  ⟨fun s => wp_bind_of (hx.run s) (fun es a s' h => (hf es a (h a rfl)).run s') fun _ _ _ _ _ hb => nomatch hb⟩

theorem mono {V W : List (Event I O) → α → Prop} (hx : Draws x V) (h : ∀ es a, V es a → W es a) : Draws x W :=
  ⟨fun s => wp_mono (hx.run s) fun es _ _ hv a ha => h es a (hv a ha)⟩

/-- Whatever the first part comes to. -/
theorem bind_any {V : List (Event I O) → β → Prop} (hf : ∀ es a, Draws (f a) fun es' => V (es ++ es')) :
    Draws (x >>= f) V :=
  bind_of (W := fun _ _ => True) ⟨fun _ _ _ _ _ _ _ => trivial⟩ fun es a _ => hf es a

/-- What exchanges show is not hidden by earlier ones. -/
theorem bind {V : List (Event I O) → β → Prop} (hv : ∀ es es' b, V es' b → V (es ++ es') b)
    (hf : ∀ a, Draws (f a) V) : Draws (x >>= f) V :=
  bind_any fun es a => (hf a).mono fun es' b => hv es es' b

theorem ite {c : Prop} [Decidable c] {y : Cmd I O S E α} {V : List (Event I O) → α → Prop}
    (hx : c → Draws x V) (hy : ¬c → Draws y V) : Draws (if c then x else y) V := by
  split
  · exact hx ‹_›
  · exact hy ‹_›

end Draws

/-- Where the command succeeds, its value and the state it leaves satisfy `V`. -/
structure Lands (x : Cmd I O S E α) (V : α → S → Prop) : Prop where
  run : ∀ s, wp x (fun _ r s' => ∀ a, r = .ok a → V a s') s

namespace Lands
variable {x : Cmd I O S E α} {f : α → Cmd I O S E β} {W : α → S → Prop} {V : β → S → Prop}

theorem pure {b : β} (h : ∀ s, V b s) : Lands (Pure.pure b : Cmd I O S E β) V :=
  ⟨fun s => wp_pure.mpr fun _ hb => Except.ok.inj hb ▸ h s⟩

theorem throw (e : E) : Lands (Cmd.throw e : Cmd I O S E β) V :=
  ⟨fun _ => wp_throw.mpr fun _ hb => nomatch hb⟩

theorem bind_of (hx : Lands x W)
    (hf : ∀ a s, W a s → wp (f a) (fun _ r s' => ∀ b, r = .ok b → V b s') s) : Lands (x >>= f) V :=
  ⟨fun s => wp_bind_of (hx.run s) (fun _ a s' h => hf a s' (h a rfl)) fun _ _ _ _ _ hb => nomatch hb⟩

theorem bind (hf : ∀ a, Lands (f a) V) : Lands (x >>= f) V :=
  bind_of (W := fun _ _ => True) ⟨fun _ _ _ _ _ _ _ => trivial⟩ fun a s _ => (hf a).run s

/-- What is made of the value of a command's last step. -/
theorem map {g : α → β} (hx : Lands x W) (h : ∀ a s, W a s → V (g a) s) :
    Lands (x >>= fun a => Pure.pure (g a)) V :=
  bind_of hx fun a s hw => wp_pure.mpr fun _ hb => Except.ok.inj hb ▸ h a s hw

theorem attempt (hx : Lands x W) : Lands x.attempt fun r s => ∀ a, r = .ok a → W a s :=
  ⟨fun s => wp_attempt.mpr (wp_mono (hx.run s) fun _ _ _ h _ hb => Except.ok.inj hb ▸ h)⟩

theorem ite {c : Prop} [Decidable c] {y : Cmd I O S E α} (hx : c → Lands x W)
    (hy : ¬c → Lands y W) : Lands (if c then x else y) W := by
  split
  · exact hx ‹_›
  · exact hy ‹_›

theorem and_yields {w : α → Prop} (hx : Lands x W) (hy : Yields x w) :
    Lands x fun a s => W a s ∧ w a :=
  ⟨fun s => wp_mono (wp_and (hx.run s) (hy.run s)) fun _ _ _ h a ha => ⟨h.1 a ha, h.2 a ha⟩⟩

end Lands

/-- Where the command fails, its error satisfies `P`. -/
structure Throws (x : Cmd I O S E α) (P : E → Prop) : Prop where
  run : ∀ s, wp x (fun _ r _ => ∀ e, r = .error e → P e) s

namespace Throws
variable {x : Cmd I O S E α} {f : α → Cmd I O S E β} {P : E → Prop}

theorem pure (a : α) : Throws (Pure.pure a : Cmd I O S E α) P :=
  ⟨fun _ => wp_pure.mpr fun _ he => nomatch he⟩

theorem throw {e : E} (h : P e) : Throws (Cmd.throw e : Cmd I O S E α) P :=
  ⟨fun _ => wp_throw.mpr fun _ he => Except.error.inj he ▸ h⟩

theorem get : Throws (Cmd.get : Cmd I O S E S) P := ⟨fun _ => wp_get.mpr fun _ he => nomatch he⟩

theorem modify (g : S → S) : Throws (Cmd.modify g : Cmd I O S E Unit) P :=
  ⟨fun _ => wp_modify.mpr fun _ he => nomatch he⟩

theorem ask (i : I) : Throws (Cmd.ask i : Cmd I O S E (O i)) P :=
  ⟨fun _ => wp_ask.mpr fun _ _ he => nomatch he⟩

theorem bind (hx : Throws x P) (hf : ∀ a, Throws (f a) P) : Throws (x >>= f) P :=
  ⟨fun s => wp_bind_of (hx.run s) (fun _ a s' _ => (hf a).run s')
    fun _ e _ h _ he => Except.error.inj he ▸ h e rfl⟩

/-- What was attempted fails no more. -/
theorem attempt (x : Cmd I O S E α) : Throws x.attempt P :=
  ⟨fun _ => wp_attempt.mpr fun _ _ _ _ _ he => nomatch he⟩

/-- What is done with a failure may count on what the failure is. -/
theorem attempt_bind {g : Except E α → Cmd I O S E β} (hx : Throws x P)
    (hok : ∀ a, Throws (g (.ok a)) P) (herr : ∀ e, P e → Throws (g (.error e)) P) :
    Throws (x.attempt >>= g) P := by
  refine ⟨fun s => wp_bind.mpr (wp_attempt.mpr (wp_mono (hx.run s) fun _ r s' h => ?_))⟩
  cases r with
  | ok a => exact (hok a).run s'
  | error e => exact (herr e (h e rfl)).run s'

theorem ite {c : Prop} [Decidable c] {y : Cmd I O S E α} (hx : c → Throws x P)
    (hy : ¬c → Throws y P) : Throws (if c then x else y) P := by
  split
  · exact hx ‹_›
  · exact hy ‹_›

end Throws

/-- The second part of a sequence has to keep the contract for the values only that
the first part yields. -/
theorem Keeps.bind_yields {K : Contract I O S} {x : Cmd I O S E α} {f : α → Cmd I O S E β}
    {V : α → Prop} (hx : Keeps K x) (hv : Yields x V) (hf : ∀ a, V a → Keeps K (f a)) :
    Keeps K (x >>= f) := by
  refine ⟨fun s => wp_bind_of (wp_and (hx.run s) (hv.run s)) ?_ fun es e s' h => h.1⟩
  intro es a s' h
  exact wp_mono ((hf a (h.2 a rfl)).run s') fun es' r s'' h' => K.trans h.1 h'

/-- A sequence whose second part relies on what the first part established. -/
theorem wp_bind_contract {K : Contract I O S} {x : Cmd I O S E α} {f : α → Cmd I O S E β} {s : S}
    {P : List (Event I O) → Except E α → S → Prop} (hx : wp x P s)
    (hk : ∀ es r s', P es r s' → K.rel s es s')
    (hf : ∀ es a s', P es (.ok a) s' → wp (f a) (fun es' _ s'' => K.rel s' es' s'') s') :
    wp (x >>= f) (fun es _ s' => K.rel s es s') s := by
  refine wp_bind_of hx ?_ fun es e s' h => hk _ _ _ h
  intro es a s' h
  exact wp_mono (hf es a s' h) fun es' r s'' h' => K.trans (hk _ _ _ h) h'

/-- The contract that every exchange satisfies `P`. -/
def Emits (P : Event I O → Prop) : Contract I O S where
  rel _ es _ := ∀ e ∈ es, P e
  refl := by simp
  trans := by
    intro s es s' es' s'' h h' e he
    rcases List.mem_append.mp he with he | he
    · exact h e he
    · exact h' e he

theorem Keeps.mono {K K' : Contract I O S} {x : Cmd I O S E α} (hx : Keeps K x)
    (h : ∀ s es s', K.rel s es s' → K'.rel s es s') : Keeps K' x :=
  ⟨fun s => wp_mono (hx.run s) fun es _ s' => h s es s'⟩

theorem Keeps.emits {P Q : Event I O → Prop} {x : Cmd I O S E α}
    (hx : Keeps (Emits P : Contract I O S) x) (h : ∀ e, P e → Q e) :
    Keeps (Emits Q : Contract I O S) x :=
  hx.mono fun _ _ _ hp e he => h e (hp e he)

theorem emits_single {P : Event I O → Prop} {s s' : S} {e : Event I O} (h : P e) :
    (Emits P).rel s [e] s' := fun d hd => by
  rw [List.mem_singleton] at hd
  exact hd ▸ h

theorem emits_nil {P : Event I O → Prop} {s s' : S} : (Emits P).rel s [] s' :=
  fun _ he => absurd he List.not_mem_nil

/-- What the last of the exchanges that show anything to `f` shows. -/
def latest (f : Event I O → Option β) (es : List (Event I O)) : Option β :=
  (es.filterMap f).getLast?

theorem latest_mem {f : Event I O → Option β} {es : List (Event I O)} {b : β}
    (h : latest f es = some b) : ∃ e ∈ es, f e = some b :=
  List.mem_filterMap.mp (List.mem_of_getLast? h)

theorem latest_append (f : Event I O → Option β) (es es' : List (Event I O)) :
    latest f (es ++ es') = (latest f es').or (latest f es) := by
  unfold latest
  rw [List.filterMap_append, List.getLast?_append]

theorem latest_none {f : Event I O → Option β} {es : List (Event I O)} (h : ∀ e ∈ es, f e = none) :
    latest f es = none := by
  unfold latest
  rw [List.filterMap_eq_nil_iff.mpr h]
  rfl

theorem latest_append_none {f : Event I O → Option β} {es es' : List (Event I O)}
    (h : ∀ e ∈ es', f e = none) : latest f (es ++ es') = latest f es := by
  rw [latest_append, latest_none h]
  rfl

/-- What is shown later hides what was shown before. -/
theorem latest_append_some {f : Event I O → Option β} {es es' : List (Event I O)} {b : β}
    (h : latest f es' = some b) : latest f (es ++ es') = some b := by
  rw [latest_append, h]
  rfl

/-- The last of the exchanges that `f` keeps is the last that `g` shows something
of, when it shows something of it and of no exchange that `f` leaves out. -/
theorem latest_of_latest {f : Event I O → Option (Event I O)} {g : Event I O → Option β}
    (hf : ∀ e, f e = none ∨ f e = some e) (hg : ∀ e, f e = none → g e = none)
    {es : List (Event I O)} {e : Event I O} {b : β} (h : latest f es = some e) (hb : g e = some b) :
    latest g es = some b := by
  have hsame : es.filterMap g = (es.filterMap f).filterMap g := by
    rw [List.filterMap_filterMap]
    congr 1
    funext d
    rcases hf d with h0 | h1
    · rw [h0, hg d h0]
      rfl
    · rw [h1]
      rfl
  unfold latest at *
  rw [hsame, ← List.dropLast_append_getLast? e h, List.filterMap_append, List.getLast?_append]
  simp [hb]

/-- An exchange of a concatenation lies in its first part or in its second. -/
theorem split_append {es es' pre post : List α} {e : α} (h : es ++ es' = pre ++ e :: post) :
    (∃ mid, es = pre ++ e :: mid ∧ post = mid ++ es') ∨ (∃ mid, pre = es ++ mid ∧ es' = mid ++ e :: post) := by
  rcases List.append_eq_append_iff.mp h with ⟨mid, rfl, rfl⟩ | ⟨mid, rfl, hm⟩
  · exact .inr ⟨mid, rfl, rfl⟩
  · cases mid with
    | nil => exact .inr ⟨[], by simp, by simpa using hm.symm⟩
    | cons x mid =>
      obtain ⟨rfl, rfl⟩ := List.cons.inj hm
      exact .inl ⟨mid, rfl, rfl⟩

/-- What is done after a history that is within the contract, and keeps it, is within it. -/
theorem Keeps.after {K : Contract I O S} {x : Cmd I O S E α} (hx : Keeps K x) {s₀ s : S}
    {h : List (Event I O)} (hh : K.rel s₀ h s) :
    wp x (fun es _ s' => K.rel s₀ (h ++ es) s') s :=
  wp_mono (hx.run s) fun _ _ _ hes => K.trans hh hes

/-- Commands put together from the primitive ones of `P`. -/
inductive Built (P : (α : Type) → Cmd I O S E α → Prop) : (α : Type) → Cmd I O S E α → Prop where
  | prim (α : Type) (x : Cmd I O S E α) (h : P α x) : Built P α x
  | pure (α : Type) (a : α) : Built P α (Pure.pure a)
  | throw (α : Type) (e : E) : Built P α (Cmd.throw e)
  | get : Built P S Cmd.get
  | bind (α β : Type) (x : Cmd I O S E α) (f : α → Cmd I O S E β) (hx : Built P α x)
      (hf : ∀ a, Built P β (f a)) : Built P β (x >>= f)
  | attempt (α : Type) (x : Cmd I O S E α) (hx : Built P α x) : Built P (Except E α) x.attempt

/-- A contract kept by the primitive commands is kept by all that is built from them. -/
theorem Built.keeps {P : (α : Type) → Cmd I O S E α → Prop} {K : Contract I O S}
    (hp : ∀ α (x : Cmd I O S E α), P α x → Keeps K x) {x : Cmd I O S E α}
    (h : Built P α x) : Keeps K x := by
  induction h with
  | prim α x h => exact hp α x h
  | pure α a => exact Keeps.pure a
  | throw α e => exact Keeps.throw e
  | get => exact Keeps.get
  | bind α β x f _ _ ihx ihf => exact Keeps.bind ihx ihf
  | attempt α x _ ih => exact Keeps.attempt ih

/-- A command together with the proof that it is built from the primitives of `P`. -/
structure Program (P : (α : Type) → Cmd I O S E α → Prop) (α : Type) where
  cmd : Cmd I O S E α
  built : Built P α cmd

namespace Program
variable {P : (α : Type) → Cmd I O S E α → Prop}

instance : Monad (Program P) where
  pure a := ⟨Pure.pure a, .pure _ a⟩
  bind x f := ⟨x.cmd >>= fun a => (f a).cmd, .bind _ _ _ _ x.built fun a => (f a).built⟩

def throw (e : E) : Program P α := ⟨Cmd.throw e, .throw _ e⟩
def get : Program P S := ⟨Cmd.get, .get⟩
def attempt (x : Program P α) : Program P (Except E α) := ⟨x.cmd.attempt, .attempt _ _ x.built⟩
def prim (x : Cmd I O S E α) (h : P α x) : Program P α := ⟨x, .prim _ x h⟩

@[simp] theorem cmd_pure (a : α) : (Pure.pure a : Program P α).cmd = Pure.pure a := rfl
@[simp] theorem cmd_bind (x : Program P α) (f : α → Program P β) :
    (x >>= f).cmd = x.cmd >>= fun a => (f a).cmd := rfl
@[simp] theorem cmd_throw (e : E) : (throw e : Program P α).cmd = Cmd.throw e := rfl
@[simp] theorem cmd_get : (get : Program P S).cmd = Cmd.get := rfl
@[simp] theorem cmd_attempt (x : Program P α) : x.attempt.cmd = x.cmd.attempt := rfl
@[simp] theorem cmd_prim (x : Cmd I O S E α) (h : P α x) : (prim x h).cmd = x := rfl
@[simp] theorem cmd_ite {c : Prop} [Decidable c] (x y : Program P α) :
    (if c then x else y).cmd = if c then x.cmd else y.cmd := by split <;> rfl

theorem keeps {K : Contract I O S} (hp : ∀ α (x : Cmd I O S E α), P α x → Keeps K x)
    (x : Program P α) : Keeps K x.cmd := x.built.keeps hp

end Program

end Dialogue
