import EncedoHem.Proofs.SessionState

namespace EncedoHem
open Text Dialogue

/-- The session as a call can tell it: no state is like an empty one, and the user name
is for debugging only. -/
def Ctx.session (s : Ctx) : Auth := { s.auth.getD .fresh with username := none }

/-- The cached bearers of all scopes but one. -/
def Ctx.others (s : Ctx) (scope : Bytes) : List TokenEntry := s.session.cache.filter (·.scope ≠ scope)

theorem session_congr {s s' : Ctx} (h : s'.auth = s.auth) : s'.session = s.session := by
  unfold Ctx.session
  rw [h]

theorem session_fresh {s : Ctx} (h : s.auth = none) : (s.setAuth (some .fresh)).session = s.session := by
  unfold Ctx.session
  rw [h]
  rfl

/-- A change of the session state, seen from the session. -/
theorem session_modify {s : Ctx} {f : Auth → Auth} (h : ∀ a, { f a with username := none } =
    { a with username := none }) : (s.setAuth (s.auth.map f)).session = s.session := by
  unfold Ctx.session
  cases ha : s.auth with
  | none => simp [Ctx.setAuth]
  | some a => exact h a

/-- Only the bearer of one scope may change. -/
def framed (scope : Bytes) : Contract Op Ans Ctx where
  rel s _ s' := s'.others scope = s.others scope
  refl _ := rfl
  trans h h' := h'.trans h

/-- Nothing of the session may change. -/
def sameSession : Contract Op Ans Ctx where
  rel s _ s' := s'.session = s.session
  refl _ := rfl
  trans h h' := h'.trans h

theorem filter_put (a : Auth) (scope token : Bytes) (exp : Int) :
    (a.put scope token exp).cache.filter (·.scope ≠ scope) = a.cache.filter (·.scope ≠ scope) := by
  unfold Auth.put
  split
  · show (a.cache.map _).filter _ = _
    induction a.cache with
    | nil => rfl
    | cons e es ih =>
      rw [List.map_cons]
      by_cases he : e.scope = scope
      · rw [if_pos he, List.filter_cons_of_neg (by simp), List.filter_cons_of_neg (by simpa using he)]
        exact ih
      · rw [if_neg he, List.filter_cons_of_pos (by simpa using he),
          List.filter_cons_of_pos (by simpa using he), ih]
  · exact List.filter_cons_of_neg (by simp)

namespace Framed
variable {scope : Bytes} {cfg : Config}

theorem authOnly : AuthOnly (framed scope) where
  event _ _ := rfl
  still s s' h _ _ := by
    show s'.others scope = s.others scope
    unfold Ctx.others
    rw [session_congr h]

theorem modifyAuth {f : Auth → Auth}
    (h : ∀ a, (f a).cache.filter (·.scope ≠ scope) = a.cache.filter (·.scope ≠ scope)) :
    Keeps (framed scope) (modifyAuth f) := by
  refine .modify fun s => ?_
  show List.filter _ (s.setAuth (s.auth.map f)).session.cache = _
  unfold Ctx.others Ctx.session
  cases ha : s.auth with
  | none => simp [Ctx.setAuth]
  | some a => exact h a

theorem engine : Engine cfg (· = scope) (framed scope) := by
  refine authOnly.engine (fun _ => modifyAuth fun _ => rfl) ?_ ?_ ?_
  · rintro sc token exp rfl
    refine ⟨fun s => wp_cachePut (fun _ _ => rfl) fun _ _ => ?_⟩
    have h := modifyAuth (fun a => filter_put a sc token exp)
    exact wp_modifyCtx.mp (h.run s)
  · exact fun _ _ => modifyAuth fun a => by unfold Auth.afterUse; split <;> rfl
  · intro sc _
    refine ⟨fun s => wp_needAuth (fun _ _ => rfl) (fun _ hn _ => ?_) fun _ _ _ _ => rfl⟩
    exact congrArg (fun a : Auth => a.cache.filter (·.scope ≠ scope)) (session_fresh hn)

end Framed

namespace SameSession
variable {cfg : Config}

theorem authOnly : AuthOnly sameSession where
  event _ _ := rfl
  still _ _ h _ _ := session_congr h

/-- Everything of the token engine up to the write of a bearer. -/
theorem engine (cfg : Config) : Engine cfg (fun _ => False) sameSession :=
  authOnly.engine (fun _ => .modify fun _ => session_modify fun _ => rfl)
    (fun _ _ _ h => h.elim) (fun _ h => h.elim) fun _ h => h.elim

theorem needAuth : Keeps sameSession needAuth :=
  ⟨fun _ => wp_needAuth (fun _ _ => rfl) (fun _ hn _ => session_fresh hn) fun _ _ _ _ => rfl⟩

end SameSession

/-- The session is as before when the command fails, or ends in a value that counts as
a failure. -/
structure Atomic {α : Type} (failed : α → Prop) (x : Cmd α) : Prop where
  run : ∀ s, wp x (fun _ r s' => (∀ rc, r = .error rc → s'.session = s.session) ∧
    ∀ a, r = .ok a → failed a → s'.session = s.session) s

/-- The command ends in a value that does not count as a failure. -/
structure Succeeds {α : Type} (failed : α → Prop) (x : Cmd α) : Prop where
  run : ∀ s, wp x (fun _ r _ => ∃ a, r = .ok a ∧ ¬failed a) s

/-- An outcome that is handed back as a value and is none. -/
def Failed {β : Type} (r : Except Rc β) : Prop := ∃ rc, r = .error rc

theorem Succeeds.pure {α : Type} {failed : α → Prop} {a : α} (h : ¬failed a) :
    Succeeds failed (Pure.pure a : Cmd α) := ⟨fun _ => wp_pure.mpr ⟨a, rfl, h⟩⟩

theorem Succeeds.bind {α β : Type} {p : α → Prop} {q : β → Prop} {x : Cmd α} {f : α → Cmd β}
    (hx : Succeeds p x) (hf : ∀ a, ¬p a → Succeeds q (f a)) : Succeeds q (x >>= f) := by
  refine ⟨fun s => wp_bind_of (hx.run s) ?_ ?_⟩
  · rintro es a s' ⟨b, hb, hn⟩
    exact (hf a (Except.ok.inj hb ▸ hn)).run s'
  · rintro es rc s' ⟨b, hb, -⟩
    exact nomatch hb

namespace Atomic
variable {α β : Type} {failed : α → Prop} {failed' : β → Prop} {x : Cmd α} {f : α → Cmd β}

theorem ofKeeps (h : Keeps sameSession x) : Atomic failed x :=
  ⟨fun s => wp_mono (h.run s) fun _ _ _ hs => ⟨fun _ _ => hs, fun _ _ _ => hs⟩⟩

theorem bind_keeps (hx : Keeps sameSession x) (hf : ∀ a, Atomic failed' (f a)) :
    Atomic failed' (x >>= f) := by
  refine ⟨fun s => wp_bind_of (hx.run s) ?_ fun es rc s' h => ⟨fun _ _ => h, (fun _ hb => nomatch hb)⟩⟩
  intro es a s' h
  exact wp_mono ((hf a).run s') fun _ r _ h' =>
    ⟨fun rc hr => (h'.1 rc hr).trans h, fun b hb hn => (h'.2 b hb hn).trans h⟩

/-- After a write nothing may fail any more; before it anything may. -/
theorem bind (hx : Atomic failed x) (hfail : ∀ a, failed a → Atomic failed' (f a))
    (hgood : ∀ a, ¬failed a → Succeeds failed' (f a)) : Atomic failed' (x >>= f) := by
  refine ⟨fun s => wp_bind_of (hx.run s) ?_ ?_⟩
  · intro es a s' h
    by_cases ha : failed a
    · have hs := h.2 a rfl ha
      exact wp_mono ((hfail a ha).run s') fun _ r _ h' =>
        ⟨fun rc hr => (h'.1 rc hr).trans hs, fun b hb hn => (h'.2 b hb hn).trans hs⟩
    · refine wp_mono ((hgood a ha).run s') fun _ r _ h' => ?_
      obtain ⟨b, rfl, hb⟩ := h'
      exact ⟨(fun _ hr => nomatch hr), fun c hc hn => absurd (Except.ok.inj hc ▸ hn) hb⟩
  · intro es rc s' h
    exact ⟨fun rc' _ => h.1 rc rfl, (fun _ hb => nomatch hb)⟩

theorem attempt (hx : Atomic (fun _ => False) x) : Atomic Failed x.attempt := by
  refine ⟨fun s => wp_attempt.mpr (wp_mono (hx.run s) fun _ r _ h => ⟨(fun _ hr => nomatch hr), ?_⟩)⟩
  rintro b hb ⟨rc, rfl⟩
  exact h.1 rc (Except.ok.inj hb)

end Atomic

theorem Succeeds.liftRc {α : Type} {r : Except Rc α} (h : ¬Failed r) :
    Succeeds (fun _ => False) (liftRc r) := by
  cases r with
  | ok a => exact .pure id
  | error rc => exact absurd ⟨rc, rfl⟩ h

theorem succeeds_modifyCtx (f : Ctx → Ctx) : Succeeds (fun _ => False) (modifyCtx f) :=
  ⟨fun _ => wp_modifyCtx.mpr ⟨(), rfl, id⟩⟩

theorem succeeds_mark (m : Mark) : Succeeds (fun _ => False) (mark m) :=
  ⟨fun _ => wp_mark.mpr ⟨(), rfl, id⟩⟩

namespace Atomic
variable {cfg : Config} {scope : Bytes}

theorem cachePut (scope token : Bytes) (exp : Int) :
    Atomic (· = false) (cachePut scope token exp) := by
  refine ⟨fun s => wp_cachePut (fun _ _ => ⟨(fun _ hr => nomatch hr), fun _ _ _ => rfl⟩) fun _ _ => ?_⟩
  exact ⟨(fun _ hr => nomatch hr), fun b hb hf => nomatch hb.trans (congrArg Except.ok hf)⟩

theorem redeemEjwt (ejwt : Bytes) (now : Int) :
    Atomic (fun _ => False) (redeemEjwt cfg scope ejwt now) := by
  have he := SameSession.engine cfg
  refine .bind_keeps he.need fun _ => .bind_keeps (SameSession.authOnly.requestPlainJson) fun result => ?_
  split
  · exact .ofKeeps (he.ctxFail ..)
  · refine .bind_keeps (he.peekClaim ..) fun exp => .bind (cachePut ..) ?_ ?_
    · rintro put rfl
      exact .ofKeeps he.outOfMemory
    · intro put hput
      have hput : put = true := by simpa using hput
      subst hput
      exact .bind (succeeds_modifyCtx _) fun _ _ => .pure id

theorem answerChallenge (now : Int) (challenge : Json) :
    Atomic (fun _ => False) (answerChallenge cfg scope now challenge) := by
  have he := SameSession.engine cfg
  unfold EncedoHem.answerChallenge
  split
  · refine .bind_keeps (he.toMachinery.toNeutral.noteUsername he.username _) fun _ => ?_
    split
    · exact .ofKeeps (he.ctxFail ..)
    · refine .bind_keeps (.attempt (he.deriveEjwt ..)) fun ejwt => ?_
      split
      · exact .ofKeeps (he.ctxFail ..)
      · exact redeemEjwt ..
  · exact .ofKeeps (he.ctxFail ..)

theorem acquireToken (now : Int) (spent : Bool) :
    Atomic (fun a => Failed a.outcome) (acquireToken cfg scope now spent) := by
  have he := SameSession.engine cfg
  refine .bind_keeps (he.ask rfl) fun init => ?_
  split
  · exact .ofKeeps (.bind (.attempt (he.ctxFail ..)) fun _ => .pure _)
  · refine .bind_keeps (he.loggingIn.fetchChallenge spent) fun ⟨r, spent⟩ => ?_
    dsimp only
    split
    · exact .ofKeeps (.pure _)
    · refine .bind (.attempt (answerChallenge ..)) (fun r _ => .ofKeeps (.pure _)) fun r hr => .pure hr

/-- The recovery of a failed run of the flow. -/
theorem recoverDrift (a : Acquired) : Atomic Failed (recoverDrift cfg scope a) := by
  have he := SameSession.engine cfg
  refine .bind_keeps .get fun s => ?_
  split
  · split
    · refine .bind_keeps (.attempt (he.checkin _)) fun crc => ?_
      split
      · refine .bind_keeps (he.askClock rfl) fun now => .bind (acquireToken ..) ?_ ?_
        · exact fun again _ => .ofKeeps (.pure _)
        · exact fun again hg => .pure hg
      · exact .ofKeeps (.bind .get fun s => .attempt (he.ctxFail ..))
    · exact .ofKeeps (.pure _)
  · exact .ofKeeps (.pure _)

/-- A good outcome needs no recovery. -/
theorem recoverDrift_good {a : Acquired} (h : ¬Failed a.outcome) :
    Succeeds Failed (EncedoHem.recoverDrift cfg scope a) := by
  refine .bind (p := fun _ => False) ⟨fun s => wp_getCtx.mpr ⟨s, rfl, id⟩⟩ fun s _ => ?_
  split
  · rename_i hf
    exact absurd ⟨_, hf⟩ h
  · exact .pure h

theorem acquirePassphrase (now : Int) :
    Atomic (fun _ => False) (acquirePassphrase cfg scope now) := by
  have he := SameSession.engine cfg
  have hrest : ∀ (failed : Bool) (r : Except Rc Bytes), ¬Failed r → Succeeds (fun _ => False) (do
      let token ← liftRc r
      breadcrumb failed
      mark (.granted scope token none)
      pure token : Cmd Bytes) := by
    intro failed r hr
    refine .bind (.liftRc hr) fun token _ => .bind (p := fun _ => False) ?_ fun _ _ => ?_
    · unfold breadcrumb
      split
      · exact succeeds_modifyCtx _
      · exact .pure id
    · exact .bind (succeeds_mark _) fun _ _ => .pure id
  have hdone : ∀ (failed : Bool) (r : Except Rc Bytes), Failed r → Atomic (fun _ => False) (do
      let token ← liftRc r
      breadcrumb failed
      mark (.granted scope token none)
      pure token : Cmd Bytes) := by
    intro failed r hr
    exact .ofKeeps (.bind (Neutral.liftRc _) fun _ => .bind (he.breadcrumb _) fun _ =>
      .bind (he.mark _) fun _ => .pure _)
  refine .bind_keeps (he.mark _) fun _ => .bind_keeps he.proactiveCheckin fun failed => ?_
  refine .bind (acquireToken ..) ?_ ?_
  · exact fun a _ => .bind (recoverDrift a) (fun r hr => hdone failed r hr) fun r hr => hrest failed r hr
  · exact fun a ha => .bind (recoverDrift_good ha) fun r hr => hrest failed r hr

theorem authCacheSeed (token : Bytes) : Atomic (fun _ => False) (authCacheSeed scope token) := by
  have he := SameSession.authOnly.timed
  refine .bind_keeps SameSession.needAuth fun _ => .bind_keeps (he.peekClaim ..) fun exp => ?_
  refine .bind_keeps (he.expiryOr exp) fun e => .bind (cachePut ..) ?_ ?_
  · rintro put rfl
    exact .ofKeeps he.outOfMemory
  · intro put hput
    have hput : put = true := by simpa using hput
    subst hput
    exact .pure id

/-- Only an approval may leave a bearer. -/
theorem confirmPoll (c : Confirm) : Atomic (fun p => p.1 ≠ .ok .approved) (confirmPoll cfg c) := by
  have he := SameSession.engine cfg
  unfold EncedoHem.confirmPoll
  split
  · exact .ofKeeps (.bind (.attempt (he.ctxFail ..)) fun _ => .pure _)
  · refine .bind_keeps (.attempt (he.confirmCheck c)) fun polled => ?_
    split
    · exact .ofKeeps (.pure _)
    · exact .ofKeeps (.pure _)
    · exact .ofKeeps (.bind (.attempt (he.ctxFail ..)) fun _ => .pure _)
    · have hredeem : ∀ authreply, Atomic (fun st => st ≠ .approved) (confirmRedeem cfg c.scope authreply) := by
        intro authreply
        refine .bind_keeps (he.mark _) fun _ => .bind_keeps (he.extToken _) fun token => ?_
        exact .bind (authCacheSeed token) (fun _ hf => False.elim hf) fun _ _ => .pure (by simp)
      refine ⟨fun s => ?_⟩
      rw [wp_bind, wp_attempt]
      refine wp_mono ((hredeem _).run s) fun es r s' h => ?_
      dsimp only
      rw [wp_pure]
      refine ⟨(fun _ hr => nomatch hr), fun p hp hn => ?_⟩
      have hp : (r, { c with terminal := true }) = p := Except.ok.inj hp
      rw [← hp] at hn
      cases r with
      | error rc => exact h.1 rc rfl
      | ok st => exact h.2 st rfl fun hs => hn (by rw [hs])

theorem confirmWaitLoop {timeoutMs : Int} (rounds : Nat) (elapsed : Int) (c : Confirm) :
    Atomic (fun p => Failed p.1) (confirmWaitLoop cfg timeoutMs rounds elapsed c) := by
  have he := SameSession.engine cfg
  induction rounds generalizing elapsed c with
  | zero => exact .ofKeeps (.pure _)
  | succ rounds ih =>
    refine .bind (confirmPoll c) ?_ ?_
    · rintro ⟨r, c'⟩ hn
      dsimp only
      split
      · exact .ofKeeps (.pure _)
      · exact absurd rfl hn
      · split
        · exact .ofKeeps (.bind (.attempt (he.ctxFail ..)) fun _ => .pure _)
        · exact .bind_keeps (he.sleepMs _) fun _ => ih ..
    · rintro ⟨r, c'⟩ hr
      have hr : r = .ok .approved := by simpa using hr
      subst hr
      exact .pure fun ⟨_, h⟩ => nomatch h

theorem confirmWait (c : Confirm) (timeoutMs : Int) :
    Atomic (fun p => Failed p.1) (confirmWait cfg c timeoutMs) := by
  unfold EncedoHem.confirmWait
  split
  · exact .ofKeeps (.pure _)
  · exact confirmWaitLoop ..

end Atomic

/-- The cache holds a bearer for the scope. -/
def Ctx.Holds (s : Ctx) (scope token : Bytes) : Prop :=
  ∃ e, s.auth.bind (·.cacheFind scope) = some e ∧ e.token = token

theorem find_put {s : Ctx} {a : Auth} (h : s.auth = some a) (scope token : Bytes) (exp : Int) :
    (s.put scope token exp).auth.bind (·.cacheFind scope) = some ⟨scope, token, exp⟩ := by
  unfold Ctx.put Ctx.setAuth
  rw [h]
  dsimp only [Option.map_some, Option.bind_some]
  unfold Auth.put
  cases hf : a.cacheFind scope with
  | none =>
    show List.find? _ (⟨scope, token, exp⟩ :: a.cache) = _
    rw [List.find?_cons_of_pos (by simp)]
  | some e =>
    show (a.cache.map _).find? _ = _
    obtain ⟨hscope, before, after, hsplit, hbefore⟩ := List.find?_eq_some_iff_append.mp hf
    have hscope : e.scope = scope := by simpa using hscope
    rw [hsplit, List.map_append, List.find?_append, List.map_cons, if_pos hscope]
    have hnone : (before.map fun d => if d.scope = scope then (⟨scope, token, exp⟩ : TokenEntry) else d).find?
        (·.scope = scope) = none := by
      refine List.find?_eq_none.mpr fun d hd => ?_
      obtain ⟨b, hb, rfl⟩ := List.mem_map.mp hd
      have hne : b.scope ≠ scope := by simpa using hbefore b hb
      rw [if_neg hne]
      simpa using hne
    rw [hnone, Option.none_or, List.find?_cons_of_pos (by simp)]

theorem holds_put {s : Ctx} {a : Auth} (h : s.auth = some a) (scope token : Bytes) (exp : Int) :
    (s.put scope token exp).Holds scope token := ⟨_, find_put h scope token exp, rfl⟩

/-- A bearer that was seeded is in the cache. -/
theorem lands_authCacheSeed (scope token : Bytes) :
    Lands (authCacheSeed scope token) fun _ s => s.Holds scope token := by
  have hauth : ∀ s : Ctx, (∃ a, s.auth = some a) → wp (do
      let exp ← decodeBearerExp token
      let realExp ← expiryOr exp
      let put ← cachePut scope token (realExp - tokenSkew)
      if put then pure () else outOfMemory)
      (fun _ r s' => ∀ u, r = .ok u → s'.Holds scope token) s := by
    rintro s ⟨a, ha⟩
    rw [wp_bind]
    refine wp_peekClaim_of fun es v _ _ => ?_
    dsimp only
    refine wp_bind_of (wp_expiryOr v s) ?_ fun _ _ _ _ _ hr => nomatch hr
    rintro es' e s₂ rfl
    rw [wp_bind]
    refine wp_cachePut (fun _ _ => ?_) fun _ _ => wp_pure.mpr fun _ _ => holds_put ha ..
    exact wp_ctxFail_of fun _ _ _ _ _ _ hr => nomatch hr
  refine .bind_of (W := fun _ s => ∃ a, s.auth = some a) ⟨fun s => ?_⟩ fun _ => hauth
  refine wp_needAuth (fun a ha _ _ => ⟨a, ha⟩) (fun _ _ _ _ _ => ⟨.fresh, rfl⟩) ?_
  exact fun _ _ _ _ _ hr => nomatch hr

/-- A redeemed reply leaves a bearer under the scope. -/
theorem lands_confirmRedeem {cfg : Config} (scope authreply : Bytes) :
    Lands (confirmRedeem cfg scope authreply) fun _ s => ∃ token, s.Holds scope token :=
  .bind fun _ => .bind fun token => .map (lands_authCacheSeed ..) fun _ _ h => ⟨token, h⟩

theorem lands_ctxFail {α : Type} {V : α → Ctx → Prop} (rc : Rc) (status : Int)
    (payload : Option Bytes) (fmt : List Piece) : Lands (ctxFail rc status payload fmt) V :=
  .bind fun _ => .throw rc

/-- An approval leaves a bearer under the handle's scope. -/
theorem lands_confirmPoll {cfg : Config} (c : Confirm) :
    Lands (confirmPoll cfg c) fun p s => p.1 = .ok .approved → ∃ token, s.Holds c.scope token := by
  have hfail : ∀ (rc : Rc) (status : Int) (payload : Option Bytes) (fmt : List Piece) (c' : Confirm),
      Lands (do
        let r ← (ctxFail (α := ConfirmStatus) rc status payload fmt).attempt
        pure (r, c')) fun p s => p.1 = .ok .approved → ∃ token, s.Holds c.scope token := by
    intro rc status payload fmt c'
    exact .map (W := fun r _ => ∀ a, r = .ok a → False) (.attempt (lands_ctxFail ..))
      fun r s h hr => (h _ hr).elim
  refine .ite (fun _ => hfail ..) fun _ => .bind fun polled => ?_
  split
  · exact .pure fun _ hr => nomatch hr
  · exact .pure fun _ hr => nomatch hr
  · exact hfail ..
  · exact .map (.attempt (lands_confirmRedeem ..)) fun r s h hr => h _ hr

/-- So does a wait that ends well: induction on the rounds left. -/
theorem lands_confirmWaitLoop {cfg : Config} {timeoutMs : Int} (rounds : Nat) (elapsed : Int) (c : Confirm) :
    Lands (confirmWaitLoop cfg timeoutMs rounds elapsed c) fun p s =>
      p.1 = .ok () → ∃ token, s.Holds c.scope token := by
  induction rounds generalizing elapsed c with
  | zero => exact .pure fun _ hr => nomatch hr
  | succ rounds ih =>
    refine .bind_of (.and_yields (lands_confirmPoll c) (Pushing.yields_confirmPoll c)) ?_
    rintro ⟨r, c'⟩ s ⟨hok, hscope, -, -⟩
    dsimp only at hok hscope ⊢
    split
    · exact wp_pure.mpr fun p hp hr => by rw [← Except.ok.inj hp] at hr; cases hr
    · exact wp_pure.mpr fun p hp _ => hok rfl
    · rw [← hscope]
      refine Lands.run (.ite (fun _ => ?_) fun _ => .bind fun _ => ih _ _) s
      exact .map (W := fun r _ => ∀ a, r = .ok a → False) (.attempt (lands_ctxFail ..))
        fun r s h hr => (h _ hr).elim

theorem lands_confirmWait {cfg : Config} (c : Confirm) (timeoutMs : Int) :
    Lands (confirmWait cfg c timeoutMs) fun p s => p.1 = .ok () → ∃ token, s.Holds c.scope token :=
  .ite (fun _ => .pure fun _ hr => nomatch hr) fun _ => lands_confirmWaitLoop ..

namespace Atomic
variable {cfg : Config} {scope : Bytes}

/-- A wait that ends well leaves the bearer that is looked for, so that only a wait
that does not end well fails. -/
theorem acquireMobile : Atomic (fun _ => False) (acquireMobile cfg scope) := by
  have he := SameSession.engine cfg
  refine .bind_keeps (he.mark _) fun _ => .bind_keeps he.proactiveCheckin fun failed => ?_
  refine ⟨fun s => wp_bind_of (wp_and ((he.confirmBegin none scope none none).run s)
    ((Confirming.yields_confirmBegin none scope none none).run s)) ?_ ?_⟩
  · rintro es c s₁ ⟨hsame, hscope⟩
    have hscope : c.scope = scope := hscope c rfl
    refine wp_bind_of (wp_and ((confirmWait c cfg.confirmTimeoutMs).run s₁)
      ((lands_confirmWait c cfg.confirmTimeoutMs).run s₁)) ?_ ?_
    · rintro es₁ ⟨r, c'⟩ s₂ ⟨hatom, hland⟩
      dsimp only at *
      cases r with
      | error rc =>
        refine wp_throwRc.mpr ⟨fun _ _ => ?_, (fun _ h => nomatch h)⟩
        exact (hatom.2 _ rfl ⟨rc, rfl⟩).trans hsame
      | ok u =>
        obtain ⟨token, e, hfind, -⟩ := hland _ rfl rfl
        rw [hscope] at hfind
        rw [wp_bind]
        refine wp_pure.mpr ?_
        dsimp only
        rw [wp_bind, wp_getCtx]
        dsimp only
        rw [hfind]
        have hrest : Succeeds (fun _ => False) (do
            mark (.granted scope e.token none)
            pure e.token) := .bind (succeeds_mark _) fun _ _ => .pure id
        refine wp_mono (hrest.run s₂) fun _ r _ h => ?_
        obtain ⟨b, rfl, -⟩ := h
        exact ⟨(fun _ h => nomatch h), fun _ _ h => h.elim⟩
    · rintro es₁ rc s₂ ⟨hatom, -⟩
      exact ⟨fun _ _ => (hatom.1 rc rfl).trans hsame, (fun _ h => nomatch h)⟩
  · rintro es rc s₁ ⟨hsame, -⟩
    exact ⟨fun _ _ => hsame, (fun _ h => nomatch h)⟩

theorem ensureToken : Atomic (fun _ => False) (ensureToken cfg scope) := by
  have he := SameSession.engine cfg
  refine .bind_keeps (he.askClock rfl) fun now => .bind_keeps .get fun s => ?_
  split
  · exact .ofKeeps (.bind (he.mark _) fun _ => .pure _)
  · split
    · split
      · exact acquireMobile
      · split
        · exact acquirePassphrase _
        · exact .ofKeeps (he.ctxFail ..)
    · exact .ofKeeps (he.ctxFail ..)

end Atomic

end EncedoHem
