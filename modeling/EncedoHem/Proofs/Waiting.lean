import EncedoHem.Lib.Checked
import EncedoHem.Proofs.Steps
import EncedoHem.Scripted
import Mathlib.Algebra.Order.Floor.Div
import Mathlib.Algebra.BigOperators.Group.List.Basic

namespace EncedoHem
open Text Dialogue

/-- How long an exchange asks to sleep. -/
def Event.slept : Event → Int
  | ⟨.sleep ms, _⟩ => ms
  | _ => 0

def slept (es : List Event) : Int := (es.map Event.slept).sum

@[simp] theorem slept_nil : slept [] = 0 := rfl

@[simp] theorem slept_cons (e : Event) (es : List Event) : slept (e :: es) = e.slept + slept es := by
  simp [slept]

@[simp] theorem slept_append (es es' : List Event) : slept (es ++ es') = slept es + slept es' := by
  simp [slept]

/-- A command that never sleeps. -/
abbrev Awake {α : Type} (x : Cmd α) : Prop := Keeps (Emits fun e : Event => e.slept = 0) x

namespace Awake
variable {α : Type} {cfg : Config}

theorem setError (d : Ctx → ErrorDetail) : Awake (modifyCtx fun s => s.setError (d s)) :=
  .modify fun _ => emits_nil

theorem alloc : Awake alloc := .ask fun _ _ => emits_single rfl

theorem ctxFail (rc : Rc) (status : Int) (payload : Option Bytes) (fmt : List Piece) :
    Awake (ctxFail rc status payload fmt : Cmd α) := by
  apply Keeps.bind _ fun _ => Keeps.throw rc
  apply Keeps.bind (setError _)
  intro u
  cases payload with
  | none => exact .pure _
  | some p => exact .bind alloc fun _ => .ite (fun _ => setError _) fun _ => .pure _

theorem need : Awake need := .bind alloc fun _ => .ite (fun _ => .pure _) fun _ => ctxFail ..

theorem notifySend (method : Method) (url : Option Bytes) (subpath : Bytes) (body : Option Bytes) :
    Awake (notifySend cfg method url subpath body) := by
  apply Keeps.ite
  · intro h
    exact ctxFail ..
  intro h
  apply Keeps.ite
  · intro h
    exact ctxFail ..
  intro h
  apply Keeps.bind need
  intro u
  apply Keeps.bind (.ask fun _ _ => emits_single rfl)
  intro a
  cases a with
  | failed why expired detail => exact ctxFail ..
  | done r => exact .ite (fun _ => ctxFail ..) fun _ => .pure _

theorem parseOptional (body : Option Bytes) : Awake (parseOptional body) := by
  cases body with
  | none => exact .pure _
  | some b => exact .bind alloc fun _ => .pure _

theorem notifyPoll (what stem id : Bytes) (url : Option Bytes) (tooLong : Piece) :
    Awake (notifyPoll cfg what stem id url tooLong) := by
  unfold EncedoHem.notifyPoll
  cases pollPath stem id with
  | none => exact ctxFail ..
  | some subpath =>
    apply Keeps.bind (notifySend ..)
    intro ⟨status, body⟩
    apply Keeps.bind need
    intro u
    apply Keeps.ite (fun _ => .pure _)
    intro h
    apply Keeps.bind (parseOptional body)
    intro root
    cases root.filter (·.isObject) with
    | none => exact ctxFail ..
    | some root => exact .pure _

/-- A look at the broker does not sleep: only the device's dispatches are paced. -/
theorem confirmCheck (c : Confirm) : Awake (confirmCheck cfg c) := by
  unfold EncedoHem.confirmCheck notifyEventCheck
  cases c.eventid with
  | none => exact .throw _
  | some id =>
    apply Keeps.bind (setError _)
    intro u
    apply Keeps.bind (notifyPoll ..)
    intro polled
    cases polled with
    | pending => exact .pure _
    | ready v =>
      apply Keeps.ite (fun _ => .pure _)
      intro h
      cases v.2.2.getString (lit "authreply") with
      | none => exact ctxFail ..
      | some reply => exact .bind need fun _ => .pure _

end Awake

/-- A poll hands its outcome back as a value, whatever it is. -/
theorem poll_returns (cfg : Config) (c : Confirm) : Throws (confirmPoll cfg c) fun _ => False := by
  apply Throws.ite
  · intro h
    exact .bind (.attempt _) fun _ => .pure _
  intro h
  apply Throws.bind (.attempt _)
  intro polled
  cases polled with
  | error rc => exact .pure _
  | ok p =>
    cases p with
    | pending => exact .pure _
    | ready v =>
      cases v with
      | denied => exact .bind (.attempt _) fun _ => .pure _
      | approved reply => exact .bind (.attempt _) fun _ => .pure _

theorem yields_redeem (cfg : Config) (scope reply : Bytes) :
    Yields (confirmRedeem cfg scope reply) (· = .approved) :=
  .bind fun _ => .bind fun _ => .bind fun _ => .pure rfl

/-- A poll that finds its event pending has not slept. -/
theorem wp_pendingPoll (cfg : Config) (c : Confirm) (s : Ctx) :
    wp (confirmPoll cfg c) (fun es r _ => ∀ c', r = .ok (.ok .pending, c') → slept es = 0) s := by
  unfold confirmPoll
  rw [wp_ite]
  split
  · simp only [wp_bind, wp_attempt, wp_ctxFail, wp_pure, recordEvents]
    intro copied c' h
    simp at h
  rw [wp_bind, wp_attempt]
  refine wp_mono ((Awake.confirmCheck c).run s) fun es polled s₁ h => ?_
  have hes : slept es = 0 := by
    apply List.sum_eq_zero
    intro ms hms
    obtain ⟨e, he, rfl⟩ := List.mem_map.mp hms
    exact h e he
  cases polled with
  | error rc => simp [hes]
  | ok p =>
    cases p with
    | pending => simp [hes]
    | ready v =>
      cases v with
      | denied => simp [recordEvents]
      | approved reply =>
        refine wp_bind.mpr (wp_attempt.mpr (wp_mono ((yields_redeem cfg c.scope reply).run s₁) ?_))
        intro es' r s₂ h
        dsimp only
        rw [wp_pure]
        intro c' hr
        obtain ⟨hr, -⟩ := Prod.mk.inj (Except.ok.inj hr)
        exact absurd (h _ hr) (by simp)

/-- One poll of a wait. -/
structure PollRun where
  events : List Event
  outcome : Except Rc ConfirmStatus

/-- Polls of a handle, each on the handle and in the state that the one before left. -/
inductive PollChain (cfg : Config) : Confirm → Ctx → List PollRun → Confirm → Ctx → Prop where
  | nil (c : Confirm) (s : Ctx) : PollChain cfg c s [] c s
  | cons (p : PollRun) (ps : List PollRun) {c c₁ c' : Confirm} {s s₁ s' : Ctx}
      (poll : Runs (confirmPoll cfg c) s p.events (.ok (p.outcome, c₁)) s₁)
      (rest : PollChain cfg c₁ s₁ ps c' s') : PollChain cfg c s (p :: ps) c' s'

/-- The sleep that a wait of `timeoutMs` has behind it at its poll `k`. -/
def elapsedAt (interval : Nat) (timeoutMs : Int) (k : Nat) : Int := min (k * interval : Nat) timeoutMs

/-- The sleep after the poll `k`. -/
def stepAt (interval : Nat) (timeoutMs : Int) (k : Nat) : Int :=
  min (interval : Int) (timeoutMs - elapsedAt interval timeoutMs k)

/-- The exchanges of a wait from its poll `k` on: the polls with the sleeps between them. -/
def waitTrace (interval : Nat) (timeoutMs : Int) : Nat → List PollRun → List Event
  | _, [] => []
  | _, [p] => p.events
  | k, p :: q :: ps =>
    p.events ++ ⟨.sleep (stepAt interval timeoutMs k), ()⟩ :: waitTrace interval timeoutMs (k + 1) (q :: ps)

/-- What ends a wait from its poll `k` on, when poll `last` finds the time up: the first poll
that is not pending, with what it came to, or the poll at the timeout. -/
def WaitEnds (last k : Nat) (polls : List PollRun) (v : Except Rc Unit) (s₁ s' : Ctx) : Prop :=
  ∃ before p, polls = before ++ [p] ∧ (∀ q ∈ before, q.outcome = .ok .pending) ∧ k + before.length ≤ last ∧
    match p.outcome with
    | .ok .pending => v = .error .confirmTimeout ∧ k + before.length = last
    | .ok .approved => v = .ok () ∧ s' = s₁
    | .error rc => v = .error rc ∧ s' = s₁

section
variable {interval : Nat} {timeoutMs : Int}

theorem elapsedAt_lt (hi : 0 < interval) (ht : 0 < timeoutMs) (k : Nat) :
    elapsedAt interval timeoutMs k < timeoutMs ↔ k < timeoutMs.toNat ⌈/⌉ interval := by
  have hle := ceilDiv_le_iff_le_mul (b := timeoutMs.toNat) (c := k) hi
  rw [Nat.mul_comm] at hle
  unfold elapsedAt
  omega

theorem elapsedAt_next (k : Nat) : elapsedAt interval timeoutMs (k + 1) =
    elapsedAt interval timeoutMs k + stepAt interval timeoutMs k := by
  have hmul : (k + 1) * interval = k * interval + interval := Nat.succ_mul k interval
  unfold stepAt elapsedAt
  rw [hmul]
  omega

/-- Each step is long enough to move on and no longer than the time that is left. -/
theorem stepAt_bounds (hi : 0 < interval) {k : Nat} (h : elapsedAt interval timeoutMs k < timeoutMs) :
    0 < stepAt interval timeoutMs k ∧
      stepAt interval timeoutMs k ≤ timeoutMs - elapsedAt interval timeoutMs k := by
  unfold stepAt
  omega

theorem elapsedAt_bounds (interval : Nat) (ht : 0 < timeoutMs) (k : Nat) :
    0 ≤ elapsedAt interval timeoutMs k ∧ elapsedAt interval timeoutMs k ≤ timeoutMs := by
  unfold elapsedAt
  omega

theorem waitTrace_cons (k : Nat) (p : PollRun) {ps : List PollRun} (h : ps ≠ []) :
    waitTrace interval timeoutMs k (p :: ps) = p.events ++
      ⟨.sleep (stepAt interval timeoutMs k), ()⟩ :: waitTrace interval timeoutMs (k + 1) ps := by
  cases ps with
  | nil => exact absurd rfl h
  | cons q ps => rfl

/-- The polls before one of a wait sleep nothing themselves, so that the sleep before it is
what the wait has behind it. -/
theorem slept_waitTrace (interval : Nat) (timeoutMs : Int) {before : List PollRun} (hq : ∀ q ∈ before, slept q.events = 0) (k : Nat)
    (p : PollRun) (after : List PollRun) :
    ∃ pre post, waitTrace interval timeoutMs k (before ++ p :: after) = pre ++ p.events ++ post ∧
      (after = [] → post = []) ∧
      elapsedAt interval timeoutMs k + slept pre = elapsedAt interval timeoutMs (k + before.length) := by
  induction before generalizing k with
  | nil =>
    cases after with
    | nil => exact ⟨[], [], by simp [waitTrace]⟩
    | cons q ps => exact ⟨[], _, by rw [List.nil_append, waitTrace, List.nil_append], by simp, by simp⟩
  | cons q before ih =>
    obtain ⟨pre, post, htrace, hpost, hslept⟩ := ih (fun d hd => hq d (List.mem_cons_of_mem q hd)) (k + 1)
    have hzero := hq q List.mem_cons_self
    have hstep : elapsedAt interval timeoutMs (k + 1) = _ := elapsedAt_next k
    have hlen : k + 1 + before.length = k + (q :: before).length := by
      simp only [List.length_cons]
      omega
    rw [hlen, hstep] at hslept
    refine ⟨q.events ++ ⟨.sleep (stepAt interval timeoutMs k), ()⟩ :: pre, post, ?_, hpost, ?_⟩
    · rw [List.cons_append, waitTrace_cons k q (by simp), htrace]
      simp
    · simp only [slept_append, slept_cons, hzero, Event.slept]
      omega

end

namespace WaitEnds
variable {last k : Nat} {v : Except Rc Unit} {s₁ s' : Ctx}

theorem at_once {p : PollRun} (hk : k ≤ last) (h : match p.outcome with
    | .ok .pending => v = .error .confirmTimeout ∧ k = last
    | .ok .approved => v = .ok () ∧ s' = s₁
    | .error rc => v = .error rc ∧ s' = s₁) : WaitEnds last k [p] v s₁ s' :=
  ⟨[], p, rfl, by simp, hk, h⟩

/-- A pending poll leaves it to the ones after it. -/
theorem later {polls : List PollRun} (h : WaitEnds last (k + 1) polls v s₁ s') (es : List Event) :
    WaitEnds last k (⟨es, .ok .pending⟩ :: polls) v s₁ s' := by
  obtain ⟨before, p, rfl, hq, hlen, hend⟩ := h
  have hcount : k + 1 + before.length = k + (before.length + 1) := by omega
  rw [hcount] at hlen hend
  refine ⟨⟨es, .ok .pending⟩ :: before, p, rfl, ?_, hlen, hend⟩
  intro q hm
  rcases List.mem_cons.mp hm with rfl | hm
  · rfl
  · exact hq q hm

theorem ne_nil {polls : List PollRun} (h : WaitEnds last k polls v s₁ s') : polls ≠ [] := by
  obtain ⟨before, p, rfl, -⟩ := h
  simp

end WaitEnds

/-- The loop from its poll `k` on: induction on the rounds left, of which there are enough
for every poll up to the one at the timeout. -/
theorem wp_waitLoop (cfg : Config) {timeoutMs : Int} (ht : 0 < timeoutMs) (rounds k : Nat) (c : Confirm)
    (s : Ctx) (hk : k ≤ timeoutMs.toNat ⌈/⌉ cfg.pollIntervalMs)
    (hr : timeoutMs.toNat ⌈/⌉ cfg.pollIntervalMs < rounds + k) :
    wp (confirmWaitLoop cfg timeoutMs rounds (elapsedAt cfg.pollIntervalMs timeoutMs k) c)
      (fun es r s' => ∃ polls c' v s₁, r = .ok (v, c') ∧ PollChain cfg c s polls c' s₁ ∧
        es = waitTrace cfg.pollIntervalMs timeoutMs k polls ∧
        WaitEnds (timeoutMs.toNat ⌈/⌉ cfg.pollIntervalMs) k polls v s₁ s') s := by
  have hi := cfg.pollInterval_pos
  induction rounds generalizing k c s with
  | zero => omega
  | succ rounds ih =>
    unfold confirmWaitLoop
    rw [wp_bind]
    intro es r s₁ hrun
    cases r with
    | error rc => exact absurd rfl ((poll_returns cfg c).run s es (.error rc) s₁ hrun rc)
    | ok p =>
      obtain ⟨v, c₁⟩ := p
      have hone : PollChain cfg c s [⟨es, v⟩] c₁ s₁ := .cons ⟨es, v⟩ [] hrun (.nil c₁ s₁)
      dsimp only
      cases v with
      | error rc =>
        rw [wp_pure]
        exact ⟨_, c₁, .error rc, s₁, rfl, hone, by simp [waitTrace], .at_once hk ⟨rfl, rfl⟩⟩
      | ok status =>
        cases status with
        | approved =>
          rw [wp_pure]
          exact ⟨_, c₁, .ok (), s₁, rfl, hone, by simp [waitTrace], .at_once hk ⟨rfl, rfl⟩⟩
        | pending =>
          have hlt := elapsedAt_lt hi ht k
          dsimp only
          rw [wp_ite]
          split
          · rename_i hover
            simp only [wp_bind, wp_attempt, wp_ctxFail, wp_pure, recordEvents]
            intro copied
            exact ⟨_, c₁, .error .confirmTimeout, s₁, rfl, hone, by simp [waitTrace],
              .at_once hk ⟨rfl, by omega⟩⟩
          · rename_i hover
            have hstep : 0 < stepAt cfg.pollIntervalMs timeoutMs k := (stepAt_bounds hi (by omega)).1
            have hsleep : sleepMs (stepAt cfg.pollIntervalMs timeoutMs k) = sleep (stepAt ..) := if_neg (by omega)
            change wp (sleepMs (stepAt cfg.pollIntervalMs timeoutMs k) >>= fun _ =>
              confirmWaitLoop cfg timeoutMs rounds (elapsedAt .. + stepAt cfg.pollIntervalMs timeoutMs k) c₁) _ s₁
            rw [← elapsedAt_next, hsleep, wp_bind, wp_sleep]
            refine wp_mono (ih (k + 1) c₁ s₁ (by omega) (by omega)) ?_
            rintro es' r s' ⟨polls, c', v, s₂, rfl, hchain, rfl, hend⟩
            refine ⟨⟨es, .ok .pending⟩ :: polls, c', v, s₂, rfl, .cons _ _ hrun hchain, ?_, hend.later es⟩
            rw [waitTrace_cons k _ hend.ne_nil]
            rfl

theorem PollChain.pending_slept {cfg : Config} {c c' : Confirm} {s s' : Ctx} {polls : List PollRun}
    (h : PollChain cfg c s polls c' s') : ∀ q ∈ polls, q.outcome = .ok .pending → slept q.events = 0 := by
  induction h with
  | nil => simp
  | cons p ps poll rest ih =>
    intro q hm hq
    rcases List.mem_cons.mp hm with rfl | hm
    · rw [hq] at poll
      exact wp_pendingPoll cfg _ _ _ _ _ poll _ rfl
    · exact ih q hm hq

/-- How a wait goes, with `longMax` the largest value of the type it counts in. -/
structure Schedule (cfg : Config) (longMax timeoutMs : Int) (c : Confirm) (s : Ctx) (polls : List PollRun)
    (es : List Event) (v : Except Rc Unit) (c' : Confirm) (s' : Ctx) : Prop where
  /-- It polls the handle until the first poll that is not pending or the one at the timeout. -/
  polled : ∃ s₁, PollChain cfg c s polls c' s₁ ∧
    WaitEnds (timeoutMs.toNat ⌈/⌉ cfg.pollIntervalMs) 0 polls v s₁ s'
  /-- Before each poll it has slept the interval as often as it has polled, up to the timeout. -/
  placed : ∀ before p after, polls = before ++ p :: after → ∃ pre post, es = pre ++ p.events ++ post ∧
    slept pre = elapsedAt cfg.pollIntervalMs timeoutMs before.length
  /-- Without an answer it sleeps for the timeout. -/
  total : (∀ p ∈ polls, p.outcome = .ok .pending) → slept es = timeoutMs
  /-- Its arithmetic stays within the type. -/
  steps : ∀ k, k + 1 < polls.length →
    let elapsed := elapsedAt cfg.pollIntervalMs timeoutMs k
    let step := stepAt cfg.pollIntervalMs timeoutMs k
    Checked.sub longMax timeoutMs elapsed = some (timeoutMs - elapsed) ∧ 0 < step ∧
      step ≤ timeoutMs - elapsed ∧
      Checked.add longMax elapsed step = some (elapsedAt cfg.pollIntervalMs timeoutMs (k + 1))

theorem confirm_wait_schedule (cfg : Config) (c : Confirm) {timeoutMs longMax : Int} (ht : 0 < timeoutMs)
    (hmax : timeoutMs ≤ longMax) {s s' : Ctx} {es : List Event} {r : Except Rc (Except Rc Unit × Confirm)}
    (h : Runs (confirmWait cfg c timeoutMs) s es r s') :
    ∃ polls v c', r = .ok (v, c') ∧ Schedule cfg longMax timeoutMs c s polls es v c' s' := by
  have hi := cfg.pollInterval_pos
  have hrounds : timeoutMs.toNat ⌈/⌉ cfg.pollIntervalMs ≤ timeoutMs.toNat :=
    (ceilDiv_le_iff_le_mul hi).mpr (Nat.le_mul_of_pos_left _ hi)
  have hzero : elapsedAt cfg.pollIntervalMs timeoutMs 0 = 0 := by
    unfold elapsedAt
    omega
  have hloop := wp_waitLoop cfg ht (timeoutMs.toNat + 1) 0 c s (Nat.zero_le _) (by omega)
  unfold confirmWait at h
  rw [if_neg (by omega), ← hzero] at h
  obtain ⟨polls, c', v, s₁, rfl, hchain, rfl, hend⟩ := hloop es r s' h
  have hquiet := hchain.pending_slept
  obtain ⟨before, p, rfl, hq, hlen, hlast⟩ := id hend
  refine ⟨before ++ [p], v, c', rfl, ⟨s₁, hchain, hend⟩, ?_, ?_, ?_⟩
  · intro early q after hsplit
    have hearly : ∀ d ∈ early, slept d.events = 0 := by
      intro d hd
      have hm : d ∈ (before ++ [p]).dropLast := by
        rw [hsplit, List.dropLast_append_of_ne_nil (by simp)]
        exact List.mem_append.mpr (.inl hd)
      rw [List.dropLast_concat] at hm
      exact hquiet d (List.mem_append.mpr (.inl hm)) (hq d hm)
    obtain ⟨pre, post, htrace, -, hslept⟩ := slept_waitTrace cfg.pollIntervalMs timeoutMs
      hearly 0 q after
    refine ⟨pre, post, by rw [hsplit, htrace], ?_⟩
    rw [hzero, Nat.zero_add] at hslept
    omega
  · intro hall
    have hp := hall p (by simp)
    rw [hp] at hlast
    obtain ⟨pre, post, htrace, hpost, hslept⟩ := slept_waitTrace cfg.pollIntervalMs timeoutMs
      (fun d hd => hquiet d (by simp [hd]) (hq d hd)) 0 p []
    have hover := elapsedAt_lt hi ht (0 + before.length)
    have hbound := elapsedAt_bounds cfg.pollIntervalMs ht (0 + before.length)
    rw [htrace, hpost rfl]
    simp only [slept_append, slept_nil, hquiet p (by simp) hp]
    omega
  · intro k hk
    have hklt := (elapsedAt_lt hi ht k).mpr (by simp only [List.length_append, List.length_singleton] at hk; omega)
    have hbound := elapsedAt_bounds cfg.pollIntervalMs ht k
    have hnext := elapsedAt_bounds cfg.pollIntervalMs ht (k + 1)
    obtain ⟨hpos, hle⟩ := stepAt_bounds hi hklt
    refine ⟨Checked.sub_of_fits (Checked.fits_of_nonneg (by omega) (by omega)), hpos, hle, ?_⟩
    rw [elapsedAt_next]
    rw [elapsedAt_next] at hnext
    exact Checked.add_of_fits (Checked.fits_of_nonneg hnext.1 (by omega))

/-- The wait for a user who never answers. -/
def patientWait : Cmd (Except Rc Unit × Confirm) :=
  confirmWait .standard ⟨none, lit "s", some (lit "e"), false⟩ 12000

theorem unanswered_wait_schedule : ∃ polls c', Schedule .standard (2 ^ 63 - 1) 12000
    ⟨none, lit "s", some (lit "e"), false⟩ Ctx.initial polls
    (scriptEvents patientWait Ctx.initial 5 (List.replicate 4 (.status 202))) (.error .confirmTimeout) c'
    (scriptState patientWait Ctx.initial 5 (List.replicate 4 (.status 202))) := by
  have hrun := script_runs patientWait Ctx.initial 5 (List.replicate 4 (.status 202))
  have hresult : scriptResult patientWait Ctx.initial 5 (List.replicate 4 (.status 202)) =
      .ok (.error .confirmTimeout, ⟨none, lit "s", some (lit "e"), false⟩) := by decide +kernel
  obtain ⟨polls, v, c', hr, hs⟩ := confirm_wait_schedule .standard _ (by decide)
    (show (12000 : Int) ≤ 2 ^ 63 - 1 by decide) hrun
  rw [hresult] at hr
  obtain ⟨rfl, rfl⟩ := Prod.mk.inj (Except.ok.inj hr)
  exact ⟨polls, _, hs⟩

end EncedoHem
