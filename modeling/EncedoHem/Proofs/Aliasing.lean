import EncedoHem.Proofs.CheckinLegs
import EncedoHem.Scripted

namespace EncedoHem
open Text Dialogue

/-- A place that starts a recovery check-in and tells in its own message what became of it,
with the texts that this message has of its own. -/
inductive RecoverySite where
  | request (path detail : Bytes)
  | challenge
  | token
  | extLogin (path : Bytes)

namespace RecoverySite

/-- The text before the check-in's message. -/
def before : RecoverySite → Bytes
  | request path detail => path ++ lit ": " ++ detail.take 255 ++ lit " (automatic check-in recovery failed: "
  | challenge => authTokenPath ++ lit ": HTTP 403 (device RTC not set; automatic check-in failed: "
  | token => authTokenPath ++ lit ": HTTP 401 with device clock drift; recovery check-in failed: "
  | extLogin path => path ++ lit ": HTTP 403 (device RTC not set; automatic check-in failed: "

def after : RecoverySite → Bytes
  | token => []
  | _ => lit ")"

/-- The message that the place's format asks for, with the check-in's message `m` in it. -/
def intended (site : RecoverySite) (m : Bytes) : Bytes := (site.before ++ m ++ site.after).take 255

end RecoverySite

/-- A text read over and over again from its start. -/
def cyclic (text : Bytes) (n : Nat) : Bytes := (List.range n).map fun j => text.getD (j % text.length) 0

@[simp] theorem length_cyclic (text : Bytes) (n : Nat) : (cyclic text n).length = n := by
  simp [cyclic]

theorem cyclic_succ (text : Bytes) (n : Nat) :
    cyclic text (n + 1) = cyclic text n ++ [text.getD (n % text.length) 0] := by
  simp [cyclic, List.range_succ]

theorem getElem?_cyclic {text : Bytes} {n j : Nat} (h : j < n) :
    (cyclic text n)[j]? = some (text.getD (j % text.length) 0) := by
  simp [cyclic, h]

/-- The first time round it is the text itself. -/
theorem cyclic_self (text : Bytes) : cyclic text text.length = text := by
  apply List.ext_getElem?
  intro j
  by_cases h : j < text.length
  · rw [getElem?_cyclic h, Nat.mod_eq_of_lt h]
    simp [h]
  · rw [List.getElem?_eq_none (by simpa using h), List.getElem?_eq_none (by omega)]

theorem cyclic_prefix (text : Bytes) (n k : Nat) : (cyclic text (n + k)).take n = cyclic text n := by
  apply List.ext_getElem?
  intro j
  by_cases h : j < n
  · rw [List.getElem?_take_of_lt h, getElem?_cyclic h, getElem?_cyclic (by omega)]
  · rw [List.getElem?_eq_none (by simp; omega), List.getElem?_eq_none (by simp; omega)]

/-- Copying the text that is being written reads what it has written: the text comes again
and again. Induction on the bytes still to be written. -/
theorem copyOwn_cyclic (old : Bytes) {text : Bytes} (hpos : text ≠ []) (hz : ∀ b ∈ text, b ≠ 0)
    (fuel j : Nat) :
    copyOwn old fuel j (cyclic text (text.length + j)) = cyclic text (text.length + j + fuel) := by
  have hlen : 0 < text.length := List.length_pos_of_ne_nil hpos
  induction fuel generalizing j with
  | zero => rfl
  | succ fuel ih =>
    have hmod : j % text.length < text.length := Nat.mod_lt _ hlen
    have hread : (cyclic text (text.length + j)).getD j 0 = text.getD (j % text.length) 0 := by
      rw [List.getD_eq_getElem?_getD, getElem?_cyclic (by omega), Option.getD_some]
    have hne : text.getD (j % text.length) 0 ≠ 0 := by
      rw [List.getD_eq_getElem?_getD, List.getElem?_eq_getElem hmod, Option.getD_some]
      exact hz _ (List.getElem_mem hmod)
    have hnext : cyclic text (text.length + j) ++ [text.getD (j % text.length) 0] =
        cyclic text (text.length + (j + 1)) := by
      rw [← Nat.add_assoc, cyclic_succ, Nat.add_mod_left]
    have hroom : j < (cyclic text (text.length + j)).length := by
      simp only [length_cyclic]
      omega
    have hsum : text.length + (j + 1) + fuel = text.length + j + (fuel + 1) := by omega
    unfold copyOwn
    simp only [hroom, ↓reduceIte, hread, hne]
    rw [hnext, ih (j + 1), hsum]

/-- A format that goes on with its own buffer after a text writes that text over and over. -/
theorem vsnprintf_own (old q : Bytes) {p : Bytes} (hpos : p ≠ []) (hz : ∀ b ∈ p, b ≠ 0) :
    vsnprintf old [.text p, .ownMessage, .text q] [] = cyclic p 255 := by
  have hcopy := copyOwn_cyclic old hpos hz (errMsgRoom + 1 - p.length) 0
  simp only [Nat.add_zero, cyclic_self] at hcopy
  unfold vsnprintf vsnprintf vsnprintf vsnprintf
  rw [List.nil_append, hcopy]
  have hroom : ∃ k, p.length + (errMsgRoom + 1 - p.length) = 255 + k :=
    ⟨p.length + (errMsgRoom + 1 - p.length) - 255, by unfold errMsgRoom; omega⟩
  obtain ⟨k, hk⟩ := hroom
  rw [hk, List.take_append_of_le_length (by simp [errMsgRoom])]
  exact cyclic_prefix p 255 k

/-- Each byte of `t` that there is room for after `p` is the byte of `p` that comes again in
its place. -/
def Recurs (p t : Bytes) : Prop := ∀ j, p.length + j < 255 → t[j]? = p[j % p.length]?

theorem cyclic_eq_iff {p t : Bytes} (hpos : p ≠ []) : cyclic p 255 = (p ++ t).take 255 ↔ Recurs p t := by
  have hlen : 0 < p.length := List.length_pos_of_ne_nil hpos
  have hread : ∀ j, p[j % p.length]? = some (p.getD (j % p.length) 0) := by
    intro j
    have hmod : j % p.length < p.length := Nat.mod_lt _ hlen
    simp [hmod]
  constructor
  · intro h j hj
    have hat : (cyclic p 255)[p.length + j]? = ((p ++ t).take 255)[p.length + j]? := by rw [h]
    rw [getElem?_cyclic hj, List.getElem?_take_of_lt hj, Nat.add_mod_left] at hat
    rw [hread, hat, List.getElem?_append_right (by omega), Nat.add_sub_cancel_left]
  · intro h
    apply List.ext_getElem?
    intro i
    by_cases hi : i < 255
    · rw [getElem?_cyclic hi, List.getElem?_take_of_lt hi]
      by_cases hp : i < p.length
      · rw [← hread, Nat.mod_eq_of_lt hp, List.getElem?_append_left hp]
      · obtain ⟨j, rfl⟩ : ∃ j, i = p.length + j := ⟨i - p.length, by omega⟩
        rw [← hread, Nat.add_mod_left, ← h j hi, List.getElem?_append_right (by omega),
          Nat.add_sub_cancel_left]
    · rw [List.getElem?_eq_none (by simpa using hi), List.getElem?_eq_none (by simp; omega)]

/-- `Rescued cfg site s₁ s'`: the check-in that the place started has failed and returned in
the state `s₁`, and the place has returned in `s'`. -/
inductive Rescued (cfg : Config) : RecoverySite → Ctx → Ctx → Prop where
  | request {ensure : Bytes → Cmd Bytes} {method : Method} {path detail : Bytes} {jsonBody scope : Option Bytes}
      {ov : TlsOverride} {why : SendFailure} {expired : Bool} {bearer : Option Bytes} {rc : Rc}
      {r : Except Rc Bytes} {es check rest : List Event} {s s₀ s₁ s' : Ctx}
      (held : Runs (acquireBearer ensure scope) s es (.ok bearer) s₀)
      (failed : Runs (recoveryCheckin cfg) s₀ check (.error rc) s₁)
      (run : Runs (requestRawWith cfg ensure (recoveryCheckin cfg) method path jsonBody scope ov) s
        (es ++ ((pause cfg ++ [⟨.send scope (buildRequest cfg method path jsonBody bearer ov false),
          .failed why expired detail⟩]) ++ (check ++ rest))) r s') : Rescued cfg (.request path detail) s₁ s'
  | challenge {spent : Bool} {rc rc' : Rc} {r : Except Rc (Except Rc Json × Bool)}
      {es check rest : List Event} {s s₀ s₁ s' : Ctx}
      (asked : Runs (requestPlainJson cfg .get authTokenPath none) s es (.error rc) s₀)
      (failed : Runs (recoveryCheckin cfg) s₀ check (.error rc') s₁)
      (run : Runs (fetchChallenge cfg spent) s (es ++ (check ++ rest)) r s') : Rescued cfg .challenge s₁ s'
  | token {scope : Bytes} {a : Acquired} {rc : Rc} {r : Except Rc (Except Rc Bytes)}
      {check rest : List Event} {s s₁ s' : Ctx}
      (failed : Runs (recoveryCheckin cfg) s check (.error rc) s₁)
      (run : Runs (recoverDrift cfg scope a) s (check ++ rest) r s') : Rescued cfg .token s₁ s'
  | extLogin {path body : Bytes} {rc rc' : Rc} {r : Except Rc Json}
      {es check rest : List Event} {s s₀ s₁ s' : Ctx}
      (asked : Runs (requestPlainJson cfg .post path (some body)) s es (.error rc) s₀)
      (failed : Runs (recoveryCheckin cfg) s₀ check (.error rc') s₁)
      (run : Runs (extLoginPost cfg path body) s (es ++ (check ++ rest)) r s') :
      Rescued cfg (.extLogin path) s₁ s'

/-- Where the message is told as the format has it: everywhere but in a request, and there
where it recurs. -/
def RecoverySite.Spares (site : RecoverySite) (m : Bytes) : Prop :=
  match site with
  | .request .. => Recurs site.before (m ++ site.after)
  | _ => True

section
variable {cfg : Config} {check : List Event} {rc : Rc} {s s₁ : Ctx}

/-- A check-in leaves a mark. -/
theorem checkin_ne_nil (h : Runs (recoveryCheckin cfg) s check (.error rc) s₁) : check ≠ [] := by
  obtain ⟨inner, he, -⟩ := (wp_checkinRun cfg .recovery s check _ s₁ h).events
  simp [he]

theorem runs_doSend (cfg : Config) (scope : Option Bytes) (method : Method) (path : Bytes)
    (jsonBody bearer : Option Bytes) (ov : TlsOverride) (fresh : Bool) (a : Answer) (s : Ctx) :
    Runs (doSend cfg scope method path jsonBody bearer ov fresh) s
      (pause cfg ++ [⟨.send scope (buildRequest cfg method path jsonBody bearer ov fresh), a⟩]) (.ok a) s := by
  have hsend : Runs (transportSend scope (buildRequest cfg method path jsonBody bearer ov fresh)) s
      [⟨.send scope (buildRequest cfg method path jsonBody bearer ov fresh), a⟩] (.ok a) s :=
    run_ask.mpr ⟨a, [], rfl, .ret _⟩
  have hpause : Runs (sleepMs cfg.requestPaceMs) s (pause cfg) (.ok ()) s := by
    unfold sleepMs pause
    split
    · exact .ret _
    · exact run_ask.mpr ⟨(), [], rfl, .ret _⟩
  unfold doSend
  exact hpause.bind hsend

/-- Reading the context is no step of its own. -/
theorem Runs.get {α : Type} {f : Ctx → Cmd α} {s s' : Ctx} {es : List Event} {r : Except Rc α}
    (h : Runs (getCtx >>= f) s es r s') : Runs (f s) s es r s' := h

theorem runs_pure {α : Type} {a : α} {es : List Event} {r : Except Rc α} {s' : Ctx}
    (h : Runs (pure a) s es r s') : es = [] := (run_ret.mp h).1

/-- A challenge that was refused stays refused, for whatever `f` makes of that. -/
theorem challenge_told {α : Type} {f : Except Rc Json × Bool → Cmd α} {spent : Bool} {rc' : Rc}
    {r : Except Rc α} {es rest : List Event} {s₀ s' : Ctx}
    (asked : Runs (requestPlainJson cfg .get authTokenPath none) s es (.error rc) s₀)
    (failed : Runs (recoveryCheckin cfg) s₀ check (.error rc') s₁)
    (hf : wp (f (.error rc, spent)) (fun es _ _ => es = []) s₀)
    (run : Runs (fetchChallenge cfg spent >>= f) s (es ++ (check ++ rest)) r s') :
    ∃ s₂ rest', (s₂.lastError.message = RecoverySite.challenge.intended s₁.lastError.message ∧
      s₂.lastError.httpStatus = 403) ∧ Runs (f (.error rc, true)) s₂ rest' r s' := by
  have hne := checkin_ne_nil failed
  unfold fetchChallenge at run
  rw [Cmd.bind_assoc] at run
  have hread := run.resume asked.attempt
  rw [Cmd.bind_assoc] at hread
  have htry := Runs.get hread
  dsimp only at htry
  split at htry
  · rw [Cmd.bind_assoc] at htry
    have htell := htry.resume failed.attempt
    have hend : wp (getCtx >>= fun s => (ctxFail (α := Json) rc 403 none [.text authTokenPath,
        txt ": HTTP 403 (device RTC not set; automatic check-in failed: ", .text s.lastError.message,
        txt ")"]).attempt >>= fun r => pure (r, true)) (fun _ r s' => ∃ a, r = .ok a ∧ (a = (.error rc, true) ∧
          s'.lastError.message = RecoverySite.challenge.intended s₁.lastError.message ∧
          s'.lastError.httpStatus = 403)) s₁ := by
      simp only [wp_bind, wp_getCtx, wp_attempt, wp_ctxFail, wp_pure]
      intro copied
      simp [Ctx.recorded, Ctx.setError, vsnprintf, txt, errMsgRoom, RecoverySite.intended,
        RecoverySite.before, RecoverySite.after]
    obtain ⟨a, s₂, rest', ⟨rfl, htold⟩, hrest⟩ := htell.through hend
    exact ⟨s₂, rest', htold, hrest⟩
  · exact absurd (hf _ _ _ htry) (by simp [hne])

theorem extLogin_told {path body : Bytes} {rc' : Rc} {r : Except Rc Json}
    {es rest : List Event} {s₀ s' : Ctx}
    (asked : Runs (requestPlainJson cfg .post path (some body)) s es (.error rc) s₀)
    (failed : Runs (recoveryCheckin cfg) s₀ check (.error rc') s₁)
    (run : Runs (extLoginPost cfg path body) s (es ++ (check ++ rest)) r s') :
    s'.lastError.message = (RecoverySite.extLogin path).intended s₁.lastError.message ∧
      r = .error rc ∧ s'.lastError.httpStatus = 403 := by
  have hne := checkin_ne_nil failed
  have hread := run.resume asked.attempt
  have htry := Runs.get hread
  dsimp only at htry
  split at htry
  · have htell := htry.resume failed.attempt
    refine (?_ : wp _ (fun _ r s' => s'.lastError.message = _ ∧ r = _ ∧ s'.lastError.httpStatus = _) s₁)
      rest r s' htell
    simp only [wp_bind, wp_getCtx, wp_ctxFail]
    intro copied
    simp [Ctx.recorded, Ctx.setError, vsnprintf, txt, errMsgRoom, RecoverySite.intended,
      RecoverySite.before, RecoverySite.after]
  · exact absurd (run_ret.mp htry).1 (by simp [hne])

/-- The login post's own failure stands when its rescue fails, for whatever `f` makes of that. -/
theorem token_told {α : Type} {f : Except Rc Bytes → Cmd α} {scope : Bytes} {a : Acquired} {r : Except Rc α}
    {rest : List Event} {s' : Ctx} (failed : Runs (recoveryCheckin cfg) s check (.error rc) s₁)
    (hf : wp (f a.outcome) (fun es _ _ => es = []) s)
    (run : Runs (recoverDrift cfg scope a >>= f) s (check ++ rest) r s') :
    ∃ s₂ rest', (s₂.lastError.message = RecoverySite.token.intended s₁.lastError.message ∧
      s₂.lastError.httpStatus = 401) ∧ Runs (f a.outcome) s₂ rest' r s' := by
  have hne := checkin_ne_nil failed
  unfold recoverDrift at run
  rw [Cmd.bind_assoc] at run
  have htry := Runs.get run
  split at htry
  · rename_i hauth
    split at htry
    · rw [Cmd.bind_assoc] at htry
      rw [hauth]
      have htell := htry.resume failed.attempt
      have hend : wp (getCtx >>= fun s => (ctxFail (α := Bytes) .authFailed 401 none [.text authTokenPath,
          txt ": HTTP 401 with device clock drift; recovery check-in failed: ",
          .text s.lastError.message]).attempt) (fun _ r s' => ∃ a, r = .ok a ∧ (a = .error .authFailed ∧
            s'.lastError.message = RecoverySite.token.intended s₁.lastError.message ∧
            s'.lastError.httpStatus = 401)) s₁ := by
        simp only [wp_bind, wp_getCtx, wp_attempt, wp_ctxFail]
        intro copied
        simp [Ctx.recorded, Ctx.setError, vsnprintf, txt, errMsgRoom, RecoverySite.intended,
          RecoverySite.before, RecoverySite.after]
      obtain ⟨a, s₂, rest', ⟨rfl, htold⟩, hrest⟩ := htell.through hend
      exact ⟨s₂, rest', htold, hrest⟩
    · exact absurd (hf _ _ _ htry) (by simp [hne])
  · exact absurd (hf _ _ _ htry) (by simp [hne])

theorem before_ne_nil (site : RecoverySite) : site.before ≠ [] := by
  cases site with
  | request path detail => simp [RecoverySite.before, lit]
  | challenge => simp [RecoverySite.before, lit]
  | token => simp [RecoverySite.before, lit]
  | extLogin path => simp [RecoverySite.before, lit]

/-- What a request leaves: a message that goes on with its own buffer. -/
theorem request_told {ensure : Bytes → Cmd Bytes} {method : Method} {path detail : Bytes}
    {jsonBody scope : Option Bytes} {ov : TlsOverride} {why : SendFailure} {expired : Bool}
    {bearer : Option Bytes} {r : Except Rc Bytes} {es rest : List Event} {s₀ s' : Ctx}
    (held : Runs (acquireBearer ensure scope) s es (.ok bearer) s₀)
    (failed : Runs (recoveryCheckin cfg) s₀ check (.error rc) s₁)
    (run : Runs (requestRawWith cfg ensure (recoveryCheckin cfg) method path jsonBody scope ov) s
      (es ++ ((pause cfg ++ [⟨.send scope (buildRequest cfg method path jsonBody bearer ov false),
        .failed why expired detail⟩]) ++ (check ++ rest))) r s') :
    s'.lastError.message = vsnprintf s₁.lastError.message
        [.text (RecoverySite.request path detail).before, .ownMessage, txt ")"] [] ∧
      r = .error why.rc ∧ s'.lastError.httpStatus = 0 := by
  have hne := checkin_ne_nil failed
  unfold requestRawWith at run
  split at run
  · have hnil : wp (ctxFail (α := Bytes) .arg 0 none [txt "no transport configured"])
        (fun es _ _ => es = []) s := wp_ctxFail.mpr fun _ => rfl
    exact absurd (hnil _ _ _ run) (by simp)
  · have hsend := run.resume held
    unfold exchangeWith at hsend
    have hcert := hsend.resume (runs_doSend cfg scope method path jsonBody bearer ov false
      (.failed why expired detail) s₀)
    have hpass : wp (requireDone path (.failed why expired detail) >>= fun r =>
        retryAuth ensure (fun bearer => doSend cfg scope method path jsonBody bearer ov true) path scope r >>=
          judge path) (fun es _ _ => es = []) s₀ := by
      unfold requireDone
      rw [sendFailed_bind]
      simp [sendFailed, recordEvents]
    unfold recoverCert at hcert
    rw [Cmd.bind_assoc] at hcert
    have htry := Runs.get hcert
    cases expired with
    | false => exact absurd (hpass _ _ _ htry) (by simp [hne])
    | true =>
      dsimp only at htry
      split at htry
      · exact absurd (hpass _ _ _ htry) (by simp [hne])
      · rw [Cmd.bind_assoc] at htry
        have htell := htry.resume failed.attempt
        refine (?_ : wp _ (fun _ r s' => s'.lastError.message = _ ∧ r = _ ∧ s'.lastError.httpStatus = _) s₁)
          rest r s' htell
        simp only [Cmd.bind_assoc, throwRc_bind, wp_bind, wp_record, wp_modifyCtx, wp_throwRc]
        intro copied
        exact ⟨rfl, trivial, rfl⟩

end

/-- A read of the device's version that meets an expired certificate. -/
def versionRead : Cmd Bytes := requestPlain .standard .get (lit "/v") none .default

def versionSite : RecoverySite := .request (lit "/v") (lit "certificate has expired")

/-- The context after a check-in that the device answers with a 500. -/
def checkinLost : Ctx := scriptState (recoveryCheckin .standard) .initial 5 [.status 500]

theorem versionRead_rescued : Rescued .standard versionSite checkinLost
    (scriptState versionRead .initial 5 [.expired, .status 500]) := by
  have hcheck := script_runs (recoveryCheckin .standard) .initial 5 [.status 500]
  have hfail : scriptResult (recoveryCheckin .standard) .initial 5 [.status 500] = .error .device := by
    decide +kernel
  rw [hfail] at hcheck
  have hrun := script_runs versionRead .initial 5 [.expired, .status 500]
  have hheld : Runs (acquireBearer (fun _ => throwRc .arg) none) .initial [] (.ok none) .initial := .ret _
  have hlog : scriptEvents versionRead .initial 5 [.expired, .status 500] =
      [] ++ ((pause .standard ++ [⟨.send none (buildRequest .standard .get (lit "/v") none none .default false),
        .failed .network true (lit "certificate has expired")⟩]) ++
        (scriptEvents (recoveryCheckin .standard) .initial 5 [.status 500] ++ [])) := by
    rfl
  rw [hlog] at hrun
  exact .request hheld hcheck hrun

/-- After a failed check-in the message has the check-in's own message in its place if and only if
the place spares it: three of the four put a copy of it there. -/
theorem rescue_message_iff {cfg : Config} {site : RecoverySite} {s₁ s' : Ctx} (h : Rescued cfg site s₁ s')
    (hz : ∀ b ∈ site.before, b ≠ 0) :
    s'.lastError.message = site.intended s₁.lastError.message ↔ site.Spares s₁.lastError.message := by
  cases h with
  | request held failed run =>
    rw [(request_told held failed run).1, txt, vsnprintf_own _ _ (before_ne_nil _) hz]
    unfold RecoverySite.intended
    rw [List.append_assoc]
    exact cyclic_eq_iff (before_ne_nil _)
  | challenge asked failed run =>
    rw [← Cmd.bind_pure (fetchChallenge _ _)] at run
    obtain ⟨s₂, rest', htold, hend⟩ := challenge_told asked failed (wp_pure.mpr rfl) run
    obtain ⟨-, rfl⟩ := Prod.mk.inj (run_ret.mp hend).2
    exact iff_of_true htold.1 trivial
  | token failed run =>
    rw [← Cmd.bind_pure (recoverDrift _ _ _)] at run
    obtain ⟨s₂, rest', htold, hend⟩ := token_told failed (wp_pure.mpr rfl) run
    obtain ⟨-, rfl⟩ := Prod.mk.inj (run_ret.mp hend).2
    exact iff_of_true htold.1 trivial
  | extLogin asked failed run => exact iff_of_true (extLogin_told asked failed run).1 trivial

theorem version_message_not_spared : ¬versionSite.Spares checkinLost.lastError.message := by
  intro h
  have htold := (rescue_message_iff versionRead_rescued (by decide +kernel)).mpr h
  exact absurd htold (by decide +kernel)

/-- The read's own text comes in place of the check-in's message. -/
theorem version_message_repeats : Rescued .standard versionSite checkinLost
    (scriptState versionRead .initial 5 [.expired, .status 500]) ∧
    (scriptState versionRead .initial 5 [.expired, .status 500]).lastError.message ≠
      versionSite.intended checkinLost.lastError.message :=
  ⟨versionRead_rescued, by decide +kernel⟩

end EncedoHem
