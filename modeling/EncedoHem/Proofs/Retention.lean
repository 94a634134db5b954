import EncedoHem.Proofs.Redemption
import EncedoHem.Scripted

namespace EncedoHem
open Text Dialogue

/-- The primitive calls of a client that record no passphrase; none of its own requests is made to
the login endpoint. -/
inductive Client (cfg : Config) : (α : Type) → Cmd α → Prop where
  | part (α : Type) (x : Cmd α) (h : Part cfg x) (hi : Idle x) : Client cfg α x
  | device (method : Method) (path : Bytes) (body scope : Option Bytes)
      (hp : scope = none → lit "/api/" ++ path ≠ authTokenPath) :
      Client cfg Bytes (requestRaw cfg method (lit "/api/" ++ path) body scope .default)
  | cloud (method : Method) (url : Bytes) (body : Option Bytes) :
      Client cfg Bytes (requestRaw cfg method url body none .verify)
  | checkin : Client cfg CheckinInfo (checkinRunInfo cfg .explicit true)
  | loginMobile : Client cfg Unit loginMobile
  | logout : Client cfg Unit logout
  | authInvalidateAll : Client cfg Unit authInvalidateAll
  | confirmBegin (url : Option Bytes) (scope : Bytes) (ctxStr note : Option Bytes) :
      Client cfg Nat (extConfirmBegin cfg url scope ctxStr note)
  | confirmPoll (i : Nat) : Client cfg ConfirmStatus (extConfirmPoll cfg i)
  | confirmWait (i : Nat) (timeoutMs : Int) : Client cfg Unit (extConfirmWait cfg i timeoutMs)
  | confirmCancel (i : Nat) : Client cfg Unit (extConfirmCancel i)

/-- The calls that record one. -/
inductive Opens (cfg : Config) : (α : Type) → Cmd α → Prop where
  | login (passphrase : Bytes) : Opens cfg Unit (login cfg passphrase)
  | deviceInit (p : InitParams) (out : Bool) : Opens cfg (Option InitInfo) (deviceInit cfg p out)

theorem Client.prim {cfg : Config} {α : Type} {x : Cmd α} (h : Client cfg α x) : Prim cfg α x := by
  cases h with
  | part _ _ h _ => exact .part _ _ h
  | device method path body scope _ => exact .device method path body scope
  | cloud method url body => exact .cloud method url body
  | checkin => exact .checkin
  | loginMobile => exact .loginMobile
  | logout => exact .logout
  | authInvalidateAll => exact .authInvalidateAll
  | confirmBegin url scope ctxStr note => exact .confirmBegin url scope ctxStr note
  | confirmPoll i => exact .confirmPoll i
  | confirmWait i timeoutMs => exact .confirmWait i timeoutMs
  | confirmCancel i => exact .confirmCancel i

section
variable {cfg : Config} {α : Type} {x : Cmd α}

theorem thrift_of (hx : Keeps spending x) (hi : Idle x) : Keeps thrift x := keeps_idle (fun _ _ _ => thrift_idle) hx hi

theorem thrift_confirming : Confirming cfg (fun _ => True) thrift := confirming_of fun _ _ _ => thrift_idle

theorem thrift_handles (f : Ctx → Ctx) (h : ∀ s, (f s).auth = s.auth) : Keeps thrift (modifyCtx f) :=
  thrift_of (.modify fun s hs => ⟨fun a ha => hs a (h s ▸ ha), fun hn => by unfold Ctx.Scrubbed; rw [h]; exact hn⟩)
    (Idle.modifyCtx f)

theorem thrift_requestRaw {method : Method} {path : Bytes} {body scope : Option Bytes} {ov : TlsOverride}
    (hp : scope = none → ov = .default → path ≠ authTokenPath) :
    Keeps thrift (requestRaw cfg method path body scope ov) := by
  have ht : Confirming cfg (fun _ => True) thrift := thrift_confirming
  refine ht.requestRawWith (fun s => thrift_idle (fun hs => ⟨hs, id⟩) (Idle.calm .nil)) (fun _ => ht.checkin _)
    (fun sc _ => ?_) (fun sc _ => thrift_ensureToken cfg sc) fun s bearer fresh a _ => ?_
  · exact thrift_of (Spending.modifyAuth (fun _ => rfl) (fun _ => rfl) fun _ => .inl rfl) (Idle.modifyCtx _)
  · refine thrift_idle (fun hs => ⟨hs, id⟩) (Unasked.single ?_)
    cases scope with
    | some sc => rfl
    | none =>
      cases ov with
      | default => simp [Event.atLogin, buildRequest, hp rfl rfl]
      | _ => simp [Event.atLogin, buildRequest]

/-- A mobile session holds no passphrase. -/
theorem spending_loginMobile : Keeps spending loginMobile := by
  refine .bind Spending.authOnly.timed.clearError fun _ => ?_
  refine ⟨fun s => wp_bind_of (P := fun es r s₁ => spending.rel s es s₁ ∧ ∀ a, r = .ok a → s₁.auth = some a) ?_ ?_ ?_⟩
  · refine wp_needAuth (fun a ha => ⟨spending.refl s, fun b hb => ?_⟩) (fun es ha _ => ⟨?_, fun b hb => ?_⟩)
      fun es d _ _ => ⟨fun h => ⟨h, id⟩, (fun _ hb => nomatch hb)⟩
    · rw [ha, Except.ok.inj hb]
    · refine fun _ => ⟨fun b hb => ?_, fun _ => rfl⟩
      rw [← Option.some.inj hb]
      exact ⟨rfl, fun h => nomatch h⟩
    · rw [← Except.ok.inj hb]
      rfl
  · intro es a s₁ h
    obtain ⟨hrel, ha⟩ := h
    rw [wp_bind, wp_modifyCtx, wp_mark]
    refine spending.trans hrel fun hs => ⟨fun b hb => ?_, fun _ => rfl⟩
    rw [← Option.some.inj hb]
    exact ⟨(hs a (ha a rfl)).1, fun _ => rfl⟩
  · exact fun es rc s₁ h => h.1

theorem thrift_client (hx : Client cfg α x) : Keeps thrift x := by
  have ht : Confirming cfg (fun _ => True) thrift := thrift_confirming
  have hs : Engine cfg (fun _ => True) spending := Spending.engine
  cases hx with
  | part _ _ h hi => exact thrift_of (h.keeps hs.toMachinery) hi
  | device method path body scope hp => exact thrift_requestRaw fun hn _ => hp hn
  | cloud method url body => exact thrift_requestRaw fun _ h => nomatch h
  | checkin => exact thrift_of (Spending.authOnly.checkinRunInfo _) (Idle.checkinRunInfo _)
  | loginMobile =>
    refine thrift_of spending_loginMobile (.bind Idle.timed.clearError fun _ => ?_)
    exact .bind Idle.needAuth fun _ => .bind (Idle.modifyCtx _) fun _ => Idle.mark _
  | logout =>
    refine thrift_of (.bind Spending.authOnly.timed.clearError fun _ => .bind (.modify fun _ _ => ?_) fun _ =>
      Spending.authOnly.mark _) (.bind Idle.timed.clearError fun _ => .bind (Idle.modifyCtx _) fun _ => Idle.mark _)
    exact ⟨(fun _ ha => nomatch ha), fun _ => rfl⟩
  | authInvalidateAll =>
    exact thrift_of (.bind (Spending.modifyAuth (fun _ => rfl) (fun _ => rfl) fun _ => .inl rfl) fun _ => hs.mark _)
      (.bind (Idle.modifyCtx _) fun _ => Idle.mark _)
  | confirmBegin url scope ctxStr note =>
    exact .bind (ht.confirmBegin ..) fun c => .bind .get fun _ => .bind (thrift_handles _ fun _ => rfl) fun _ => .pure _
  | confirmPoll i =>
    exact .bind (Sessional.takeHandle i) fun _ => .bind (ht.confirmPoll trivial) fun _ =>
      .bind (thrift_handles _ fun _ => rfl) fun _ => Neutral.liftRc _
  | confirmWait i timeoutMs =>
    exact .bind (Sessional.takeHandle i) fun _ => .bind (ht.confirmWait trivial _) fun _ =>
      .bind (thrift_handles _ fun _ => rfl) fun _ => Neutral.liftRc _
  | confirmCancel i => exact thrift_handles _ fun _ => rfl

end

/-- A passphrase goes on record. -/
def Records (es : List Event) : Prop := ∃ e ∈ es, e.op = .mark .reset ∨ e.op = .mark .initLogin

/-- Until one does, a session without a passphrase stays so. -/
def opening : Contract Op Ans Ctx where
  rel s es s' := s.Spendable → s'.Spendable ∧ (¬Records es → s.Scrubbed → s'.Scrubbed)
  refl _ h := ⟨h, fun _ => id⟩
  trans h h' hs := by
    refine ⟨(h' (h hs).1).1, fun hn hscrubbed => ?_⟩
    have hleft : ¬Records _ := fun ⟨e, he, hm⟩ => hn ⟨e, List.mem_append.mpr (.inl he), hm⟩
    have hright : ¬Records _ := fun ⟨e, he, hm⟩ => hn ⟨e, List.mem_append.mpr (.inr he), hm⟩
    exact (h' (h hs).1).2 hright ((h hs).2 hleft hscrubbed)

theorem opening_of_spending {s s' : Ctx} {es : List Event} (h : spending.rel s es s') : opening.rel s es s' :=
  fun hs => ⟨(h hs).1, fun _ => (h hs).2⟩

section
variable {cfg : Config} {α : Type} {x : Cmd α}

theorem opening_loginMarked (hopt : cfg.noCredentialRetention = true) {m : Mark} (hm : m = .reset ∨ m = .initLogin)
    (passphrase : Bytes) : Keeps opening (loginMarked cfg m passphrase) := by
  have ht : Timed spending := Spending.authOnly.timed
  have hof : ∀ {β : Type} {y : Cmd β}, Keeps spending y → Keeps opening y := fun hy =>
    hy.mono fun _ _ _ => opening_of_spending
  refine .bind (hof ht.clearError) fun _ => .bind (hof ht.need) fun _ => .bind (hof Spending.needAuth) fun a => ?_
  refine ⟨fun s => ?_⟩
  rw [wp_bind, wp_modifyCtx, wp_mark]
  intro _
  refine ⟨fun b hb => ?_, fun hn => ?_⟩
  · rw [← Option.some.inj hb]
    exact ⟨by simp [hopt], fun h => nomatch h⟩
  · rcases hm with rfl | rfl
    · exact absurd ⟨_, List.mem_cons_self, .inl rfl⟩ hn
    · exact absurd ⟨_, List.mem_cons_self, .inr rfl⟩ hn

theorem opening_opens (hopt : cfg.noCredentialRetention = true) (hx : Opens cfg α x) : Keeps opening x := by
  have hof : ∀ {β : Type} {y : Cmd β}, Keeps spending y → Keeps opening y := fun hy =>
    hy.mono fun _ _ _ => opening_of_spending
  cases hx with
  | login passphrase => exact opening_loginMarked hopt (.inl rfl) passphrase
  | deviceInit p out =>
    have ht : Timed opening := {
      quiet := fun s e he => opening_of_spending (Spending.authOnly.timed.quiet s e he)
      error := fun s d => opening_of_spending (Spending.authOnly.timed.error s d)
      clock := fun s e he => opening_of_spending (Spending.authOnly.timed.clock s e he) }
    refine ht.deviceInit (P := fun _ => True) trivial (fun _ _ _ _ => hof Spending.authOnly.requestPlainJson)
      fun q token => .bind (opening_loginMarked hopt (.inr rfl) _) fun _ => hof ?_
    have hs : Engine cfg (fun _ => True) spending := Spending.engine
    exact hs.authCacheSeed trivial _

theorem idle_opens (hx : Opens cfg α x) : Idle x := by
  have hidle : Confirming cfg (fun _ => True) (Emits fun e : Event => e.atLogin = false) :=
    confirming_of fun _ _ _ _ h => h
  have hlogin : ∀ m passphrase, Idle (loginMarked cfg m passphrase) := fun m passphrase =>
    .bind hidle.clearError fun _ => .bind hidle.need fun _ => .bind Idle.needAuth fun _ =>
      .bind (Idle.modifyCtx _) fun _ => Idle.mark m
  cases hx with
  | login passphrase => exact hlogin _ _
  | deviceInit p out =>
    refine hidle.toTimed.deviceInit (P := fun path => path = authInitPath) rfl
      (fun _ _ _ hp => Idle.requestPlainJson (hp ▸ by decide)) fun q token => ?_
    exact .bind (hlogin _ _) fun _ => hidle.authCacheSeed trivial _

end

/-- A call that was made: whether it is one to record a passphrase, and what happened. -/
structure Episode where
  opener : Bool
  events : List Event

/-- A passphrase went on record. -/
def Episode.Opens (c : Episode) : Prop := c.opener = true ∧ Records c.events

def Event.derives : Event → Bool
  | ⟨.pbkdf2 _ _ _, _⟩ => true
  | _ => false

/-- Login key material was derived from the passphrase. -/
def Episode.Derives (c : Episode) : Prop := c.opener = false ∧ ∃ e ∈ c.events, e.derives = true

instance (c : Episode) : Decidable c.Derives := inferInstanceAs (Decidable (_ ∧ _))

/-- The calls made on a context since it was created, and the state they left. -/
inductive History (cfg : Config) : List Episode → Ctx → Prop where
  | new : History cfg [] .initial
  | call {α : Type} {cs : List Episode} {s s' : Ctx} {es : List Event} {r : Except Rc α} (h : History cfg cs s)
      (x : Program (Client cfg) α) (hr : Runs x.cmd s es r s') : History cfg (cs ++ [⟨false, es⟩]) s'
  | opening {α : Type} {cs : List Episode} {s s' : Ctx} {es : List Event} {r : Except Rc α} {x : Cmd α}
      (h : History cfg cs s) (hx : Opens cfg α x) (hr : Runs x s es r s') : History cfg (cs ++ [⟨true, es⟩]) s'

section
variable {cfg : Config}

theorem History.spendable (hopt : cfg.noCredentialRetention = true) {cs : List Episode} {s : Ctx}
    (h : History cfg cs s) : s.Spendable := by
  induction h with
  | new => exact fun _ ha => nomatch ha
  | call h x hr ih => exact ((x.keeps fun _ _ hx => thrift_client hx).run _ _ _ _ hr).1.1 ih |>.1
  | opening h hx hr ih => exact ((opening_opens hopt hx).run _ _ _ _ hr ih).1

/-- Between a call that used the passphrase and the next that records one the context holds none, and
nobody asks for a challenge. -/
def Spent (cs : List Episode) (s : Ctx) : Prop :=
  ∀ before c after, cs = before ++ c :: after → c.Derives → (∀ d ∈ after, ¬d.Opens) →
    s.Scrubbed ∧ ∀ d ∈ after, Unasked d.events

/-- One call more: it uses the passphrase itself, or comes after the one that did. -/
theorem Spent.snoc {cs : List Episode} {l : Episode} {s s' : Ctx} (h : Spent cs s) (hlast : l.Derives → s'.Scrubbed)
    (hstep : ¬l.Opens → s.Scrubbed → s'.Scrubbed ∧ Unasked l.events) : Spent (cs ++ [l]) s' := by
  intro before c after hcs hc hafter
  rcases List.eq_nil_or_concat' after with rfl | ⟨mid, d, rfl⟩
  · obtain ⟨rfl, hl⟩ := List.append_inj' hcs rfl
    obtain ⟨rfl, -⟩ := List.cons.inj hl
    exact ⟨hlast hc, fun _ hd => absurd hd List.not_mem_nil⟩
  · rw [← List.cons_append, ← List.append_assoc] at hcs
    obtain ⟨rfl, hl⟩ := List.append_inj' hcs rfl
    obtain ⟨rfl, -⟩ := List.cons.inj hl
    obtain ⟨hscrubbed, hmid⟩ := h before c mid rfl hc fun d hd => hafter d (List.mem_append.mpr (.inl hd))
    obtain ⟨hscrubbed', hunasked⟩ := hstep (hafter l (by simp)) hscrubbed
    refine ⟨hscrubbed', fun d hd => ?_⟩
    rcases List.mem_append.mp hd with hd | hd
    · exact hmid d hd
    · rw [List.mem_singleton.mp hd]
      exact hunasked

theorem History.spent (hopt : cfg.noCredentialRetention = true) {cs : List Episode} {s : Ctx} (h : History cfg cs s)
    (hgood : ∀ c ∈ cs, c.Derives → Redeemed c.events) : Spent cs s := by
  induction h with
  | new => exact fun before c after hcs => absurd hcs (by simp)
  | call h x hr ih =>
    have hkeeps := (x.keeps fun _ _ hx => thrift_client hx).run _ _ _ _ hr
    have hs := h.spendable hopt
    refine Spent.snoc (ih fun d hd => hgood d (List.mem_append.mpr (.inl hd))) ?_ ?_
    · exact fun hc => hkeeps.1.2 hs (hgood _ (by simp) hc)
    · exact fun _ hn => ⟨(hkeeps.1.1 hs).2 hn, hkeeps.2 hs hn⟩
  | opening h hx hr ih =>
    refine Spent.snoc (ih fun d hd => hgood d (List.mem_append.mpr (.inl hd))) ?_ ?_
    · exact fun hc => nomatch hc.1
    · intro hclosed hn
      have hkeeps := (opening_opens hopt hx).run _ _ _ _ hr (h.spendable hopt)
      exact ⟨hkeeps.2 (fun hr => hclosed ⟨rfl, hr⟩) hn, (idle_opens hx).run _ _ _ _ hr⟩

end

/-- With the opt-out set, and every login exchange that used the passphrase ending with a bearer that
there is memory for, the passphrase is gone after the call that used it: until one is recorded again no
challenge is asked for, and a miss or an expiry ends a request before anything is sent. -/
theorem used_passphrase_scrubbed (cfg : Config) (hopt : cfg.noCredentialRetention = true) {cs : List Episode} {s : Ctx}
    (h : History cfg cs s) (hgood : ∀ c ∈ cs, c.Derives → Redeemed c.events) {before : List Episode} {c : Episode}
    {after : List Episode} (hcs : cs = before ++ c :: after) (hc : c.Derives) (hafter : ∀ d ∈ after, ¬d.Opens) :
    s.Scrubbed ∧ (∀ d ∈ after, Unasked d.events) ∧
      (s.auth.any (·.mobile) = false → ∀ method path body scope ov,
        wp (requestRaw cfg method path body (some scope) ov) (fun es r _ => ∀ now : Int,
          es.head? = some ⟨.authNow, now⟩ → s.freshEntry scope now = none →
          r = .error .authExpired ∧ es = [⟨.authNow, now⟩]) s) := by
  obtain ⟨hscrubbed, hunasked⟩ := h.spent hopt hgood before c after hcs hc hafter
  refine ⟨hscrubbed, hunasked, fun hm method path body scope ov => ?_⟩
  exact wp_requestRaw_spent cfg method path body scope ov hscrubbed hm

/-- A client that does not want its passphrase kept. -/
def oneShot : Config := { Config.standard with noCredentialRetention := true }

def oneShotLogin : Ctx := scriptState (login oneShot (lit "pw")) .initial 5 []

def settingsRequest : Program (Client oneShot) Bytes :=
  .prim (requestRaw oneShot .get (lit "/api/" ++ lit "system/config") none (some (lit "system:config")) .default)
    (.device _ _ _ _ fun h => nomatch h)

def loginCall : Episode := ⟨true, scriptEvents (login oneShot (lit "pw")) .initial 5 []⟩

/-- The first request after the login, its dispatches answered like this. -/
def firstCall (answers : List Answer) : Episode := ⟨false, scriptEvents settingsRequest.cmd oneShotLogin 5 answers⟩

def firstCtx (answers : List Answer) : Ctx := scriptState settingsRequest.cmd oneShotLogin 5 answers

theorem first_history (answers : List Answer) : History oneShot [loginCall, firstCall answers] (firstCtx answers) :=
  .call (.opening .new (.login (lit "pw")) (script_runs ..)) settingsRequest (script_runs ..)

def sampleChallenge : Answer :=
  .object [("eid", .str (lit "e")), ("spk", .str (lit "AAAAAAAAAAAAAAAAAAAAAAAAAAAAAAAAAAAAAAAAAAA=")),
    ("jti", .str (lit "j")), ("exp", .int 65)]

/-- With all the memory there is, a bearer that is handed out is redeemed. -/
theorem redeemed_script {α : Type} (x : Cmd α) (s : Ctx) (clock : Int) (answers : List Answer)
    (h : ∃ e ∈ scriptEvents x s clock answers, e.bearer.isSome = true) : Redeemed (scriptEvents x s clock answers) := by
  obtain ⟨e, he, hb⟩ := h
  obtain ⟨token, ht⟩ := Option.isSome_iff_exists.mp hb
  obtain ⟨pre, post, hsplit⟩ := List.append_of_mem he
  refine ⟨pre, e, post, token, hsplit, ht, fun i hi => ?_⟩
  have hpost : (⟨.alloc, false⟩ : Event) ∈ post := (List.takeWhile_sublist _).subset (List.mem_of_getElem? hi)
  refine absurd ?_ (granted_script x s clock answers)
  rw [hsplit]
  exact List.mem_append.mpr (.inr (List.mem_cons_of_mem _ hpost))

def takenAnswers : List Answer := [sampleChallenge, .object [("token", .str (lit "t"))], .object []]

theorem first_redeemed : Redeemed (firstCall takenAnswers).events := by
  dsimp only [firstCall]
  exact redeemed_script settingsRequest.cmd oneShotLogin 5 takenAnswers (by decide +kernel)

theorem redeemed_login_scrubs : (firstCtx takenAnswers).Scrubbed := by
  have hderives : (firstCall takenAnswers).Derives := by decide +kernel
  have hgood : ∀ c ∈ [loginCall, firstCall takenAnswers], c.Derives → Redeemed c.events := by
    intro c hc hd
    rcases List.mem_cons.mp hc with rfl | hc
    · exact absurd hd.1 (by decide)
    · rw [List.mem_singleton.mp hc]
      exact first_redeemed
  have hsplit : [loginCall, firstCall takenAnswers] = [loginCall] ++ firstCall takenAnswers :: [] := rfl
  exact (used_passphrase_scrubbed oneShot rfl (first_history _) hgood hsplit hderives
    fun _ hd => absurd hd List.not_mem_nil).1

def refusedAnswers : List Answer := [sampleChallenge, .status 401]

/-- A login post that is refused leaves the passphrase, and the next request asks for a challenge again. -/
theorem refused_login_keeps_passphrase :
    History oneShot [loginCall, firstCall refusedAnswers] (firstCtx refusedAnswers) ∧
      (firstCall refusedAnswers).Derives ∧ ¬(firstCtx refusedAnswers).Scrubbed ∧
      ¬Unasked (scriptEvents settingsRequest.cmd (firstCtx refusedAnswers) 5 []) :=
  ⟨first_history _, by decide +kernel, by decide +kernel, by decide +kernel⟩

end EncedoHem
