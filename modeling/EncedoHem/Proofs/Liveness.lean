import EncedoHem.Lib.Willing
import EncedoHem.Proofs.Handles
import EncedoHem.Proofs.Accepted
import EncedoHem.Proofs.JsonText

namespace EncedoHem
open Text Dialogue

def replyMembers : List (Bytes × Json) := [(lit "authreply", .str (lit "r"))]
def tokenMembers : List (Bytes × Json) := [(lit "token", .str (lit "t"))]

/-- An environment in which a poll goes well: the broker tells an approval, the device redeems it,
and there is memory. -/
def obliging : (i : Op) → Ans i
  | .send _ req => .done ⟨200, some (printValue (.obj (if req.isRedemption then tokenMembers else replyMembers)))⟩
  | .alloc => true
  | .authNow => (0 : Int)
  | .wallTime => (0 : Int)
  | .sleep _ => ()
  | .notice _ _ => ()
  | .globalInit => .ok ()
  | .pbkdf2 _ _ _ => .ok []
  | .x25519Keypair _ => .ok ([], [])
  | .x25519Shared _ _ => .ok []
  | .hmacSha256 _ _ => .ok []
  | .mark _ => ()

theorem obliging_send {scope : Option Bytes} {req : Request} {b : Bool} (h : req.isRedemption = b) :
    obliging (.send scope req) = .done ⟨200, some (printValue (.obj (if b then tokenMembers else replyMembers)))⟩ := by
  rw [← h]
  rfl

def Obliged (e : Event) : Prop := e.ans = obliging e.op

/-- What the command comes to where the environment is obliging. -/
abbrev Obtains {α : Type} (x : Cmd α) (V : α → Prop) : Prop := Willing Obliged x V

/-- The text of the answer is read back. -/
theorem obliging_body {ms : List (Bytes × Json)} (hne : ms ≠ []) (h : Strings ms)
    (hz : ∀ c ∈ printValue (.obj ms), c ≠ 0) : jsonParse (cstr (printValue (.obj ms))) = some (.obj ms) := by
  rw [cstr_of_no_zero hz]
  exact jsonParse_printValue hne h

theorem strings_single {name v : Bytes} (hname : ∀ c ∈ name, c ≠ 0) (hv : ∀ c ∈ v, c ≠ 0) :
    Strings [(name, .str v)] := by
  intro m hm
  obtain rfl := List.mem_singleton.mp hm
  exact ⟨hname, v, rfl, hv⟩

theorem reply_read : jsonParse (cstr (printValue (.obj replyMembers))) = some (.obj replyMembers) :=
  obliging_body (List.cons_ne_nil _ _) (strings_single (by decide +kernel) (by decide +kernel)) (by decide +kernel)

theorem token_read : jsonParse (cstr (printValue (.obj tokenMembers))) = some (.obj tokenMembers) :=
  obliging_body (List.cons_ne_nil _ _) (strings_single (by decide +kernel) (by decide +kernel)) (by decide +kernel)

namespace Obtains
variable {α : Type} {cfg : Config}

theorem alloc : Obtains alloc fun ok => ok = true := .ask fun _ ho => ho

theorem need : Obtains need fun _ => True :=
  .bind alloc fun _ hok => .ite (fun _ => .pure trivial) fun hn => absurd hok hn

theorem clearError : Obtains clearError fun _ => True := .modify _

theorem mark (m : Mark) : Obtains (mark m) fun _ => True := .ask fun _ _ => trivial

theorem parseJson (b : Bytes) : Obtains (parseJson b) fun j => j = jsonParse b := by
  refine .bind alloc fun ok hok => .pure ?_
  rw [hok]
  rfl

theorem printObject (ms : List (Bytes × Json)) : Obtains (printObject ms) fun _ => True :=
  .bind need fun _ _ => .pure trivial

theorem sleepMs (ms : Int) : Obtains (sleepMs ms) fun _ => True :=
  .ite (fun _ => .pure trivial) fun _ => .ask fun _ _ => trivial

/-- The look at the event finds an approval. -/
theorem notifyEventCheck (ht : cfg.hasTransport = true) {url : Option Bytes} (hurl : url.getD defaultNotifyUrl ≠ [])
    {id path : Bytes} (hp : pollPath (lit "/event/check/") id = some path) :
    Obtains (notifyEventCheck cfg url id) fun p => p = .ready (.approved (lit "r")) := by
  have hsend : Obtains (notifySend cfg .get url path none)
      fun p => p = (200, some (cstr (printValue (.obj replyMembers)))) := by
    unfold notifySend
    rw [if_neg (by simp [ht]), if_neg hurl]
    refine .bind need fun _ _ => .bind (V := fun a : Answer =>
      a = .done ⟨200, some (printValue (.obj replyMembers))⟩) (.ask fun a ha => ?_) fun a ha => ?_
    · exact (ha : a = obliging (.send none _)).trans (obliging_send (b := false) (Bool.and_false _))
    · rw [ha]
      exact .ite (fun h => absurd h (by decide)) fun _ => .pure rfl
  have hpoll : Obtains (notifyPoll cfg (lit "notify/event/check") (lit "/event/check/") id url
      (txt "notify/event/check: eventid too long"))
      fun p => ∃ b, p = .ready (200, b, .obj replyMembers) := by
    unfold notifyPoll
    rw [hp]
    refine .bind hsend fun p hp => .bind need fun _ _ => ?_
    rw [hp]
    refine .ite (fun h => absurd h (by decide)) fun _ => ?_
    refine .bind (parseJson _) fun root hroot => ?_
    rw [hroot, reply_read]
    exact .pure ⟨_, rfl⟩
  refine .bind clearError fun _ _ => .bind hpoll fun p ⟨b, hp⟩ => ?_
  rw [hp]
  refine .ite (fun h => absurd h (by decide +kernel)) fun _ => ?_
  have hreply : (Json.obj replyMembers).getString (lit "authreply") = some (lit "r") := by decide +kernel
  rw [hreply]
  exact .bind need fun _ _ => .pure rfl

/-- A request that redeems is answered with the token. -/
theorem redemption (ht : cfg.hasTransport = true) (body : Bytes) :
    Obtains (requestPlainJson cfg .post extTokenPath (some body)) fun root => root = .obj tokenMembers := by
  have hsend : ∀ fresh, Obtains (doSend cfg none .post extTokenPath (some body) none .default fresh)
      fun a => a = .done ⟨200, some (printValue (.obj tokenMembers))⟩ := by
    refine fun fresh => .bind (sleepMs _) fun _ _ => .ask fun a ha => ?_
    exact (ha : a = obliging (.send none _)).trans (obliging_send (b := true) (by simp [Request.isRedemption, buildRequest]))
  have hraw : Obtains (requestPlain cfg .post extTokenPath (some body) .default)
      fun b => b = cstr (printValue (.obj tokenMembers)) := by
    unfold requestPlain requestRawWith
    rw [if_neg (by simp [ht])]
    refine .bind (V := fun b => b = none) (.pure rfl) fun bearer hb => ?_
    subst hb
    refine .bind (hsend false) fun a ha => ?_
    subst ha
    refine .bind (V := fun a => a = .done ⟨200, some (printValue (.obj tokenMembers))⟩)
      (.bind .get fun _ _ => .pure rfl) fun a ha => ?_
    subst ha
    refine .bind (V := fun r => r = ⟨200, some (printValue (.obj tokenMembers))⟩) (.pure rfl) fun r hr => ?_
    subst hr
    refine .bind (V := fun r => r = ⟨200, some (printValue (.obj tokenMembers))⟩) (.pure rfl) fun r hr => ?_
    subst hr
    exact .ite (fun h => absurd h (by decide)) fun _ => .pure rfl
  refine .bind hraw fun b hb => ?_
  subst hb
  refine .bind (parseJson _) fun root hroot => ?_
  rw [hroot, token_read]
  exact .ite (fun _ => .pure rfl) fun h => absurd rfl h

theorem extToken (ht : cfg.hasTransport = true) : Obtains (extToken cfg (lit "r")) fun t => t = lit "t" := by
  refine .bind clearError fun _ _ => .ite (fun h => absurd h (by decide)) fun _ => ?_
  refine .bind (printObject _) fun body _ => ?_
  have hpost : Obtains (extLoginPost cfg extTokenPath body) fun root => root = .obj tokenMembers := by
    refine .bind (.attempt (redemption ht body)) fun r hr => .bind .get fun s _ => ?_
    obtain ⟨root, rfl, hroot⟩ := hr
    exact .pure hroot
  refine .bind (.attempt hpost) fun r hr => .bind .get fun s _ => ?_
  obtain ⟨root, rfl, rfl⟩ := hr
  have htoken : (Json.obj tokenMembers).getString (lit "token") = some (lit "t") := by decide +kernel
  dsimp only
  rw [htoken]
  exact .bind need fun _ _ => .pure rfl

theorem cachePut (scope token : Bytes) (exp : Int) : Obtains (cachePut scope token exp) fun put => put = true := by
  refine .bind .get fun s _ => .bind alloc fun ok hok => ?_
  subst hok
  refine .ite (fun h => absurd h (by decide)) fun _ => ?_
  split
  · exact .bind (.modify _) fun _ _ => .pure rfl
  · refine .bind alloc fun ok hok => ?_
    subst hok
    refine .ite (fun h => absurd h (by decide)) fun _ => .bind alloc fun ok hok => ?_
    subst hok
    exact .ite (fun h => absurd h (by decide)) fun _ => .bind (.modify _) fun _ _ => .pure rfl

theorem authCacheSeed (scope : Bytes) : Obtains (authCacheSeed scope (lit "t")) fun _ => True := by
  have hauth : Obtains needAuth fun _ => True := by
    refine .bind .get fun s _ => ?_
    split
    · exact .pure trivial
    · exact .bind need fun _ _ => .bind (.modify _) fun _ _ => .pure trivial
  refine .bind hauth fun _ _ => .bind (V := fun exp => exp = none) (.pure rfl) fun exp hexp => ?_
  subst hexp
  refine .bind (V := fun _ => True) (.bind (.ask fun _ _ => trivial) fun _ _ => .pure trivial) fun e _ => ?_
  refine .bind (cachePut ..) fun put hput => ?_
  subst hput
  exact .pure trivial

theorem confirmRedeem (ht : cfg.hasTransport = true) (scope : Bytes) :
    Obtains (confirmRedeem cfg scope (lit "r")) fun st => st = .approved := by
  refine .bind (mark _) fun _ _ => .bind (extToken ht) fun t h => ?_
  subst h
  exact .bind (authCacheSeed scope) fun _ _ => .pure rfl

/-- A poll of an open handle. -/
theorem confirmPoll (ht : cfg.hasTransport = true) {url : Option Bytes} (hurl : url.getD defaultNotifyUrl ≠ [])
    {id path scope : Bytes} (hp : pollPath (lit "/event/check/") id = some path) :
    Obtains (confirmPoll cfg ⟨url, scope, some id, false⟩) fun p => p.1 = .ok .approved := by
  unfold EncedoHem.confirmPoll confirmCheck
  rw [if_neg Bool.false_ne_true]
  refine .bind (.attempt (notifyEventCheck ht hurl hp)) fun r hr => ?_
  obtain ⟨p, rfl, rfl⟩ := hr
  refine .bind (.attempt (confirmRedeem ht scope)) fun r hr => ?_
  obtain ⟨st, rfl, rfl⟩ := hr
  exact .pure rfl

end Obtains

/-- The broker can be asked. -/
structure Reaches (cfg : Config) (url : Option Bytes) : Prop where
  transport : cfg.hasTransport = true
  based : url.getD defaultNotifyUrl ≠ []

section
variable {cfg : Config} {url : Option Bytes}

theorem yields_notifySend (method : Method) (subpath : Bytes) (body : Option Bytes) :
    Yields (notifySend cfg method url subpath body) fun _ => Reaches cfg url := by
  refine .ite (fun _ => yields_ctxFail ..) fun ht => .ite (fun _ => yields_ctxFail ..) fun hurl => ?_
  refine .bind fun _ => .bind fun a => ?_
  split
  · exact yields_ctxFail ..
  · exact .ite (fun _ => yields_ctxFail ..) fun _ => .pure ⟨by simpa using ht, hurl⟩

theorem yields_notifyEventNew (authreq epk : Bytes) :
    Yields (notifyEventNew cfg url authreq epk) fun _ => Reaches cfg url := by
  have hjson : ∀ body, Yields (notifySendJson cfg .post url (lit "/event/new") body) fun _ => Reaches cfg url := by
    refine fun body => .bind_of (yields_notifySend ..) fun p hp => ?_
    dsimp only
    split
    · exact yields_ctxFail ..
    · refine .bind fun root => ?_
      split
      · exact yields_ctxFail ..
      · exact .pure hp
  refine .bind fun _ => .bind fun body => .bind_of (hjson _) fun root hr => ?_
  unfold brokerStr
  split
  · exact yields_ctxFail ..
  · exact .bind fun _ => .pure hr

/-- A push that was delivered was delivered to the broker. -/
theorem yields_confirmFirePush (scope : Bytes) (ctxStr note : Option Bytes) :
    Yields (confirmFirePush cfg url scope ctxStr note) fun p => ∀ id, p.outcome = .ok id → Reaches cfg url := by
  refine .bind fun session => ?_
  split
  · exact .pure fun _ h => nomatch h
  · refine .bind fun req => ?_
    split
    · exact .pure fun _ h => nomatch h
    · exact .bind_of (.attempt (yields_notifyEventNew ..)) fun event h => .pure h

theorem yields_confirmBegin (scope : Bytes) (ctxStr note : Option Bytes) :
    Yields (confirmBegin cfg url scope ctxStr note) fun _ => Reaches cfg url := by
  refine .bind fun c => .bind_of (yields_confirmFirePush ..) fun push hpush => ?_
  refine .bind_of (W := fun outcome => ∀ id, outcome = .ok id → Reaches cfg url) ?_ fun outcome ho => ?_
  · refine .bind fun s => ?_
    split
    · refine .ite (fun _ => .bind fun drift => .ite (fun _ => .bind fun crc => ?_) fun _ => .pure hpush) fun _ => .pure hpush
      split
      · exact .bind_of (yields_confirmFirePush ..) fun again h => .pure h
      · exact .pure hpush
    · exact .pure hpush
  · split
    · exact .throw _ _
    · exact .bind fun _ => .pure (ho _ rfl)

end

/-- The event is looked at. -/
def Contacts (cfg : Config) (url : Option Bytes) (id : Bytes) (es : List Event) : Prop :=
  ∃ a, (⟨.send none (lookRequest cfg url id), a⟩ : Event) ∈ es

/-- A later poll of the handle asks the broker again, memory permitting, and can still complete
the confirmation. -/
structure Ctx.Live (cfg : Config) (url : Option Bytes) (id : Bytes) (i : Nat) (s : Ctx) : Prop where
  contacts : wp (extConfirmPoll cfg i) (fun es _ _ => Granted es → Contacts cfg url id es) s
  completes : ∃ es s', Runs (extConfirmPoll cfg i) s es (.ok .approved) s'

theorem Contacts.left {cfg : Config} {url : Option Bytes} {id : Bytes} {es : List Event}
    (h : Contacts cfg url id es) (es' : List Event) : Contacts cfg url id (es ++ es') := by
  obtain ⟨a, ha⟩ := h
  exact ⟨a, List.mem_append.mpr (.inl ha)⟩

theorem Contacts.right {cfg : Config} {url : Option Bytes} {id : Bytes} {es' : List Event} (es : List Event)
    (h : Contacts cfg url id es') : Contacts cfg url id (es ++ es') := by
  obtain ⟨a, ha⟩ := h
  exact ⟨a, List.mem_append.mpr (.inr ha)⟩

/-- A sequence whose first part looks at the event. -/
theorem wp_contacts_bind {cfg : Config} {url : Option Bytes} {id : Bytes} {α β : Type} {x : Cmd α} {f : α → Cmd β}
    {s : Ctx} (hx : wp x (fun es _ _ => Granted es → Contacts cfg url id es) s) :
    wp (x >>= f) (fun es _ _ => Granted es → Contacts cfg url id es) s :=
  wp_bind_of hx (fun _ _ _ h es' _ _ _ hg => (h hg.left).left es') fun _ _ _ h => h

theorem wp_eventCheck_contacts {cfg : Config} {url : Option Bytes} (hr : Reaches cfg url) {id path : Bytes}
    (hp : pollPath (lit "/event/check/") id = some path) (s : Ctx) :
    wp (notifyEventCheck cfg url id) (fun es _ _ => Granted es → Contacts cfg url id es) s := by
  have hpath : path = lit "/event/check/" ++ id := by
    unfold pollPath at hp
    split at hp
    · exact (Option.some.inj hp).symm
    · exact nomatch hp
  have hsend : ∀ s, wp (notifySend cfg .get url path none) (fun es _ _ => Granted es → Contacts cfg url id es) s := by
    intro s
    unfold notifySend
    rw [if_neg (by simp [hr.transport]), if_neg hr.based]
    refine wp_granted_bind (P := Contacts cfg url id) (fun es es' h => h.right es) ?_
    rw [wp_bind, transportSend, ask, wp_ask]
    intro a es r s' _ _
    exact ⟨a, by rw [hpath]; exact List.mem_cons_self⟩
  unfold notifyEventCheck
  rw [wp_bind, wp_clearError]
  refine wp_contacts_bind ?_
  unfold notifyPoll
  rw [hp]
  exact wp_contacts_bind (hsend _)

section
variable {cfg : Config} {url : Option Bytes} {scope id : Bytes} {i : Nat} {s s' : Ctx}

/-- An open handle whose event's id fits a look at it is live. -/
theorem live_of_open (hr : Reaches cfg url) (hp : (pollPath (lit "/event/check/") id).isSome = true)
    (h : s.HasHandle i ⟨url, scope, some id, false⟩) : s.Live cfg url id i := by
  obtain ⟨path, hpath⟩ := Option.isSome_iff_exists.mp hp
  constructor
  · unfold extConfirmPoll
    rw [wp_bind]
    refine wp_takeHandle h ?_
    refine wp_contacts_bind ?_
    unfold confirmPoll confirmCheck
    rw [if_neg Bool.false_ne_true]
    exact wp_contacts_bind (wp_attempt.mpr (wp_eventCheck_contacts hr hpath s))
  · have hpoll : wp (extConfirmPoll cfg i)
        (fun es r _ => (∀ e ∈ es, Obliged e) → ∃ st, r = .ok st ∧ st = .approved) s := by
      unfold extConfirmPoll
      rw [wp_bind]
      refine wp_takeHandle h ?_
      have hpolled : Obtains (confirmPoll cfg ⟨url, scope, some id, false⟩) fun p => p.1 = .ok .approved :=
        Obtains.confirmPoll hr.transport hr.based hpath
      have hrest := hpolled.bind (f := fun p =>
        modifyCtx (·.setHandle i (some p.2)) >>= fun _ => liftRc p.1) (W := fun st => st = .approved) fun p hp => by
          rw [hp]
          exact .bind (.modify _) fun _ _ => .pure rfl
      exact hrest.run s
    obtain ⟨es, st, s', hrun, rfl⟩ := exists_run obliging (fun _ => rfl) hpoll
    exact ⟨es, s', hrun⟩

/-- A finished handle is not. -/
theorem not_live_of_finished (h : s.HasHandle i ⟨url, scope, some id, true⟩) : ¬s.Live cfg url id i := by
  rintro ⟨-, es, s', hrun⟩
  exact nomatch (wp_pollFinished cfg rfl h _ _ _ hrun).2.1

/-- Nor is one whose event cannot be asked for. -/
theorem not_live_of_long (hp : (pollPath (lit "/event/check/") id).isSome = false)
    (h : s.HasHandle i ⟨url, scope, some id, false⟩) : ¬s.Live cfg url id i := by
  have hnone : pollPath (lit "/event/check/") id = none := by simpa using hp
  have hpoll : wp (extConfirmPoll cfg i) (fun _ r _ => r = .error .arg) s := by
    unfold extConfirmPoll
    rw [wp_bind]
    refine wp_takeHandle h ?_
    unfold confirmPoll confirmCheck notifyEventCheck notifyPoll
    dsimp only
    rw [if_neg Bool.false_ne_true, hnone]
    simp [wp_liftRc, ctxFail_bind]
  rintro ⟨-, es, s', hrun⟩
  exact nomatch hpoll _ _ _ hrun

/-- A call in which a redemption begins finishes its handle. -/
theorem Step.spent {u : Use} (hu : Step cfg i s u s') (h : s.HasHandle i ⟨url, scope, some id, false⟩)
    (hr : ∃ e ∈ u.events, e.redeems = true) : s'.HasHandle i ⟨url, scope, some id, true⟩ := by
  obtain ⟨e, he, hr⟩ := hr
  have hfinal : ∀ {es : List Event} {k : Stage} {s₁ : Ctx}, Turn url id scope es k s₁ → e ∈ es → k.final = true := by
    intro es k s₁ hturn he
    obtain ⟨pre, post, hsplit⟩ := List.append_of_mem he
    rcases (hturn.redeemed pre e post hsplit hr).1 with hk | hk
    · exact hk ▸ rfl
    · exact hk ▸ rfl
  cases hu with
  | poll hrun =>
    obtain ⟨k, -, hturn, hh⟩ := wp_pollOpen cfg h _ _ _ hrun
    exact hfinal hturn he ▸ hh
  | wait timeoutMs hrun =>
    by_cases ht : timeoutMs ≤ 0
    · obtain ⟨rfl, -, -⟩ := wp_waitRefused cfg (.inr ht) h _ _ _ hrun
      exact nomatch he
    · obtain ⟨k, -, hturn, hh⟩ := wp_waitOpen cfg (by omega) h _ _ _ hrun
      exact hfinal hturn he ▸ hh
  | other x hrun => exact nomatch he

/-- Over a history without a decision the handle is finished by a redemption, and by nothing else:
induction on the history. -/
theorem Used.spent {s₁ : Ctx} {us : List Use} (hu : Used cfg i s₁ us s)
    (h : s₁.HasHandle i ⟨url, scope, some id, false⟩) (hn : ∀ u ∈ us, u.decisive = false) :
    ∃ t, s.HasHandle i ⟨url, scope, some id, t⟩ ∧
      (t = true ↔ ∃ u ∈ us, ∃ e ∈ u.events, e.redeems = true) := by
  induction hu with
  | nil => exact ⟨false, h, by simp⟩
  | @snoc s₂ s₃ us u hu hstep ih =>
    obtain ⟨t, hh, ht⟩ := ih fun v hv => hn v (List.mem_append.mpr (.inl hv))
    obtain ⟨t', hh', hs⟩ := hstep.stepped hh
    refine ⟨t', hh', ?_⟩
    have hun : u.decisive = false := hn u (by simp)
    have hall : (∃ v ∈ us ++ [u], ∃ e ∈ v.events, e.redeems = true) ↔
        t = true ∨ ∃ e ∈ u.events, e.redeems = true := by
      rw [ht]
      simp only [List.mem_append, List.mem_singleton, or_and_right, exists_or, exists_eq_left]
    rw [hall]
    cases t with
    | true => simp [(hs.finished rfl).1]
    | false =>
      by_cases hr : ∃ e ∈ u.events, e.redeems = true
      · have hend := hstep.spent hh hr
        have hsame : some (some _) = some (some (⟨url, scope, some id, t'⟩ : Confirm)) := hend.symm.trans hh'
        have htrue : true = t' := congrArg Confirm.terminal (Option.some.inj (Option.some.inj hsame))
        simp [← htrue, hr]
      · have hquiet : ∀ e ∈ u.events, e.redeems = false := by
          intro e he
          cases hq : e.redeems with
          | false => rfl
          | true => exact absurd ⟨e, he, hq⟩ hr
        have hopen : t' = false := hs.undecided rfl (.inr ⟨hun, hquiet⟩)
        simp [hopen, hr]

end

/-- Live handles, over every history of a handle of `ehem_ext_confirm_begin` in which no call was decisive:
the handle is live if and only if its event's id fits the poll's buffer and no call began to redeem an
approved reply. -/
theorem undecided_handle_live_iff (cfg : Config) (url : Option Bytes) (scope : Bytes) (ctxStr note : Option Bytes)
    (s₀ s₁ : Ctx) (es₀ : List Event) (i : Nat)
    (hb : Runs (extConfirmBegin cfg url scope ctxStr note) s₀ es₀ (.ok i) s₁) :
    ∃ id, s₁.HasHandle i ⟨url, scope, some id, false⟩ ∧ ∀ us s, Used cfg i s₁ us s →
      (∀ u ∈ us, u.decisive = false) →
      (s.Live cfg url id i ↔ (pollPath (lit "/event/check/") id).isSome = true ∧
        ∀ u ∈ us, ∀ e ∈ u.events, e.redeems = false) := by
  have hreach : Reaches cfg url := by
    have hyield : Yields (extConfirmBegin cfg url scope ctxStr note) fun _ => Reaches cfg url :=
      .bind_of (yields_confirmBegin scope ctxStr note) fun c h => .bind fun s => .bind fun _ => .pure h
    exact hyield.run s₀ _ _ _ hb i rfl
  obtain ⟨id, h⟩ := begun_handle hb
  refine ⟨id, h, fun us s hu hn => ?_⟩
  obtain ⟨t, hh, ht⟩ := hu.spent h hn
  cases hp : (pollPath (lit "/event/check/") id).isSome with
  | false =>
    cases t with
    | true => simp [not_live_of_finished hh]
    | false => simp [not_live_of_long hp hh]
  | true =>
    cases t with
    | true =>
      obtain ⟨u, hmem, e, he, hr⟩ := ht.mp rfl
      simp only [not_live_of_finished hh, true_and, false_iff]
      intro hall
      exact nomatch (hall u hmem e he).symm.trans hr
    | false =>
      simp only [live_of_open hreach hp hh, true_and, true_iff]
      intro u hmem e he
      cases hr : e.redeems with
      | false => rfl
      | true => exact nomatch ht.mpr ⟨u, hmem, e, he, hr⟩

theorem pushed_handle_live : pushCtx.Live .standard none (lit "e") 0 := by
  have hbegin := script_runs (extConfirmBegin .standard none (lit "s") none none) Ctx.initial 5 pushAnswers
  have hok : scriptResult (extConfirmBegin .standard none (lit "s") none none) Ctx.initial 5 pushAnswers =
    .ok 0 := by decide +kernel
  rw [hok] at hbegin
  obtain ⟨id, h, hall⟩ := undecided_handle_live_iff .standard none (lit "s") none none _ _ _ 0 hbegin
  have hid : pushCtx.handles[0]?.join.bind (·.eventid) = some (lit "e") := by decide +kernel
  have hsame : some id = some (lit "e") := by
    have hslot : pushCtx.handles[0]? = some (some ⟨none, lit "s", some id, false⟩) := h
    rw [hslot] at hid
    exact hid
  cases hsame
  exact (hall [] _ (.nil _) (by simp)).mpr ⟨by decide, by simp⟩

/-- The context after a poll that lost the device while it redeemed an approved reply. -/
def lostCtx : Ctx :=
  scriptState (extConfirmPoll .standard 0) pushCtx 5 [.object [("authreply", .str (lit "r"))], .lost]

/-- A poll fails with a network error, and from then on every poll of the handle is refused
without a dispatch. -/
theorem lost_redemption_ends_handle :
    (∃ es, Runs (extConfirmPoll .standard 0) pushCtx es (.error .network) lostCtx) ∧
    ∀ es r s, Runs (extConfirmPoll .standard 0) lostCtx es r s → r = .error .arg ∧ es = [] := by
  have hpoll := script_runs (extConfirmPoll .standard 0) pushCtx 5 [.object [("authreply", .str (lit "r"))], .lost]
  have hlost : scriptResult (extConfirmPoll .standard 0) pushCtx 5
    [.object [("authreply", .str (lit "r"))], .lost] = .error .network := by decide +kernel
  rw [hlost] at hpoll
  refine ⟨⟨_, hpoll⟩, fun es r s hrun => ?_⟩
  have hdone : lostCtx.handles[0]?.join.map (·.terminal) = some true := by decide +kernel
  obtain ⟨c, hc, hterminal⟩ := Option.map_eq_some_iff.mp hdone
  have hslot : lostCtx.HasHandle 0 c := Option.join_eq_some_iff.mp hc
  obtain ⟨hes, hr, -⟩ := wp_pollFinished .standard hterminal hslot _ _ _ hrun
  exact ⟨hr, hes⟩

end EncedoHem
