import EncedoHem.Proofs.Expiry

namespace EncedoHem
open Text Dialogue

/-- The context holds no passphrase. -/
def Ctx.Scrubbed (s : Ctx) : Prop := s.auth.bind (·.passphrase) = none

instance (s : Ctx) : Decidable s.Scrubbed := inferInstanceAs (Decidable (_ = none))

/-- The passphrase that the context may hold is to be used once, and a mobile session has none. -/
def Ctx.Spendable (s : Ctx) : Prop :=
  ∀ a, s.auth = some a → a.retain = false ∧ (a.mobile = true → a.passphrase = none)

/-- A request to the login endpoint: its `GET` asks for a challenge and its `POST` answers it. -/
def Event.atLogin : Event → Bool
  | ⟨.send none req, _⟩ => req.path = authTokenPath && req.tlsOverride = .default
  | _ => false

/-- No challenge is asked for, nor is any answered. -/
def Unasked (es : List Event) : Prop := ∀ e ∈ es, e.atLogin = false

instance (es : List Event) : Decidable (Unasked es) := inferInstanceAs (Decidable (∀ e ∈ es, _))

/-- The bearer that a login post is answered with. -/
def Event.bearer : Event → Option Bytes
  | ⟨.send none req, .done resp⟩ =>
    if req.method = .post ∧ req.path = authTokenPath ∧ req.tlsOverride = .default ∧ resp.fault = none then
      (resp.body.bind fun b => (jsonParse (cstr b)).filter (·.isObject)).bind (·.getString (lit "token"))
    else none
  | _ => none

/-- The bearer's payload is decoded and goes to the parser. -/
def legible (token : Bytes) : Bool :=
  (middleSegment token).any fun seg =>
    if seg.length = 0 ∨ 1024 < seg.length then false else (b64urlDecode seg 1024).isSome

/-- The requests for memory before anything else happens. -/
def asked (es : List Event) : List Event := es.takeWhile fun e => e.op = .alloc

/-- There is memory for what is made of a bearer: the answer is parsed, the bearer's expiry is read
and the bearer is stored, and only the reading may go without. -/
def Stored (token : Bytes) (es : List Event) : Prop :=
  ∀ i, (asked es)[i]? = some ⟨.alloc, false⟩ → i = 1 ∧ legible token = true

/-- A login post is answered with a bearer that there is memory for. -/
def Redeemed (es : List Event) : Prop :=
  ∃ pre e post token, es = pre ++ e :: post ∧ e.bearer = some token ∧ Stored token post

theorem Event.bearer_none {e : Event} (h : e.atLogin = false) : e.bearer = none := by
  obtain ⟨op, ans⟩ := e
  cases op with
  | send scope req =>
    cases scope with
    | some sc => rfl
    | none =>
      cases ans with
      | failed why expired detail => rfl
      | done resp =>
        refine if_neg fun hp => ?_
        simp [atLogin, hp.2.1, hp.2.2.1] at h
  | _ => rfl

/-- No bearer is redeemed where none is handed out. -/
theorem not_redeemed {es : List Event} (h : ∀ e ∈ es, e.bearer = none) : ¬Redeemed es := by
  intro hr
  obtain ⟨pre, e, post, token, rfl, hb, -⟩ := hr
  rw [h e (by simp)] at hb
  exact nomatch hb

/-- What a session goes through that keeps its passphrase for one use. -/
def spending : Contract Op Ans Ctx where
  rel s _ s' := s.Spendable → s'.Spendable ∧ (s.Scrubbed → s'.Scrubbed)
  refl _ h := ⟨h, id⟩
  trans h h' hs := ⟨(h' (h hs).1).1, fun hn => (h' (h hs).1).2 ((h hs).2 hn)⟩

theorem asked_prefix (es es' : List Event) : asked es <+: asked (es ++ es') := by
  unfold asked
  induction es with
  | nil => exact List.nil_prefix
  | cons e es ih =>
    simp only [List.cons_append, List.takeWhile_cons]
    split
    · exact List.cons_prefix_cons.mpr ⟨rfl, ih⟩
    · exact List.prefix_rfl

/-- What comes later takes no memory back. -/
theorem Stored.left {token : Bytes} {es es' : List Event} (h : Stored token (es ++ es')) : Stored token es := by
  intro i hi
  obtain ⟨rest, hrest⟩ := asked_prefix es es'
  apply h i
  rw [← hrest, List.getElem?_append_left (List.getElem?_eq_some_iff.mp hi).1]
  exact hi

theorem Redeemed.split {es es' : List Event} (h : Redeemed (es ++ es')) : Redeemed es ∨ Redeemed es' := by
  obtain ⟨pre, e, post, token, he, hb, hm⟩ := h
  rcases split_append he with ⟨mid, rfl, rfl⟩ | ⟨mid, rfl, rfl⟩
  · exact .inl ⟨pre, e, mid, token, rfl, hb, hm.left⟩
  · exact .inr ⟨mid, e, post, token, rfl, hb, hm⟩

/-- Besides, a bearer that is redeemed costs the passphrase. -/
def redemption : Contract Op Ans Ctx where
  rel s es s' := spending.rel s es s' ∧ (s.Spendable → Redeemed es → s'.Scrubbed)
  refl s := ⟨spending.refl s, fun _ h => absurd h (not_redeemed fun _ he => absurd he List.not_mem_nil)⟩
  trans h h' := by
    refine ⟨spending.trans h.1 h'.1, fun hs hr => ?_⟩
    have hs' := h.1 hs
    rcases hr.split with hr | hr
    · exact (h'.1 hs'.1).2 (h.2 hs hr)
    · exact h'.2 hs'.1 hr

/-- And without a passphrase the login endpoint is left alone. -/
def thrift : Contract Op Ans Ctx where
  rel s es s' := redemption.rel s es s' ∧ (s.Spendable → s.Scrubbed → Unasked es)
  refl s := ⟨redemption.refl s, fun _ _ => fun _ he => absurd he List.not_mem_nil⟩
  trans h h' := by
    refine ⟨redemption.trans h.1 h'.1, fun hs hn e he => ?_⟩
    rcases List.mem_append.mp he with he | he
    · exact h.2 hs hn e he
    · exact h'.2 (h.1.1 hs).1 ((h.1.1 hs).2 hn) e he

theorem Unasked.bearers {es : List Event} (h : Unasked es) : ∀ e ∈ es, e.bearer = none :=
  fun e he => Event.bearer_none (h e he)

theorem Unasked.append {es es' : List Event} (h : Unasked es) (h' : Unasked es') : Unasked (es ++ es') := by
  intro e he
  rcases List.mem_append.mp he with he | he
  · exact h e he
  · exact h' e he

theorem Unasked.single {e : Event} (h : e.atLogin = false) : Unasked [e] := by
  intro d hd
  rw [List.mem_singleton.mp hd]
  exact h

theorem unasked_allocs {es : List Event} (h : ∀ e ∈ es, e.op = .alloc) : Unasked es := by
  intro e he
  obtain ⟨op, ans⟩ := e
  obtain rfl : op = .alloc := h _ he
  rfl

theorem LegEvent.atLogin {e : Event} (h : LegEvent e) : e.atLogin = false := by
  obtain ⟨op, ans⟩ := e
  cases op with
  | send scope req =>
    obtain ⟨rfl, hov⟩ := h
    simp [Event.atLogin, hov]
  | _ => rfl

theorem CheckinEvents.unasked {why : CheckinReason} {es : List Event} (h : CheckinEvents why es) : Unasked es := by
  obtain ⟨inner, rfl, hlegs⟩ := h
  intro e he
  simp only [List.mem_cons, List.mem_append, List.not_mem_nil, or_false] at he
  rcases he with rfl | he | rfl
  · rfl
  · exact (hlegs e he).atLogin
  · rfl

namespace Spending
variable {cfg : Config}

theorem authOnly : AuthOnly spending where
  event _ _ h := ⟨h, id⟩
  still s s' h _ _ hs := ⟨fun a ha => hs a (h ▸ ha), fun hn => by unfold Ctx.Scrubbed; rw [h]; exact hn⟩

/-- A write that takes up no passphrase. -/
theorem rel_modify {s : Ctx} {f : Auth → Auth} (hr : ∀ a, (f a).retain = a.retain)
    (hm : ∀ a, (f a).mobile = a.mobile) (hp : ∀ a, (f a).passphrase = a.passphrase ∨ (f a).passphrase = none) :
    spending.rel s [] (s.setAuth (s.auth.map f)) := by
  intro hs
  refine ⟨fun b hb => ?_, fun hn => ?_⟩
  · obtain ⟨a, ha, rfl⟩ := Option.map_eq_some_iff.mp hb
    rw [hr, hm]
    refine ⟨(hs a ha).1, fun h => ?_⟩
    rcases hp a with h' | h'
    · exact h'.trans ((hs a ha).2 h)
    · exact h'
  · show (s.auth.map f).bind _ = none
    unfold Ctx.Scrubbed at hn
    cases ha : s.auth with
    | none => rfl
    | some a =>
      rw [ha] at hn
      rcases hp a with h' | h'
      · exact h'.trans hn
      · exact h'

theorem modifyAuth {f : Auth → Auth} (hr : ∀ a, (f a).retain = a.retain) (hm : ∀ a, (f a).mobile = a.mobile)
    (hp : ∀ a, (f a).passphrase = a.passphrase ∨ (f a).passphrase = none) :
    Keeps spending (modifyAuth f) := .modify fun _ => rel_modify hr hm hp

theorem put (scope token : Bytes) (exp : Int) : Keeps spending (cachePut scope token exp) := by
  have hput : ∀ a : Auth, (a.put scope token exp).retain = a.retain ∧ (a.put scope token exp).mobile = a.mobile ∧
      (a.put scope token exp).passphrase = a.passphrase := by
    intro a
    unfold Auth.put
    split
    · exact ⟨rfl, rfl, rfl⟩
    · exact ⟨rfl, rfl, rfl⟩
  refine ⟨fun s => wp_cachePut (fun es _ => spending.refl s) fun es _ => ?_⟩
  exact rel_modify (fun a => (hput a).1) (fun a => (hput a).2.1) fun a => .inl (hput a).2.2

theorem afterUse : Keeps spending (EncedoHem.modifyAuth Auth.afterUse) := by
  have hcases : ∀ a : Auth, a.afterUse = a ∨ a.afterUse = a.scrubPassphrase := by
    intro a
    unfold Auth.afterUse
    split
    · exact .inl rfl
    · exact .inr rfl
  refine modifyAuth (fun a => ?_) (fun a => ?_) fun a => ?_
  · rcases hcases a with h | h
    · rw [h]
    · rw [h]; rfl
  · rcases hcases a with h | h
    · rw [h]
    · rw [h]; rfl
  · rcases hcases a with h | h
    · exact .inl (by rw [h])
    · exact .inr (by rw [h]; rfl)

theorem needAuth : Keeps spending needAuth := by
  refine ⟨fun s => wp_needAuth (fun _ _ => spending.refl s) (fun _ _ _ _ => ⟨fun a ha => ?_, fun _ => rfl⟩)
    fun _ _ _ _ h => ⟨h, id⟩⟩
  rw [← Option.some.inj ha]
  exact ⟨rfl, fun h => nomatch h⟩

theorem engine : Engine cfg (fun _ => True) spending :=
  authOnly.engine (fun _ => modifyAuth (fun _ => rfl) (fun _ => rfl) fun _ => .inl rfl)
    (fun _ _ _ _ => put ..) (fun _ _ => afterUse) fun _ _ => needAuth

end Spending

/-- No request is made to the login endpoint. -/
abbrev Idle {α : Type} (x : Cmd α) : Prop := Keeps (Emits fun e : Event => e.atLogin = false) x

namespace Idle
variable {cfg : Config}

theorem timed : Timed (Emits fun e : Event => e.atLogin = false) := by
  apply emits_timed
  intro e he
  obtain ⟨op, ans⟩ := e
  cases op with
  | send scope req => exact absurd he Bool.false_ne_true
  | _ => rfl

theorem calm {es : List Event} (h : Calm es) : Unasked es := fun e he => timed.quiet .initial e (h e he) e (by simp)

theorem mark (m : Mark) : Idle (mark m) := .ask fun _ _ => emits_single rfl

theorem modifyCtx (f : Ctx → Ctx) : Idle (modifyCtx f) := .modify fun _ => emits_nil

theorem checkinLegs : Idle (checkinLegs cfg true) :=
  (legs_checkinLegs cfg).mono fun _ _ _ h e he => (h.1 e he).atLogin

theorem checkinRun (why : CheckinReason) : Idle (checkinRun cfg why true) :=
  Neutral.guardCheckin mark (fun _ _ => emits_nil) (.bind checkinLegs fun _ => .pure _)

theorem checkinRunInfo (why : CheckinReason) : Idle (checkinRunInfo cfg why true) :=
  Neutral.guardCheckin mark (fun _ _ => emits_nil) (.bind checkinLegs fun _ => timed.harvest ..)

theorem cachePut {scope token : Bytes} {exp : Int} : Idle (cachePut scope token exp) :=
  ⟨fun _ => wp_cachePut (fun _ hc => calm hc) fun _ hc => calm hc⟩

theorem needAuth : Idle needAuth :=
  ⟨fun _ => wp_needAuth (fun _ _ => calm .nil) (fun _ _ hc => calm hc) fun _ _ _ hc => calm hc⟩

/-- A request to any other place. -/
theorem requestPlain {method : Method} {path : Bytes} {body : Option Bytes} (hp : path ≠ authTokenPath) :
    Idle (requestPlain cfg method path body .default) :=
  timed.requestRawWith_plain (fun _ => emits_nil) (fun _ => checkinRun _)
    fun _ _ _ => emits_single (by simp [Event.atLogin, buildRequest, hp])

theorem requestPlainJson {method : Method} {path : Bytes} {body : Option Bytes} (hp : path ≠ authTokenPath) :
    Idle (requestPlainJson cfg method path body) :=
  .bind (requestPlain hp) fun _ => timed.parseBody ..

end Idle

theorem redemption_idle {s s' : Ctx} {es : List Event} (h : spending.rel s es s') (hi : Unasked es) :
    redemption.rel s es s' := ⟨h, fun _ hr => absurd hr (not_redeemed hi.bearers)⟩

theorem thrift_idle {s s' : Ctx} {es : List Event} (h : spending.rel s es s') (hi : Unasked es) :
    thrift.rel s es s' := ⟨redemption_idle h hi, fun _ _ => hi⟩

theorem keeps_idle {α : Type} {K : Contract Op Ans Ctx} {x : Cmd α}
    (h : ∀ s es s', spending.rel s es s' → Unasked es → K.rel s es s') (hx : Keeps spending x) (hi : Idle x) :
    Keeps K x := ⟨fun s => wp_mono (wp_and (hx.run s) (hi.run s)) fun es _ s' hk => h s es s' hk.1 hk.2⟩

/-- What keeps the passphrase for one use and leaves the login endpoint alone is within the contract:
so are pushes and what is made of them. -/
theorem confirming_of {cfg : Config} {K : Contract Op Ans Ctx}
    (h : ∀ s es s', spending.rel s es s' → Unasked es → K.rel s es s') : Confirming cfg (fun _ => True) K := by
  have hs : Engine cfg (fun _ => True) spending := Spending.engine
  exact {
    quiet := fun s e he => h _ _ _ (hs.quiet s e he) (Idle.timed.quiet s e he)
    error := fun s d => h _ _ _ (hs.error s d) (Idle.timed.error s d)
    clock := fun s e he => h _ _ _ (hs.clock s e he) (Idle.timed.clock s e he)
    broker := fun _ _ _ _ => keeps_idle h (hs.broker ..) (Idle.timed.notifySend fun _ _ _ => emits_single (by simp [Event.atLogin, buildRequest]))
    extPost := fun path _ hp => keeps_idle h (hs.extPost _ _ hp) (Idle.timed.extLoginPost (Idle.requestPlainJson (by
      rcases hp with rfl | rfl <;> decide)) (Idle.checkinRun _))
    mark := fun m => keeps_idle h (hs.mark m) (Idle.mark m)
    latch := fun s => h _ _ _ (hs.latch s) fun _ he => absurd he List.not_mem_nil
    checkin := fun why => keeps_idle h (hs.checkin why) (Idle.checkinRun why)
    put := fun scope token exp hp => keeps_idle h (hs.put scope token exp hp) Idle.cachePut
    fresh := fun scope hp => keeps_idle h (hs.fresh scope hp) Idle.needAuth }

/-- The memory that reading a bearer's expiry asks for: some if and only if there is a payload to parse. -/
def Reading (token : Bytes) (es : List Event) : Prop :=
  legible token = false ∧ es = [] ∨ legible token = true ∧ ∃ ok, es = [⟨.alloc, ok⟩]

theorem Reading.unasked {token : Bytes} {es : List Event} (h : Reading token es) : Unasked es := by
  rcases h with ⟨-, rfl⟩ | ⟨-, ok, rfl⟩
  · exact Idle.calm .nil
  · exact Idle.calm (calm_alloc ok)

theorem wp_peekClaim_asks (jwt key : Bytes) (s : Ctx) :
    wp (peekClaim jwt key) (fun es r s' => s' = s ∧ (∃ v, r = .ok v) ∧ Reading jwt es) s := by
  unfold peekClaim Reading legible
  split
  · rename_i hm
    exact wp_pure.mpr ⟨rfl, ⟨_, rfl⟩, .inl ⟨by simp [hm], rfl⟩⟩
  · rename_i seg hm
    rw [wp_ite]
    split
    · rename_i hl
      exact wp_pure.mpr ⟨rfl, ⟨_, rfl⟩, .inl ⟨by rw [hm, Option.any_some, if_pos hl], rfl⟩⟩
    · rename_i hl
      cases hd : b64urlDecode seg 1024 with
      | none => exact wp_pure.mpr ⟨rfl, ⟨_, rfl⟩, .inl ⟨by rw [hm, Option.any_some, if_neg hl, hd]; rfl, rfl⟩⟩
      | some raw =>
        unfold parseJson
        simp only [Cmd.bind_assoc]
        rw [wp_bind, wp_alloc]
        intro ok
        simp only [Cmd.pure_bind, wp_pure, List.append_nil]
        exact ⟨trivial, ⟨_, rfl⟩, .inr ⟨by rw [hm, Option.any_some, if_neg hl, hd]; rfl, ok, rfl⟩⟩

/-- Storing a bearer asks for memory only, and fails only for the lack of it. -/
theorem wp_cachePut_asks (scope token : Bytes) (exp : Int) (s : Ctx) : wp (cachePut scope token exp) (fun es r s' =>
    (∀ e ∈ es, e.op = .alloc) ∧
      (r = .ok true ∧ s' = s.put scope token exp ∨ r = .ok false ∧ (⟨.alloc, false⟩ : Event) ∈ es)) s := by
  have hmem : wp (cachePut scope token exp) (fun es r _ =>
      (∀ e ∈ es, e.op = .alloc) ∧ (r = .ok false → (⟨.alloc, false⟩ : Event) ∈ es)) s := by
    unfold cachePut modifyAuth
    rw [wp_bind, wp_getCtx]
    dsimp only
    rw [wp_bind, wp_alloc]
    intro copied
    cases copied with
    | false => simp
    | true =>
      dsimp only
      cases s.auth.bind (·.cacheFind scope) with
      | some e => simp
      | none =>
        simp only [Bool.not_true, Bool.false_eq_true, if_false, wp_bind, wp_alloc]
        intro entry
        cases entry with
        | false => simp
        | true =>
          simp only [Bool.not_true, Bool.false_eq_true, if_false, wp_bind, wp_alloc]
          intro named
          cases named with
          | false => simp
          | true => simp
  have hstate : wp (cachePut scope token exp) (fun _ r s' =>
      r = .ok false ∨ r = .ok true ∧ s' = s.put scope token exp) s :=
    wp_cachePut (fun _ _ => .inl rfl) fun _ _ => .inr ⟨rfl, rfl⟩
  refine wp_mono (wp_and hmem hstate) ?_
  intro es r s' h
  obtain ⟨⟨hes, hlack⟩, hr⟩ := h
  refine ⟨hes, ?_⟩
  rcases hr with hr | hr
  · exact .inr ⟨hr, hlack hr⟩
  · exact .inl hr

/-- Where no memory is left to store a bearer in, it is not stored. -/
theorem not_stored {token : Bytes} {read put rest : List Event}
    (hread : Reading token read) (hput : ∀ e ∈ put, e.op = .alloc) (hmem : (⟨.alloc, false⟩ : Event) ∈ put) :
    ¬Stored token (⟨.alloc, true⟩ :: (read ++ (put ++ rest))) := by
  intro h
  obtain ⟨i, hi⟩ := List.mem_iff_getElem?.mp hmem
  have hlt := (List.getElem?_eq_some_iff.mp hi).1
  have hasked : ∀ es, asked (put ++ es) = put ++ asked es := fun es =>
    List.takeWhile_append_of_pos fun e he => by simpa using hput e he
  rcases hread with ⟨hl, rfl⟩ | ⟨hl, ok, rfl⟩
  · have hat := h (i + 1) (by
      show (asked (put ++ rest))[i]? = _
      rw [hasked, List.getElem?_append_left hlt, hi])
    rw [hl] at hat
    exact nomatch hat.2
  · have hat := h (i + 2) (by
      show (asked (put ++ rest))[i]? = _
      rw [hasked, List.getElem?_append_left hlt, hi])
    omega

/-- A bearer that is redeemed is the one that is handed out, where there is only one. -/
theorem redeemed_at {before after : List Event} {e : Event} (hb : ∀ d ∈ before, d.bearer = none)
    (ha : ∀ d ∈ after, d.bearer = none) (h : Redeemed (before ++ e :: after)) :
    ∃ token, e.bearer = some token ∧ Stored token after := by
  obtain ⟨pre, d, post, token, hsplit, hd, hm⟩ := h
  rcases split_append hsplit with ⟨mid, rfl, -⟩ | ⟨mid, rfl, htail⟩
  · rw [hb d (by simp)] at hd
    exact nomatch hd
  · cases mid with
    | nil =>
      obtain ⟨rfl, rfl⟩ := List.cons.inj htail
      exact ⟨token, hd, hm⟩
    | cons x mid =>
      obtain ⟨-, rfl⟩ := List.cons.inj htail
      rw [ha d (by simp)] at hd
      exact nomatch hd

/-- Only the answer that the dispatches of a request end with can hand out a bearer. -/
theorem Tried.bearers {cfg : Config} {s : Ctx} {req : Bool → Request} {sent : List Event} {last : Option Answer}
    (h : Tried cfg s none req sent last) : (last = none → ∀ e ∈ sent, e.bearer = none) ∧
      ∀ a, last = some a → ∃ pre fresh, sent = pre ++ [⟨.send none (req fresh), a⟩] ∧ ∀ e ∈ pre, e.bearer = none := by
  have hpause : ∀ e ∈ pause cfg, e.bearer = none := (Idle.calm (Calm.pause cfg)).bearers
  have hfirst : ∀ (why : SendFailure) (detail : Bytes) (check : List Event), CheckinEvents .recovery check →
      ∀ e ∈ pause cfg ++ [⟨.send none (req false), .failed why true detail⟩] ++ check, e.bearer = none := by
    intro why detail check hc e he
    simp only [List.mem_append, List.mem_singleton] at he
    rcases he with (he | rfl) | he
    · exact hpause e he
    · rfl
    · exact hc.unasked.bearers e he
  cases h with
  | unsent h => exact ⟨(fun _ _ he => absurd he List.not_mem_nil), by simp⟩
  | once a h =>
    refine ⟨by simp, fun b hb => ?_⟩
    obtain rfl := Option.some.inj hb
    exact ⟨pause cfg, false, rfl, hpause⟩
  | stuck why detail check h hc => exact ⟨fun _ => hfirst why detail check hc, by simp⟩
  | resent why detail check a h hc last hl =>
    have hbefore : ∀ e ∈ pause cfg ++ [⟨.send none (req false), .failed why true detail⟩] ++ check ++ pause cfg,
        e.bearer = none := by
      intro e he
      rcases List.mem_append.mp he with he | he
      · exact hfirst why detail check hc e he
      · exact hpause e he
    rw [← List.append_assoc]
    refine ⟨fun hn e he => ?_, fun b hb => ?_⟩
    · rcases List.mem_append.mp he with he | he
      · exact hbefore e he
      · rcases hl with hl | ⟨-, hexp⟩
        · rw [hn] at hl
          cases hl
        · rw [List.mem_singleton.mp he]
          cases a with
          | done r => cases hexp
          | failed why expired detail => rfl
    · rcases hl with hl | hl
      · obtain rfl : a = b := Option.some.inj (hl.symm.trans hb)
        exact ⟨_, true, rfl, hbefore⟩
      · rw [hl.1] at hb
        cases hb

/-- What the login post comes to: what fails redeems no bearer, and after what succeeds there may be
memory for the bearer that the answer holds. -/
structure Posted (s : Ctx) (es : List Event) (r : Except Rc Json) (s' : Ctx) : Prop where
  auth : s'.auth = s.auth
  failed : ∀ rc, r = .error rc → ¬Redeemed es
  good : ∀ root tail, r = .ok root → (∀ e ∈ tail, e.bearer = none) → Redeemed (es ++ tail) →
    ∃ token, root.getString (lit "token") = some token ∧ Stored token (⟨.alloc, true⟩ :: tail)

theorem AskedJson.posted {cfg : Config} {body : Option Bytes} {s s' : Ctx} {es : List Event} {r : Except Rc Json}
    (h : AskedJson cfg .post authTokenPath body s es r s') : Posted s es r s' := by
  obtain ⟨sent, rest, last, rfl, hcalm, htried, hv⟩ := h.run
  obtain ⟨hnone, hlast⟩ := htried.bearers
  have hrest := (Idle.calm hcalm).bearers
  cases hv with
  | good resp b root _ hf hb hj ho _ =>
    refine ⟨h.frame.auth, (fun _ hr => nomatch hr), fun root' tail hr htail hred => ?_⟩
    obtain rfl := Except.ok.inj hr
    obtain ⟨pre, fresh, rfl, hpre⟩ := hlast _ rfl
    simp only [List.append_assoc, List.cons_append, List.nil_append] at hred
    obtain ⟨token, ht, hm⟩ := redeemed_at hpre (List.forall_mem_cons.mpr ⟨rfl, htail⟩) hred
    refine ⟨token, ?_, hm⟩
    simpa [Event.bearer, buildRequest, hf, hb, hj, Option.filter_some, ho] using ht
  | bad resp _ rc _ hf _ =>
    refine ⟨h.frame.auth, fun _ _ hred => ?_, (fun _ _ hr => nomatch hr)⟩
    obtain ⟨pre, fresh, rfl, hpre⟩ := hlast _ rfl
    rw [List.append_assoc] at hred
    obtain ⟨token, ht, -⟩ := redeemed_at hpre hrest hred
    simp [Event.bearer, hf] at ht
  | lost _ _ rc _ hl _ _ =>
    refine ⟨h.frame.auth, fun _ _ hred => ?_, (fun _ _ hr => nomatch hr)⟩
    cases last with
    | none => exact not_redeemed (List.forall_mem_append.mpr ⟨hnone rfl, hrest⟩) hred
    | some a =>
      obtain ⟨pre, fresh, rfl, hpre⟩ := hlast _ rfl
      rw [List.append_assoc] at hred
      obtain ⟨token, ht, -⟩ := redeemed_at hpre hrest hred
      cases a with
      | done resp => exact hl resp rfl
      | failed why expired detail => exact nomatch ht
  | garbled resp b ok after _ hf hb hj _ =>
    refine ⟨h.frame.auth, fun _ _ hred => ?_, (fun _ _ hr => nomatch hr)⟩
    obtain ⟨pre, fresh, rfl, hpre⟩ := hlast _ rfl
    rw [List.append_assoc] at hred
    obtain ⟨token, ht, hm⟩ := redeemed_at hpre hrest hred
    cases ok with
    | false => exact absurd (hm 0 rfl).1 (by decide)
    | true =>
      simp only [Event.bearer, hb, Option.bind_some] at ht
      split at ht
      · obtain ⟨root, hroot, -⟩ := Option.bind_eq_some_iff.mp ht
        obtain ⟨hroot, ho⟩ := Option.filter_eq_some_iff.mp hroot
        rw [hj rfl root hroot] at ho
        exact nomatch ho
      · exact nomatch ht

/-- The passphrase is scrubbed by its first use. -/
theorem scrubbed_afterUse {s : Ctx} (hs : s.Spendable) (scope token : Bytes) (exp : Int) :
    (Ctx.setAuth (s.put scope token exp) ((s.put scope token exp).auth.map Auth.afterUse)).Scrubbed := by
  show ((s.auth.map (·.put scope token exp)).map Auth.afterUse).bind (·.passphrase) = none
  cases ha : s.auth with
  | none => rfl
  | some a =>
    have hretain : (a.put scope token exp).retain = a.retain := by
      unfold Auth.put
      split <;> rfl
    show (Auth.afterUse (a.put scope token exp)).passphrase = none
    unfold Auth.afterUse
    rw [if_neg (by rw [hretain, (hs a ha).1]; exact Bool.false_ne_true)]
    rfl

/-- A bearer that is redeemed costs the passphrase: the exchange fails only where there is none, or
no memory for it. -/
theorem wp_redeemEjwt_scrubs (cfg : Config) (scope ejwt : Bytes) (now : Int) {s : Ctx} (hs : s.Spendable) :
    wp (redeemEjwt cfg scope ejwt now) (fun es _ s' => Redeemed es → s'.Scrubbed) s := by
  have hskip : ∀ {es es' : List Event}, Calm es → Redeemed (es ++ es') → Redeemed es' := fun hc hr =>
    hr.split.resolve_left (not_redeemed (Idle.calm hc).bearers)
  unfold redeemEjwt
  refine wp_bind_of (P := fun es _ s₁ => Calm es ∧ s₁.auth = s.auth)
    (wp_need_of (fun es hc => ⟨hc, rfl⟩) fun es d hc _ => ⟨hc, rfl⟩) ?_ ?_
  · intro es u s₁ h
    obtain ⟨hcalm, hauth⟩ := h
    refine wp_bind_of (P := Posted s₁) ?_ ?_ ?_
    · exact wp_mono (wp_requestPlainJson cfg .post authTokenPath (some (authBody ejwt)) s₁) fun _ _ _ h => h.posted
    · intro es₁ root s₂ hp
      have hs₂ : s₂.Spendable := fun a ha => hs a (by rw [← hauth, ← hp.auth]; exact ha)
      split
      · rename_i hn
        refine wp_ctxFail_of fun es₂ d hc _ _ hr => ?_
        obtain ⟨token, ht, -⟩ := hp.good root es₂ rfl (Idle.calm hc).bearers (hskip hcalm hr)
        rw [hn] at ht
        exact nomatch ht
      · rename_i token ht
        refine wp_bind_of (wp_peekClaim_asks token (lit "exp") s₂) ?_ ?_
        · intro read exp s₃ h
          obtain ⟨rfl, -, hread⟩ := h
          refine wp_bind_of (wp_cachePut_asks scope token _ s₃) ?_ ?_
          · intro put stored s₄ h
            obtain ⟨hput, h⟩ := h
            rcases h with ⟨hr, rfl⟩ | ⟨hr, hmem⟩
            · obtain rfl := Except.ok.inj hr
              rw [if_pos rfl]
              unfold modifyAuth
              rw [wp_bind, wp_modifyCtx]
              exact wp_pure.mpr fun _ => scrubbed_afterUse hs₂ _ _ _
            · obtain rfl := Except.ok.inj hr
              refine wp_ctxFail_of fun rest d hc _ _ hred => ?_
              have hidle : Unasked (read ++ (put ++ rest)) :=
                hread.unasked.append ((unasked_allocs hput).append (Idle.calm hc))
              obtain ⟨token', ht', hm⟩ := hp.good root _ rfl hidle.bearers (hskip hcalm hred)
              obtain rfl : token = token' := Option.some.inj (ht.symm.trans ht')
              exact absurd hm (not_stored hread hput hmem)
          · intro put rc s₄ h
            rcases h.2 with ⟨hr, -⟩ | ⟨hr, -⟩
            · exact nomatch hr
            · exact nomatch hr
        · intro read rc s₃ h
          obtain ⟨-, ⟨v, hv⟩, -⟩ := h
          exact nomatch hv
    · intro es₁ rc s₂ hp hr
      exact absurd (hskip hcalm hr) (hp.failed rc rfl)
  · intro es rc s₁ h hr
    exact absurd hr (not_redeemed (Idle.calm h.1).bearers)

/-- The token engine spends the passphrase. -/
theorem redemption_acquiring (cfg : Config) : Acquiring cfg (fun _ => True) redemption where
  toConfirming := confirming_of fun _ _ _ => redemption_idle
  challenge := by
    have hn : Neutral (Emits fun e : Event => e.bearer = none) := emits_neutral fun e he =>
      Event.bearer_none (Idle.timed.quiet .initial e he e (by simp))
    have hnone : Keeps (Emits fun e : Event => e.bearer = none) (requestPlainJson cfg .get authTokenPath none) := by
      refine .bind (hn.requestRawWith_plain (fun _ => emits_nil) (fun _ => ?_) fun _ _ a => ?_) fun _ => hn.parseBody ..
      · exact (Idle.checkinRun _).emits fun _ => Event.bearer_none
      · refine emits_single ?_
        cases a with
        | done resp => simp [Event.bearer, buildRequest]
        | failed why expired detail => rfl
    refine ⟨fun s => wp_mono (wp_and (Spending.authOnly.requestPlainJson.run s) (hnone.run s)) ?_⟩
    intro es r s' h
    exact ⟨h.1, fun _ hr => absurd hr (not_redeemed h.2)⟩
  username lbl := .modify fun s => redemption_idle
    (Spending.rel_modify (fun _ => rfl) (fun _ => rfl) fun _ => .inl rfl) (Idle.calm .nil)
  redeem scope ejwt now _ := by
    have hs : Engine cfg (fun _ => True) spending := Spending.engine
    refine ⟨fun s es r s' hrun => ⟨(hs.redeem _ _ _ trivial).run s es r s' hrun, ?_⟩⟩
    exact fun hs => wp_redeemEjwt_scrubs cfg scope ejwt now hs es r s' hrun

/-- What the engine does to acquire a token goes by the session that there is. -/
theorem wp_ensureToken_of {cfg : Config} {K : Contract Op Ans Ctx} (ht : Timed K) (hmark : ∀ m, Keeps K (mark m))
    {scope : Bytes} {s : Ctx} (hmob : ∀ a, s.auth = some a → a.mobile = true → Keeps K (acquireMobile cfg scope))
    (hpass : ∀ a pw, s.auth = some a → a.mobile = false → a.passphrase = some pw →
      ∀ now, Keeps K (acquirePassphrase cfg scope now)) : wp (ensureToken cfg scope) (fun es _ s' => K.rel s es s') s := by
  have hrest : ∀ {x : Cmd Bytes} (now : Int), Keeps K x →
      wp x (fun es _ s' => K.rel s ([⟨.authNow, now⟩] ++ ([] ++ es)) s') s :=
    fun now hx => wp_mono (hx.run s) fun es _ _ h => K.trans (ht.clock s ⟨.authNow, now⟩ rfl) h
  unfold ensureToken
  rw [wp_bind, wp_authNow]
  intro now
  dsimp only
  rw [wp_bind, wp_getCtx]
  dsimp only
  split
  · exact hrest now (.bind (hmark _) fun _ => .pure _)
  · split
    · rename_i a ha
      rw [wp_ite]
      split
      · exact hrest now (hmob a ha ‹_›)
      · rename_i hm
        split
        · rename_i pw hpw
          exact hrest now (hpass a pw ha (by simpa using hm) hpw now)
        · exact hrest now (ht.ctxFail ..)
    · exact hrest now (ht.ctxFail ..)

/-- Without a passphrase no token is acquired but through a push. -/
theorem wp_ensureToken_unasked (cfg : Config) (scope : Bytes) {s : Ctx} (hs : s.Scrubbed) :
    wp (ensureToken cfg scope) (fun es _ _ => Unasked es) s := by
  have hidle : Confirming cfg (fun _ => True) (Emits fun e : Event => e.atLogin = false) :=
    confirming_of fun _ _ _ _ h => h
  apply wp_ensureToken_of Idle.timed Idle.mark
  · exact fun _ _ _ => hidle.acquireMobile trivial
  · intro a pw ha _ hpw
    unfold Ctx.Scrubbed at hs
    rw [ha, Option.bind_some, hpw] at hs
    cases hs

theorem thrift_ensureToken (cfg : Config) (scope : Bytes) : Keeps thrift (ensureToken cfg scope) := by
  refine ⟨fun s es r s' hrun => ⟨?_, fun _ hn => ?_⟩⟩
  · exact ((redemption_acquiring cfg).ensureToken trivial).run s es r s' hrun
  · exact wp_ensureToken_unasked cfg scope hn es r s' hrun

/-- A miss or an expiry then ends the request before anything is sent. -/
theorem wp_requestRaw_spent (cfg : Config) (method : Method) (path : Bytes) (body : Option Bytes) (scope : Bytes)
    (ov : TlsOverride) {s : Ctx} (hs : s.Scrubbed) (hm : s.auth.any (·.mobile) = false) :
    wp (requestRaw cfg method path body (some scope) ov) (fun es r _ => ∀ now : Int,
      es.head? = some ⟨.authNow, now⟩ → s.freshEntry scope now = none →
      r = .error .authExpired ∧ es = [⟨.authNow, now⟩]) s := by
  unfold requestRaw requestRawWith
  rw [wp_ite]
  split
  · rw [wp_ctxFail]
    intro copied now hnow
    exact nomatch hnow
  · unfold acquireBearer ensureToken
    simp only [Cmd.bind_assoc]
    rw [wp_bind, wp_authNow]
    intro now
    dsimp only
    rw [wp_bind, wp_getCtx]
    dsimp only
    cases hf : s.freshEntry scope now with
    | some e =>
      intro es r s' _ n hn hmiss
      obtain rfl : now = n := by simpa using hn
      rw [hf] at hmiss
      exact nomatch hmiss
    | none =>
      have hexp : ∀ fmt, wp (ctxFail .authExpired 0 none fmt : Cmd Bytes) (fun es r _ => ∀ n : Int,
          ([⟨.authNow, now⟩] ++ ([] ++ es) : List Event).head? = some ⟨.authNow, n⟩ → s.freshEntry scope n = none →
          r = .error .authExpired ∧ [⟨.authNow, now⟩] ++ ([] ++ es) = ([⟨.authNow, n⟩] : List Event)) s := by
        intro fmt
        rw [wp_ctxFail]
        intro copied n hn _
        obtain rfl : now = n := by simpa using hn
        exact ⟨rfl, rfl⟩
      dsimp only
      cases ha : s.auth with
      | none =>
        dsimp only
        simp only [ctxFail_bind]
        exact hexp _
      | some a =>
        unfold Ctx.Scrubbed at hs
        rw [ha] at hs hm
        dsimp only [Option.any_some, Option.bind_some] at hs hm ⊢
        rw [hm, hs]
        simp only [Bool.false_eq_true, if_false, ctxFail_bind]
        exact hexp _

end EncedoHem
