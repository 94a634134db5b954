import EncedoHem.Api
import EncedoHem.Proofs.Exchange

namespace EncedoHem
open Text Dialogue

def Event.isAcquire : Event → Bool
  | ⟨.mark .acquire, _⟩ => true
  | _ => false

/-- The body of an answered challenge. -/
def Event.challenge : Event → Option Bytes
  | ⟨.send none req, .done r⟩ =>
    if req.method = .get ∧ req.path = authTokenPath ∧ req.tlsOverride = .default ∧ r.fault = none
    then r.body else none
  | _ => none

def Event.authReading : Event → Option Int
  | ⟨.authNow, n⟩ => some n
  | _ => none

def Event.wallReading : Event → Option Int
  | ⟨.wallTime, n⟩ => some n
  | _ => none

/-- A request of the login exchange or of the ext-login pair that a 403 of the device
answers while its clock is unset. -/
def Request.needsClock (req : Request) : Prop :=
  (req.method = .get ∧ req.path = authTokenPath) ∨
    (req.method = .post ∧ (req.path = extRequestPath ∨ req.path = extTokenPath))

/-- What is on record right before a check-in that no client asked for, `pre` being
the events of the call so far and `s` the context at its start. -/
inductive Cause (cfg : Config) (s : Ctx) (pre : List Event) : CheckinReason → Prop where
  | certificate (scope : Option Bytes) (req : Request) (why : SendFailure) (detail : Bytes)
      (auto : cfg.noAutoCheckin = false)
      (last : latest Event.loud pre = some ⟨.send scope req, .failed why true detail⟩)
      (plain : req.tlsOverride = .default) : Cause cfg s pre .recovery
  | forbidden (req : Request) (r : Response) (auto : cfg.noAutoCheckin = false)
      (last : lastDone pre = some (req, r)) (status : r.status = 403) (kind : req.needsClock) :
      Cause cfg s pre .recovery
  | loginDrift (req : Request) (r : Response) (body : Bytes) (challenge : Json) (exp now : Int)
      (auto : cfg.noAutoCheckin = false) (last : lastDone pre = some (req, r))
      (status : r.status = 401) (kind : req.method = .post ∧ req.path = authTokenPath)
      (answered : latest Event.challenge pre = some body)
      (parsed : jsonParse (cstr body) = some challenge)
      (member : challenge.getInt64 (lit "exp") = some exp)
      (reading : latest Event.authReading pre = some now)
      (drift : 60 < exp - 60 - now ∨ exp - 60 - now < -60) : Cause cfg s pre .recovery
  | brokerDrift (req : Request) (r : Response) (url authreq epk : Bytes) (iat now : Int)
      (auto : cfg.noAutoCheckin = false) (last : lastDone pre = some (req, r))
      (status : r.status = 401) (kind : req.method = .post ∧ req.path = url ++ lit "/event/new")
      (posted : req.body = some (printValue (.obj [(lit "authreq", .str authreq),
        (lit "epk", .str epk)])))
      (claim : claimOf authreq (lit "iat") = some iat)
      (reading : latest Event.wallReading pre = some now)
      (drift : 2 < iat - now ∨ iat - now < -15) : Cause cfg s pre .recovery
  | proactive (option : cfg.checkinOnLogin = true) (first : s.checkinOnLoginDone = false)
      (last : latest Event.loud pre = some ⟨.mark .acquire, ()⟩)
      (once : pre.countP Event.isAcquire = 1) : Cause cfg s pre .proactive

/-- The law of check-ins for what a call does from `s`, outside of a check-in. -/
structure Justified (cfg : Config) (s : Ctx) (es : List Event) (s' : Ctx) : Prop where
  guard : s'.inCheckin = false
  paired : running false es = some false
  kept : s.checkinOnLoginDone = true → s'.checkinOnLoginDone = true
  latched : cfg.checkinOnLogin = true → ∀ e ∈ es, e.isAcquire = true → s'.checkinOnLoginDone = true
  causes : ∀ pre why post, es = pre ++ ⟨.mark (.checkin why), ()⟩ :: post → why ≠ .explicit →
    Cause cfg s pre why

/-- A second check-in starts only once the first is over. -/
theorem done_between {pre mid post : List Event} {why why' : CheckinReason} {b : Bool}
    (h : running false (pre ++ ⟨.mark (.checkin why), ()⟩ ::
      (mid ++ ⟨.mark (.checkin why'), ()⟩ :: post)) = some b) :
    (⟨.mark .checkinDone, ()⟩ : Event) ∈ mid := by
  by_contra hd
  have hrun : ∀ es : List Event, (⟨.mark .checkinDone, ()⟩ : Event) ∉ es →
      running true es = some true ∨ running true es = none := by
    intro es
    induction es with
    | nil => exact fun _ => .inl rfl
    | cons e es ih =>
      intro hn
      have hes := ih fun hm => hn (List.mem_cons_of_mem e hm)
      obtain ⟨op, ans⟩ := e
      cases op with
      | mark m =>
        cases m with
        | checkin why => exact .inr rfl
        | checkinDone => exact absurd List.mem_cons_self hn
        | _ => exact hes
      | _ => exact hes
  have hmid : running true (mid ++ ⟨.mark (.checkin why'), ()⟩ :: post) = none := by
    rw [running_append]
    rcases hrun mid hd with hm | hm
    · rw [hm]
      rfl
    · rw [hm]
      rfl
  rw [running_append] at h
  cases hp : running false pre with
  | none =>
    rw [hp] at h
    exact nomatch h
  | some c =>
    rw [hp] at h
    cases c with
    | true => exact nomatch h
    | false =>
      have h : running true (mid ++ ⟨.mark (.checkin why'), ()⟩ :: post) = some b := h
      rw [hmid] at h
      exact nomatch h

/-- A cause stays one when the call has done more before it, provided that this
was within the law itself. -/
theorem Cause.prepend {cfg : Config} {s s₁ : Ctx} {es pre : List Event} {why : CheckinReason}
    (h : Cause cfg s₁ pre why) (hj : Justified cfg s es s₁) : Cause cfg s (es ++ pre) why := by
  cases h with
  | certificate scope req why detail auto last plain =>
    exact .certificate scope req why detail auto (latest_append_some last) plain
  | forbidden req r auto last status kind =>
    exact .forbidden req r auto (lastDone_append last) status kind
  | loginDrift req r body challenge exp now auto last status kind answered parsed member reading drift =>
    exact .loginDrift req r body challenge exp now auto (lastDone_append last) status kind
      (latest_append_some answered) parsed member (latest_append_some reading) drift
  | brokerDrift req r url authreq epk iat now auto last status kind posted claim reading drift =>
    exact .brokerDrift req r url authreq epk iat now auto (lastDone_append last) status kind posted
      claim (latest_append_some reading) drift
  | proactive option first last once =>
    have hnone : es.countP Event.isAcquire = 0 := by
      refine List.countP_eq_zero.mpr fun e he ha => ?_
      have hl := hj.latched option e he ha
      rw [first] at hl
      exact nomatch hl
    refine .proactive option ?_ (latest_append_some last) (by rw [List.countP_append, hnone, once])
    by_contra hs
    have hk := hj.kept (by simpa using hs)
    rw [first] at hk
    exact nomatch hk

theorem Justified.trans {cfg : Config} {s s₁ s₂ : Ctx} {es es' : List Event}
    (h : Justified cfg s es s₁) (h' : Justified cfg s₁ es' s₂) : Justified cfg s (es ++ es') s₂ where
  guard := h'.guard
  paired := by
    rw [running_append, h.paired]
    exact h'.paired
  kept hs := h'.kept (h.kept hs)
  latched hc e he ha := by
    rcases List.mem_append.mp he with he | he
    · exact h'.kept (h.latched hc e he ha)
    · exact h'.latched hc e he ha
  causes pre why post he hw := by
    rcases split_append he with ⟨mid, rfl, rfl⟩ | ⟨mid, rfl, rfl⟩
    · exact h.causes pre why mid rfl hw
    · exact (h'.causes mid why post rfl hw).prepend h

/-- Events without a mark, and a context with the same guard and latch. -/
theorem Justified.unmarked {cfg : Config} {s s' : Ctx} {es : List Event}
    (h : ∀ e ∈ es, e.isMark = false) (hi : s'.inCheckin = false)
    (hl : s'.checkinOnLoginDone = s.checkinOnLoginDone) : Justified cfg s es s' where
  guard := hi
  paired := by
    refine running_inner (fun e he => ?_) false
    have hm := h e he
    obtain ⟨op, ans⟩ := e
    cases op with
    | mark m => exact nomatch hm
    | _ => rfl
  kept hs := hl.trans hs
  latched _ e he ha := by
    have hm := h e he
    obtain ⟨op, ans⟩ := e
    cases op with
    | mark m => exact nomatch hm
    | _ => exact nomatch ha
  causes pre why post he _ := by
    have hm := h ⟨.mark (.checkin why), ()⟩ (by rw [he]; simp)
    exact nomatch hm

/-- The law of check-ins, for calls made outside of a check-in. -/
def justified (cfg : Config) : Contract Op Ans Ctx where
  rel s es s' := s.inCheckin = false → Justified cfg s es s'
  refl _ hs := .unmarked (fun _ he => absurd he List.not_mem_nil) hs rfl
  trans h h' hs := (h hs).trans (h' (h hs).guard)

theorem LegEvent.isMark {e : Event} (h : LegEvent e) : e.isMark = false := by
  obtain ⟨op, ans⟩ := e
  cases op with
  | mark m => exact nomatch h
  | _ => rfl

theorem CheckinEvents.running {why : CheckinReason} {check : List Event}
    (h : CheckinEvents why check) : running false check = some false := by
  obtain ⟨inner, rfl, hi⟩ := h
  have hin : EncedoHem.running true inner = some true := by
    refine running_inner (fun e he => ?_) true
    have hm := (hi e he).isMark
    obtain ⟨op, ans⟩ := e
    cases op with
    | mark m => exact nomatch hm
    | _ => rfl
  show EncedoHem.running true (inner ++ [⟨.mark .checkinDone, ()⟩]) = some false
  rw [running_append, hin]
  rfl

/-- The only check-in started by the events of a check-in is the first of them. -/
theorem CheckinEvents.first {why why' : CheckinReason} {check pre post : List Event}
    (h : CheckinEvents why check) (he : check = pre ++ ⟨.mark (.checkin why'), ()⟩ :: post) :
    pre = [] ∧ why' = why := by
  obtain ⟨inner, rfl, hi⟩ := h
  cases pre with
  | nil =>
    have hm := (List.cons.inj he).1
    simp only [Event.mk.injEq, Op.mark.injEq, Mark.checkin.injEq] at hm
    exact ⟨rfl, hm.1.symm⟩
  | cons x pre =>
    have hmem : (⟨.mark (.checkin why'), ()⟩ : Event) ∈ inner ++ [⟨.mark .checkinDone, ()⟩] := by
      rw [(List.cons.inj he).2]
      simp
    rcases List.mem_append.mp hmem with hm | hm
    · exact nomatch (hi _ hm).isMark
    · simp at hm

/-- A check-in that has its cause on record keeps the law. -/
theorem Justified.check {cfg : Config} {s s₁ s₂ : Ctx} {es check : List Event} {why : CheckinReason}
    (h : Justified cfg s es s₁) (hw : why ≠ .explicit → Cause cfg s es why)
    (hc : CheckinEvents why check) (hf : (s₁.setInCheckin false).Untouched s₂) :
    Justified cfg s (es ++ check) s₂ where
  guard := hf.inCheckin
  paired := by
    rw [running_append, h.paired]
    exact hc.running
  kept hs := hf.latch.trans (h.kept hs)
  latched ho e he ha := by
    rcases List.mem_append.mp he with he | he
    · exact hf.latch.trans (h.latched ho e he ha)
    · obtain ⟨inner, rfl, hi⟩ := hc
      rcases List.mem_cons.mp he with rfl | he
      · exact nomatch ha
      · rcases List.mem_append.mp he with he | he
        · have hm := (hi e he).isMark
          obtain ⟨op, ans⟩ := e
          cases op with
          | mark m => exact nomatch hm
          | _ => exact nomatch ha
        · rw [List.mem_singleton.mp he] at ha
          exact nomatch ha
  causes pre why' post he hx := by
    rcases split_append he with ⟨mid, rfl, rfl⟩ | ⟨mid, rfl, hm⟩
    · exact h.causes pre why' mid rfl hx
    · obtain ⟨rfl, rfl⟩ := hc.first hm
      rw [List.append_nil]
      exact hw hx

/-- The dispatches of a request that the context verifies keep the law: what
starts their check-in is the failed dispatch right before it. -/
theorem Tried.justified {cfg : Config} {s s' : Ctx} {scope : Option Bytes} {req : Bool → Request}
    {sent : List Event} {last : Option Answer} (h : Tried cfg s scope req sent last)
    (hp : ∀ fresh, (req fresh).tlsOverride = .default) (hs : s.inCheckin = false)
    (hf : s.Untouched s') : Justified cfg s sent s' := by
  have hsend : ∀ (s₁ s₂ : Ctx) (fresh : Bool) (a : Answer), s₂.inCheckin = false →
      s₂.checkinOnLoginDone = s₁.checkinOnLoginDone →
      Justified cfg s₁ (pause cfg ++ [(⟨.send scope (req fresh), a⟩ : Event)]) s₂ := by
    intro s₁ s₂ fresh a hi hl
    refine .unmarked (fun e he => ?_) hi hl
    rcases List.mem_append.mp he with he | he
    · have hq := Calm.pause cfg e he
      obtain ⟨op, ans⟩ := e
      cases op with
      | mark m => exact nomatch hq
      | _ => rfl
    · rw [List.mem_singleton.mp he]
      rfl
  have hi : s'.inCheckin = false := hf.inCheckin.trans hs
  have hcheck : ∀ (why : SendFailure) (detail : Bytes) (check : List Event), Recovers cfg s →
      CheckinEvents .recovery check → Justified cfg s
        (pause cfg ++ [⟨.send scope (req false), .failed why true detail⟩] ++ check) s' := by
    intro why detail check hr hc
    refine (hsend s s false _ hs rfl).check (fun _ => ?_) hc ⟨hf.auth, hi, hf.latch, hf.handles⟩
    exact .certificate scope (req false) why detail hr.1 (latest_append_some rfl) (hp false)
  cases h with
  | unsent ht => exact .unmarked (fun _ he => absurd he List.not_mem_nil) hi hf.latch
  | once a ha => exact hsend s s' false a hi hf.latch
  | stuck why detail check hr hc => exact hcheck why detail check hr hc
  | resent why detail check a hr hc _ hl =>
    exact (hcheck why detail check hr hc).trans (hsend s' s' true a hi rfl)

theorem Justified.calm {cfg : Config} {s s' : Ctx} {es : List Event} (h : Calm es)
    (hi : s'.inCheckin = false) (hl : s'.checkinOnLoginDone = s.checkinOnLoginDone) :
    Justified cfg s es s' := by
  refine .unmarked (fun e he => ?_) hi hl
  have hq := h e he
  obtain ⟨op, ans⟩ := e
  cases op with
  | mark m => exact nomatch hq
  | _ => rfl

theorem AskedJson.justified {cfg : Config} {method : Method} {path : Bytes} {body : Option Bytes}
    {s s' : Ctx} {es : List Event} {r : Except Rc Json} (h : AskedJson cfg method path body s es r s') :
    (EncedoHem.justified cfg).rel s es s' := by
  intro hs
  obtain ⟨sent, rest, last, rfl, hc, ht, -⟩ := h.run
  have hi : s'.inCheckin = false := h.frame.inCheckin.trans hs
  exact (ht.justified (fun _ => rfl) hs h.frame).trans (.calm hc hi rfl)

namespace Lawful
variable {cfg : Config} {α : Type}

theorem event {s s' : Ctx} {e : Event} (h : e.isMark = false) (hi : s'.inCheckin = s.inCheckin)
    (hl : s'.checkinOnLoginDone = s.checkinOnLoginDone) : (justified cfg).rel s [e] s' :=
  fun hs => .unmarked (fun _ hd => List.mem_singleton.mp hd ▸ h) (hi.trans hs) hl

theorem still {s s' : Ctx} (hi : s'.inCheckin = s.inCheckin)
    (hl : s'.checkinOnLoginDone = s.checkinOnLoginDone) : (justified cfg).rel s [] s' :=
  fun hs => .unmarked (fun _ hd => absurd hd List.not_mem_nil) (hi.trans hs) hl

theorem timed : Timed (justified cfg) where
  quiet s e he := by
    refine event ?_ rfl rfl
    obtain ⟨op, ans⟩ := e
    cases op with
    | mark m => exact nomatch he
    | _ => rfl
  error s d := still rfl rfl
  clock s e he := by
    refine event ?_ rfl rfl
    obtain ⟨op, ans⟩ := e
    cases op with
    | mark m => exact nomatch he
    | _ => rfl

theorem neutral : Neutral (justified cfg) := timed.toNeutral

theorem modifyAuth (f : Auth → Auth) : Keeps (justified cfg) (modifyAuth f) :=
  .modify fun _ => still rfl rfl

/-- A mark that is neither one of a check-in nor the start of an acquisition. -/
theorem mark {m : Mark} (hb : Event.brackets ⟨.mark m, ()⟩ = false) (ha : m ≠ .acquire) :
    Keeps (justified cfg) (mark m) := by
  refine .ask fun s o hs => ⟨hs, ?_, fun h => h, ?_, ?_⟩
  · refine running_inner (fun e he => ?_) false
    rw [List.mem_singleton.mp he]
    exact hb
  · intro _ e he hq
    rw [List.mem_singleton.mp he] at hq
    cases m with
    | acquire => exact absurd rfl ha
    | _ => exact nomatch hq
  · intro pre why post he _
    have hm : (⟨.mark (.checkin why), ()⟩ : Event) ∈ [(⟨.mark m, o⟩ : Event)] := by
      rw [he]
      simp
    rw [← List.mem_singleton.mp hm] at hb
    exact nomatch hb

theorem notifySend (method : Method) (url : Option Bytes) (subpath : Bytes) (body : Option Bytes) :
    Keeps (justified cfg) (notifySend cfg method url subpath body) := by
  refine .ite (fun _ => neutral.ctxFail ..) fun _ => .ite (fun _ => neutral.ctxFail ..) fun _ => ?_
  refine .bind neutral.need fun _ => .bind (.ask fun s a => event rfl rfl rfl) fun a => ?_
  split
  · exact neutral.ctxFail ..
  · exact .ite (fun _ => neutral.ctxFail ..) fun _ => .pure _

theorem requestPlain (method : Method) (path : Bytes) (body : Option Bytes) :
    Keeps (justified cfg) (requestPlain cfg method path body .default) := by
  refine ⟨fun s => wp_mono (wp_requestPlain cfg method path body s) ?_⟩
  rintro es r s' ⟨hf, sent, rest, last, rfl, hc, ht, -⟩ hs
  exact (ht.justified (fun _ => rfl) hs hf).trans (.calm hc (hf.inCheckin.trans hs) rfl)

theorem requestPlainJson (method : Method) (path : Bytes) (body : Option Bytes) :
    Keeps (justified cfg) (requestPlainJson cfg method path body) :=
  .bind (requestPlain ..) fun _ => neutral.parseBody ..

/-- A recovery whose cause is on record. -/
theorem recovery_after {s₀ s : Ctx} {h : List Event} (hh : (justified cfg).rel s₀ h s)
    (hc : Cause cfg s₀ h .recovery) :
    wp (recoveryCheckin cfg) (fun es _ s' => (justified cfg).rel s₀ (h ++ es) s') s :=
  wp_mono (wp_checkinRun cfg .recovery s) fun _ _ _ hr hs =>
    (hh hs).check (fun _ => hc) hr.events hr.frame

/-- The cause that a failed request of the login exchange or the ext-login pair leaves. -/
theorem forbidden_cause {method : Method} {path : Bytes} {body : Option Bytes} {s s' : Ctx}
    {es : List Event} {rc : Rc} (h : AskedJson cfg method path body s es (.error rc) s')
    (h403 : s'.lastError.httpStatus = 403) (auto : cfg.noAutoCheckin = false)
    (kind : ∀ fresh, (buildRequest cfg method path body none .default fresh).needsClock) :
    Cause cfg s es .recovery := by
  obtain ⟨fresh, r, hl, hst, -⟩ := h.blame (by omega)
  exact .forbidden _ r auto hl (hst.trans h403) (kind fresh)

theorem extLoginPost {path body : Bytes} (hp : path = extRequestPath ∨ path = extTokenPath) :
    Keeps (justified cfg) (extLoginPost cfg path body) := by
  refine ⟨fun s => ?_⟩
  unfold EncedoHem.extLoginPost
  rw [wp_bind, wp_attempt]
  refine wp_mono (wp_requestPlainJson cfg .post path (some body) s) fun es r s₁ ha => ?_
  have hj : (justified cfg).rel s es s₁ := ha.justified
  dsimp only
  rw [wp_bind, wp_getCtx]
  cases r with
  | ok root => exact (Keeps.pure root).after (by simpa using hj)
  | error rc =>
    dsimp only
    rw [wp_ite]
    split
    · rename_i hg
      rw [wp_bind, wp_attempt]
      have hc : Cause cfg s es .recovery :=
        forbidden_cause ha hg.1 (by simpa using hg.2.1) fun _ => .inr ⟨rfl, hp⟩
      refine wp_mono (recovery_after hj hc) fun es' crc s₂ hk => ?_
      dsimp only
      simp only [List.nil_append, ← List.append_assoc]
      cases crc with
      | error e => exact Keeps.after (.bind .get fun _ => neutral.ctxFail ..) hk
      | ok u => exact Keeps.after (requestPlainJson ..) hk
    · exact (Keeps.throw rc).after (by simpa using hj)

theorem machinery : Machinery cfg (justified cfg) where
  toNeutral := neutral
  broker := notifySend
  plain method path body _ := requestPlain method path body
  extPost _ _ hp := extLoginPost hp

end Lawful

end EncedoHem
