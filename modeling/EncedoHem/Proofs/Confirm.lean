import EncedoHem.Proofs.Acquisition
import EncedoHem.Proofs.Expiry

namespace EncedoHem
open Text Dialogue

/-- What the broker says of the event `id`, when it answers a look at it with a 2xx other
than 202 and with an object. -/
def Event.told (url : Option Bytes) (id : Bytes) : Event → Option Json
  | ⟨.send none req, .done r⟩ =>
    if req.method = .get ∧ req.path = url.getD defaultNotifyUrl ++ (lit "/event/check/" ++ id) ∧
        req.tlsOverride = .verify ∧ 200 ≤ r.status ∧ r.status < 300 ∧ r.status ≠ 202 then
      ((r.body.map cstr).bind jsonParse).filter (·.isObject)
    else none
  | _ => none

/-- The user approved: the broker hands out a reply, and no denial. -/
def Approval (url : Option Bytes) (id : Bytes) (e : Event) : Prop :=
  ∃ root, e.told url id = some root ∧ root.has (lit "deny") = false ∧
    (root.getString (lit "authreply")).isSome = true

def Denial (url : Option Bytes) (id : Bytes) (e : Event) : Prop :=
  ∃ root, e.told url id = some root ∧ root.has (lit "deny") = true

def Request.isRedemption (req : Request) : Bool :=
  req.path = extTokenPath && req.tlsOverride ≠ .verify

/-- A dispatch to the device's ext/token, or the mark that stands before such dispatches. -/
def Event.redeems : Event → Bool
  | ⟨.send _ req, _⟩ => req.isRedemption
  | ⟨.mark (.redeem _), _⟩ => true
  | _ => false

/-- The bearer that the device answers a redemption with. -/
def Event.minted : Event → Option Bytes
  | ⟨.send _ req, .done r⟩ =>
    if req.isRedemption ∧ r.fault = none then
      ((r.body.map cstr).bind jsonParse).bind (·.getString (lit "token"))
    else none
  | _ => none

/-- An error that says neither that the user rejected nor that time ran out. -/
structure Rc.Ordinary (rc : Rc) : Prop where
  notRejected : rc ≠ .userRejected
  notTimeout : rc ≠ .confirmTimeout

theorem ordinary_send (why : SendFailure) : why.rc.Ordinary := by
  cases why with
  | unreachable => exact ⟨(fun h => nomatch h), fun h => nomatch h⟩
  | network => exact ⟨(fun h => nomatch h), fun h => nomatch h⟩
  | nomem => exact ⟨(fun h => nomatch h), fun h => nomatch h⟩
  | arg => exact ⟨(fun h => nomatch h), fun h => nomatch h⟩

theorem ordinary_status (n : Int) : (mapHttpStatus n).Ordinary := by
  have hall : mapHttpStatus n = .authFailed ∨ mapHttpStatus n = .scopeDenied ∨
      mapHttpStatus n = .notFound ∨ mapHttpStatus n = .device ∨ mapHttpStatus n = .protocol := by
    unfold mapHttpStatus
    split
    · exact .inl rfl
    · split
      · exact .inr (.inl rfl)
      · split
        · exact .inr (.inr (.inl rfl))
        · split
          · exact .inr (.inr (.inr (.inl rfl)))
          · exact .inr (.inr (.inr (.inr rfl)))
  rcases hall with h | h | h | h | h
  all_goals rw [h]; exact ⟨(fun h => nomatch h), fun h => nomatch h⟩

theorem ordinary_fault {r : Response} {rc : Rc} (h : r.fault = some rc) : rc.Ordinary := by
  have hp : Rc.protocol.Ordinary := ⟨(fun h => nomatch h), fun h => nomatch h⟩
  unfold Response.fault at h
  split at h
  · exact Option.some.inj h ▸ ordinary_status _
  · split at h
    · exact Option.some.inj h ▸ hp
    · exact Option.some.inj h ▸ hp
    · exact nomatch h

theorem Rc.ofTransport.ordinary {rc : Rc} (h : rc.ofTransport) : rc.Ordinary := by
  obtain ⟨why, rfl⟩ := h
  exact ordinary_send why

theorem AskedJson.ordinary {cfg : Config} {method : Method} {path : Bytes} {body : Option Bytes}
    {s s' : Ctx} {es : List Event} {rc : Rc} (h : AskedJson cfg method path body s es (.error rc) s') :
    rc.Ordinary := by
  obtain ⟨sent, rest, last, rfl, hc, ht, hv⟩ := h.run
  cases hv with
  | bad r _ _ _ hf _ => exact ordinary_fault hf
  | lost _ _ _ _ _ hr _ => exact hr.ordinary
  | garbled _ _ _ _ _ _ _ _ _ => exact ⟨(fun h => nomatch h), fun h => nomatch h⟩

/-- Nothing but a denial is reported as one, and nothing but a timeout as one. -/
abbrev Throwing {α : Type} (x : Cmd α) : Prop := Throws x Rc.Ordinary

namespace Throwing
variable {α : Type} {cfg : Config}

theorem ctxFail {rc : Rc} {status : Int} {payload : Option Bytes} {fmt : List Piece}
    (h : rc.Ordinary) : Throwing (ctxFail rc status payload fmt : Cmd α) :=
  ⟨fun _ => wp_ctxFail_of fun _ _ _ _ _ _ he => Except.error.inj he ▸ h⟩

theorem protocol {status : Int} {payload : Option Bytes} {fmt : List Piece} :
    Throwing (EncedoHem.ctxFail .protocol status payload fmt : Cmd α) :=
  ctxFail ⟨(fun h => nomatch h), fun h => nomatch h⟩

theorem outOfMemory : Throwing (outOfMemory : Cmd α) :=
  ctxFail ⟨(fun h => nomatch h), fun h => nomatch h⟩

theorem need : Throwing need := .bind (.ask Op.alloc) fun _ => .ite (fun _ => .pure _) fun _ => outOfMemory

theorem requestPlainJson (method : Method) (path : Bytes) (body : Option Bytes) :
    Throwing (requestPlainJson cfg method path body) :=
  ⟨fun s => wp_mono (wp_requestPlainJson cfg method path body s) fun _ _ _ h _ hr =>
    (hr ▸ h : AskedJson cfg method path body s _ (.error _) _).ordinary⟩

theorem notifySend (method : Method) (url : Option Bytes) (subpath : Bytes) (body : Option Bytes) :
    Throwing (notifySend cfg method url subpath body) := by
  refine ⟨fun s => wp_mono (wp_notifySend cfg method url body subpath s) fun es r s' h rc hr => ?_⟩
  subst hr
  cases h with
  | bad _ _ r _ _ _ _ _ => exact ordinary_status _
  | lost _ _ why _ _ _ _ _ _ => exact ordinary_send why
  | unsent _ _ _ _ hr _ => exact hr.ordinary

theorem notifyEventCheck (url : Option Bytes) (eventid : Bytes) :
    Throwing (notifyEventCheck cfg url eventid) := by
  refine .bind (.modify _) fun _ => .bind ?_ fun polled => ?_
  · unfold notifyPoll
    split
    · exact ctxFail ⟨(fun h => nomatch h), fun h => nomatch h⟩
    · refine .bind (notifySend ..) fun ⟨status, body⟩ => .bind need fun _ => ?_
      refine .ite (fun _ => .pure _) fun _ => .bind ?_ fun root => ?_
      · cases body with
        | none => exact .pure _
        | some b => exact .bind (.ask Op.alloc) fun _ => .pure _
      · split
        · exact protocol
        · exact .pure _
  · split
    · exact .pure _
    · refine .ite (fun _ => .pure _) fun _ => ?_
      split
      · exact protocol
      · exact .bind need fun _ => .pure _

theorem extLoginPost (path body : Bytes) : Throwing (extLoginPost cfg path body) := by
  refine .attempt_bind (requestPlainJson ..) (fun _ => .bind .get fun _ => .pure _) fun rc hrc => ?_
  refine .bind .get fun s => .ite (fun _ => .bind (.attempt _) fun crc => ?_) fun _ => .throw hrc
  split
  · exact .bind .get fun _ => ctxFail hrc
  · exact requestPlainJson ..

theorem extToken (authreply : Bytes) : Throwing (extToken cfg authreply) := by
  have hauth : Rc.authFailed.Ordinary := ⟨(fun h => nomatch h), fun h => nomatch h⟩
  have harg : Rc.arg.Ordinary := ⟨(fun h => nomatch h), fun h => nomatch h⟩
  refine .bind (.modify _) fun _ => .ite (fun _ => ctxFail harg) fun _ => ?_
  refine .bind (.bind need fun _ => .pure _) fun body => ?_
  refine .attempt_bind (extLoginPost ..) (fun root => .bind .get fun s => ?_) fun rc hrc => .bind .get fun s => ?_
  · dsimp only
    split
    · exact protocol
    · exact .bind need fun _ => .pure _
  · exact .ite (fun _ => ctxFail hauth) fun _ => .ite (fun _ => ctxFail hauth) fun _ => .throw hrc

theorem authCacheSeed (scope token : Bytes) : Throwing (authCacheSeed scope token) := by
  refine .bind ?_ fun _ => .bind ?_ fun exp => .bind ?_ fun e => .bind ?_ fun put => ?_
  · exact ⟨fun s => wp_needAuth (fun _ _ _ he => nomatch he) (fun _ _ _ _ he => nomatch he)
      fun _ _ _ _ _ he => Except.error.inj he ▸ ⟨(fun h => nomatch h), fun h => nomatch h⟩⟩
  · exact ⟨fun s => wp_peekClaim_of fun _ _ _ _ _ he => nomatch he⟩
  · cases exp with
    | some e => exact .pure e
    | none => exact .bind (.ask Op.authNow) fun _ => .pure _
  · exact ⟨fun s => wp_cachePut (fun _ _ _ he => nomatch he) fun _ _ _ he => nomatch he⟩
  · exact .ite (fun _ => .pure _) fun _ => outOfMemory

theorem confirmRedeem (scope authreply : Bytes) : Throwing (confirmRedeem cfg scope authreply) :=
  .bind (.ask (Op.mark _)) fun _ => .bind (extToken _) fun _ => .bind (authCacheSeed ..) fun _ => .pure _

end Throwing

def TellsNot (url : Option Bytes) (id : Bytes) (e : Event) : Prop := e.told url id = none

/-- A command that never looks at the event: the broker tells it nothing of it. -/
abbrev Untold (url : Option Bytes) (id : Bytes) {α : Type} (x : Cmd α) : Prop :=
  Keeps (Emits (TellsNot url id)) x

theorem Calm.untold {es : List Event} (h : Calm es) (url : Option Bytes) (id : Bytes) :
    ∀ e ∈ es, TellsNot url id e := by
  intro e he
  have hq := h e he
  obtain ⟨op, ans⟩ := e
  cases op with
  | send sc req => exact absurd hq Bool.false_ne_true
  | _ => rfl

namespace Untold
variable {url : Option Bytes} {id : Bytes} {cfg : Config} {α : Type}

theorem timed : Timed (Emits (TellsNot url id)) := by
  apply emits_timed
  intro e he
  obtain ⟨op, ans⟩ := e
  cases op with
  | send scope req => exact absurd he Bool.false_ne_true
  | _ => rfl

theorem neutral : Neutral (Emits (TellsNot url id)) := timed.toNeutral

theorem told_send {scope : Option Bytes} {req : Request} {a : Answer}
    (h : req.method ≠ .get ∨ req.tlsOverride ≠ .verify) :
    TellsNot url id ⟨.send scope req, a⟩ := by
  cases scope with
  | some sc => rfl
  | none =>
    cases a with
    | failed why expired detail => rfl
    | done r =>
      refine if_neg ?_
      rintro ⟨hm, -, hv, -⟩
      rcases h with h | h
      · exact h hm
      · exact h hv

theorem mark (m : Mark) : Untold url id (mark m) := .ask fun _ _ => emits_single rfl

theorem recoveryCheckin : Untold url id (recoveryCheckin cfg) := by
  refine Neutral.guardCheckin mark (fun _ _ => emits_nil) (.bind ?_ fun _ => .pure _)
  exact neutral.checkinLegs (fun _ => emits_nil)
    (fun _ _ _ => emits_single (told_send (.inr (fun h => nomatch h))))
    (fun _ _ _ _ => emits_single (told_send (.inl (fun h => nomatch h))))
    fun _ _ _ _ => emits_single (told_send (.inl (fun h => nomatch h)))

theorem requestPlainJson (method : Method) (path : Bytes) (body : Option Bytes) :
    Untold url id (requestPlainJson cfg method path body) := by
  refine .bind ?_ fun _ => neutral.parseBody ..
  exact neutral.requestRawWith_plain (fun _ => emits_nil) (fun _ => recoveryCheckin)
    fun _ _ _ => emits_single (told_send (.inr (fun h => nomatch h)))

theorem extToken (authreply : Bytes) : Untold url id (extToken cfg authreply) :=
  neutral.extToken fun _ => neutral.extLoginPost (requestPlainJson ..) recoveryCheckin

theorem authCacheSeed (scope token : Bytes) : Untold url id (authCacheSeed scope token) := by
  refine .bind ?_ fun _ => .bind (neutral.peekClaim ..) fun exp => .bind (timed.expiryOr exp) fun e =>
    .bind ?_ fun put => .ite (fun _ => .pure _) fun _ => neutral.outOfMemory
  · exact ⟨fun s => wp_needAuth (fun _ _ => emits_nil) (fun _ _ hc => hc.untold url id)
      fun _ _ _ hc => hc.untold url id⟩
  · exact ⟨fun s => wp_cachePut (fun _ hc => hc.untold url id) fun _ hc => hc.untold url id⟩

theorem confirmRedeem (scope authreply : Bytes) : Untold url id (confirmRedeem cfg scope authreply) :=
  .bind (mark _) fun _ => .bind (extToken _) fun _ => .bind (authCacheSeed ..) fun _ => .pure _

end Untold

theorem Calm.no_redeem {es : List Event} (h : Calm es) : ∀ e ∈ es, e.redeems = false := by
  intro e he
  have hq := h e he
  obtain ⟨op, ans⟩ := e
  cases op with
  | send sc req => exact absurd hq Bool.false_ne_true
  | mark m => exact absurd hq Bool.false_ne_true
  | _ => rfl

/-- The request that looks at an event. -/
def lookRequest (cfg : Config) (url : Option Bytes) (id : Bytes) : Request :=
  buildRequest cfg .get (url.getD defaultNotifyUrl ++ (lit "/event/check/" ++ id)) none none .verify false

theorem told_look {cfg : Config} {url : Option Bytes} {id : Bytes} {r : Response} {root : Json} :
    Event.told url id ⟨.send none (lookRequest cfg url id), .done r⟩ = some root ↔
      (200 ≤ r.status ∧ r.status < 300 ∧ r.status ≠ 202) ∧
        ∃ b, r.body.map cstr = some b ∧ jsonParse b = some root ∧ root.isObject = true := by
  have hif : Event.told url id ⟨.send none (lookRequest cfg url id), .done r⟩ =
      if 200 ≤ r.status ∧ r.status < 300 ∧ r.status ≠ 202 then
        ((r.body.map cstr).bind jsonParse).filter (·.isObject) else none := by
    simp [Event.told, lookRequest, buildRequest]
  rw [hif]
  split
  · rename_i hs
    simp only [Option.filter_eq_some_iff, Option.bind_eq_some_iff]
    constructor
    · rintro ⟨⟨b, hb, hj⟩, ho⟩
      exact ⟨hs, b, hb, hj, ho⟩
    · rintro ⟨-, b, hb, hj, ho⟩
      exact ⟨⟨b, hb, hj⟩, ho⟩
  · rename_i hs
    constructor
    · intro h
      exact nomatch h
    · rintro ⟨hs', -⟩
      exact absurd hs' hs

/-- What a look at the event's own page tells, and how it ends. -/
structure Looked (url : Option Bytes) (id : Bytes) (es : List Event)
    (r : Except Rc (Int × Option Bytes)) : Prop where
  quiet : ∀ e ∈ es, e.redeems = false
  heard : ∀ e ∈ es, ∀ root, e.told url id = some root →
    ∃ status b, r = .ok (status, some b) ∧ status ≠ 202 ∧ jsonParse b = some root ∧ root.isObject = true
  shown : ∀ status b root, r = .ok (status, some b) → status ≠ 202 → jsonParse b = some root →
    root.isObject = true → ∃ e ∈ es, e.told url id = some root

theorem wp_look (cfg : Config) (url : Option Bytes) (id : Bytes) (s : Ctx) :
    wp (notifySend cfg .get url (lit "/event/check/" ++ id) none)
      (fun es r _ => Looked url id es r) s := by
  refine wp_mono (wp_notifySend cfg .get url none (lit "/event/check/" ++ id) s) fun es r s' h => ?_
  have hreq : ∀ a : Answer, Event.redeems ⟨.send none (lookRequest cfg url id), a⟩ = false :=
    fun a => Bool.and_false _
  have hsplit : ∀ {before after : List Event} {x : Event}, Calm before → Calm after →
      ∀ e ∈ before ++ [x] ++ after, e = x ∨ (e.redeems = false ∧ e.told url id = none) := by
    intro before after x hb ha e he
    rcases List.mem_append.mp he with he | he
    · rcases List.mem_append.mp he with he | he
      · exact .inr ⟨hb.no_redeem e he, hb.untold url id e he⟩
      · exact .inl (List.mem_singleton.mp he)
    · exact .inr ⟨ha.no_redeem e he, ha.untold url id e he⟩
  have hquiet : ∀ {before after : List Event} {a : Answer}, Calm before → Calm after →
      ∀ e ∈ before ++ [⟨.send none (lookRequest cfg url id), a⟩] ++ after, e.redeems = false := by
    intro before after a hb ha e he
    rcases hsplit hb ha e he with rfl | ⟨hq, -⟩
    · exact hreq a
    · exact hq
  cases h with
  | good before r hc h2 =>
    rw [← List.append_nil (before ++ _)]
    refine ⟨hquiet hc .nil, fun e he root ht => ?_, fun status b root hr hn hj ho => ?_⟩
    · rcases hsplit hc .nil e he with rfl | ⟨-, hq⟩
      · obtain ⟨⟨-, -, hn⟩, b, hb, hj, ho⟩ := told_look.mp ht
        exact ⟨r.status, b, by rw [hb], hn, hj, ho⟩
      · exact nomatch hq.symm.trans ht
    · obtain ⟨rfl, hb⟩ := Prod.mk.inj (Except.ok.inj hr)
      refine ⟨⟨.send none (lookRequest cfg url id), .done r⟩, by simp [lookRequest], ?_⟩
      exact told_look.mpr ⟨⟨h2.1, h2.2, hn⟩, b, hb, hj, ho⟩
  | bad before after r d hc ha h2 hd =>
    refine ⟨hquiet hc ha, fun e he root ht => ?_, fun _ _ _ hr => nomatch hr⟩
    rcases hsplit hc ha e he with rfl | ⟨-, hq⟩
    · have hs := (told_look.mp ht).1
      omega
    · exact nomatch hq.symm.trans ht
  | lost before after why expired detail d hc ha hd =>
    refine ⟨hquiet hc ha, fun e he root ht => ?_, fun _ _ _ hr => nomatch hr⟩
    rcases hsplit hc ha e he with rfl | ⟨-, hq⟩
    · exact nomatch ht
    · exact nomatch hq.symm.trans ht
  | unsent _ rc d hc hr hd =>
    refine ⟨hc.no_redeem, fun e he root ht => ?_, fun _ _ _ hr => nomatch hr⟩
    exact nomatch (hc.untold url id e he).symm.trans ht

theorem Looked.still {url : Option Bytes} {id : Bytes} {es rest : List Event}
    {r : Except Rc (Int × Option Bytes)} (h : Looked url id es r) (hc : Calm rest) :
    ∀ e ∈ es ++ rest, e.redeems = false := by
  intro e he
  rcases List.mem_append.mp he with he | he
  · exact h.quiet e he
  · exact hc.no_redeem e he

/-- What is heard in a look and in what is done after it is heard in the look. -/
theorem Looked.hears {url : Option Bytes} {id : Bytes} {es rest : List Event} {status : Int}
    {body : Option Bytes} (h : Looked url id es (.ok (status, body))) (hc : Calm rest) :
    ∀ e ∈ es ++ rest, ∀ root, e.told url id = some root →
      status ≠ 202 ∧ ∃ b, body = some b ∧ jsonParse b = some root ∧ root.isObject = true := by
  intro e he root ht
  rcases List.mem_append.mp he with he | he
  · obtain ⟨st, b, hr, hn, hj, ho⟩ := h.heard e he root ht
    obtain ⟨rfl, hb⟩ := Prod.mk.inj (Except.ok.inj hr)
    exact ⟨hn, b, hb, hj, ho⟩
  · exact nomatch (hc.untold url id e he).symm.trans ht

/-- What a look comes to once its answer is read: what was told, if there was memory to
read it. -/
structure Read (url : Option Bytes) (id : Bytes) (es : List Event)
    (r : Except Rc (Polled (Int × Bytes × Json))) : Prop where
  quiet : ∀ e ∈ es, e.redeems = false
  heard : ∀ e ∈ es, ∀ root, e.told url id = some root →
    (∃ status b, r = .ok (.ready (status, b, root))) ∨ ((∃ rc, r = .error rc) ∧ ¬Granted es)
  shown : ∀ status b root, r = .ok (.ready (status, b, root)) → ∃ e ∈ es, e.told url id = some root

theorem wp_readEvent (cfg : Config) (what : Bytes) (url : Option Bytes) (id : Bytes) (tooLong : Piece)
    (s : Ctx) : wp (notifyPoll cfg what (lit "/event/check/") id url tooLong)
      (fun es r _ => Read url id es r) s := by
  unfold notifyPoll
  split
  · refine wp_ctxFail_of fun es d hc _ _ => ?_
    refine ⟨hc.no_redeem, fun e he root ht => ?_, fun _ _ _ hr => nomatch hr⟩
    exact nomatch (hc.untold url id e he).symm.trans ht
  · rename_i subpath hp
    have hsub : subpath = lit "/event/check/" ++ id := by
      unfold pollPath at hp
      split at hp
      · exact (Option.some.inj hp).symm
      · exact nomatch hp
    subst hsub
    refine wp_bind_of (wp_look cfg url id s) ?_ ?_
    · rintro es ⟨status, body⟩ s₁ hl
      -- a failure after the look is one for want of memory, or there was nothing to be told
      have hfail : ∀ (rest : List Event) (rc : Rc), Calm rest →
          (∀ b root, body = some b → status ≠ 202 → jsonParse b = some root → root.isObject = true →
            ¬Granted (es ++ rest)) → Read url id (es ++ rest) (.error rc) := by
        intro rest rc hc hn
        refine ⟨hl.still hc, fun e he root ht => .inr ⟨⟨rc, rfl⟩, ?_⟩, fun _ _ _ hr => nomatch hr⟩
        obtain ⟨h2, b, hb, hj, ho⟩ := hl.hears hc e he root ht
        exact hn b root hb h2 hj ho
      dsimp only
      unfold need
      simp only [Cmd.bind_assoc]
      rw [wp_bind, wp_alloc]
      intro ok
      dsimp only
      have hc1 := calm_alloc ok
      cases ok with
      | false =>
        show wp ((outOfMemory : Cmd Unit) >>= _) _ _
        unfold outOfMemory
        rw [ctxFail_bind]
        exact wp_ctxFail_of fun rest d hc _ _ => hfail _ _ (hc1.append hc)
          fun _ _ _ _ _ _ hg => hg (by simp)
      | true =>
        show wp (if status = 202 then _ else _) _ _
        by_cases h2 : status = 202
        · rw [if_pos h2]
          refine wp_pure.mpr ⟨hl.still hc1, fun e he root ht => ?_, fun _ _ _ hr => nomatch hr⟩
          exact absurd h2 (hl.hears hc1 e he root ht).1
        · rw [if_neg h2]
          cases body with
          | none =>
            exact wp_ctxFail_of fun rest d hc _ _ => hfail _ _ (hc1.append hc) fun _ _ hb => nomatch hb
          | some b =>
            unfold parseOptional parseJson
            simp only [Cmd.bind_assoc, Cmd.pure_bind]
            rw [wp_bind, wp_alloc]
            intro ok
            dsimp only
            have hc2 := hc1.append (calm_alloc ok)
            cases hroot : (if ok = true then jsonParse b else none).filter (·.isObject) with
            | none =>
              refine wp_ctxFail_of fun rest d hc _ _ => hfail _ _ (hc1.append ((calm_alloc ok).append hc)) ?_
              rintro _ root hb - hj ho hg
              obtain rfl := Option.some.inj hb
              cases ok with
              | false => exact hg (by simp)
              | true =>
                rw [if_pos rfl, hj] at hroot
                simp [ho] at hroot
            | some root =>
              obtain ⟨hj, ho⟩ := Option.filter_eq_some_iff.mp hroot
              have hj : jsonParse b = some root := by
                cases ok with
                | false => exact nomatch hj
                | true => exact hj
              refine wp_pure.mpr ⟨hl.still hc2, fun e he root' ht => .inl ?_, fun st b' root' hr => ?_⟩
              · obtain ⟨-, b', hb, hj', -⟩ := hl.hears hc2 e he root' ht
                obtain rfl := Option.some.inj hb
                rw [hj] at hj'
                obtain rfl := Option.some.inj hj'
                exact ⟨status, _, rfl⟩
              · obtain ⟨e, he, ht⟩ := hl.shown status b root rfl h2 hj ho
                obtain ⟨-, -, rfl⟩ : st = status ∧ b' = b ∧ root' = root := by simpa [eq_comm] using hr
                exact ⟨e, List.mem_append.mpr (.inl he), ht⟩
    · intro es rc s₁ hl
      refine ⟨hl.quiet, fun e he root ht => ?_, fun _ _ _ hr => nomatch hr⟩
      obtain ⟨_, _, hr, -⟩ := hl.heard e he root ht
      exact nomatch hr

/-- What a check of the event comes to. -/
structure Checked (url : Option Bytes) (id : Bytes) (es : List Event)
    (r : Except Rc (Polled EventResult)) : Prop where
  quiet : ∀ e ∈ es, e.redeems = false
  approved : ∀ reply, r = .ok (.ready (.approved reply)) → ∃ e ∈ es, Approval url id e
  denial : ∀ e ∈ es, Denial url id e → r = .ok (.ready .denied) ∨ ((∃ rc, r = .error rc) ∧ ¬Granted es)

theorem wp_eventCheck (cfg : Config) (url : Option Bytes) (id : Bytes) (s : Ctx) :
    wp (notifyEventCheck cfg url id) (fun es r _ => Checked url id es r) s := by
  unfold notifyEventCheck
  rw [wp_bind, wp_clearError]
  refine wp_bind_of (wp_readEvent cfg _ url id _ _) ?_ ?_
  · rintro es polled s₁ h
    cases polled with
    | pending =>
      refine wp_pure.mpr ?_
      rw [List.nil_append, List.append_nil]
      refine ⟨h.quiet, (fun _ hr => nomatch hr), fun e he ⟨root, ht, _⟩ => ?_⟩
      rcases h.heard e he root ht with ⟨_, _, hr⟩ | ⟨⟨_, hr⟩, -⟩
      · exact nomatch hr
      · exact nomatch hr
    | ready a =>
      obtain ⟨status, body, root⟩ := a
      have hquiet : ∀ {rest : List Event}, Calm rest →
          ∀ e : Event, e ∈ es ++ rest → e.redeems = false := by
        intro rest hc e he
        rcases List.mem_append.mp he with he | he
        · exact h.quiet e he
        · exact hc.no_redeem e he
      have hdeny : ∀ {rest : List Event}, Calm rest →
          ∀ e : Event, e ∈ es ++ rest → Denial url id e → root.has (lit "deny") = true := by
        rintro rest hc e he ⟨root', ht, hd⟩
        rcases List.mem_append.mp he with he | he
        · rcases h.heard e he root' ht with ⟨_, _, hr⟩ | ⟨⟨_, hr⟩, -⟩
          · obtain ⟨-, -, rfl⟩ : _ ∧ _ ∧ root = root' := by simpa using hr
            exact hd
          · exact nomatch hr
        · exact nomatch (hc.untold url id e he).symm.trans ht
      dsimp only
      rw [wp_ite]
      split
      · exact wp_pure.mpr ⟨hquiet .nil, (fun _ hr => nomatch hr), fun _ _ _ => .inl rfl⟩
      · rename_i hn
        cases hreply : root.getString (lit "authreply") with
        | none =>
          exact wp_ctxFail_of fun rest d hc _ _ =>
            ⟨hquiet hc, (fun _ hr => nomatch hr), fun e he hd => absurd (hdeny hc e he hd) hn⟩
        | some reply =>
          dsimp only
          rw [wp_bind]
          refine wp_need_of (fun rest hc => ?_) fun rest d hc _ => ?_
          · refine wp_pure.mpr ?_
            rw [List.append_nil]
            refine ⟨hquiet hc, fun _ _ => ?_, fun e he hd => absurd (hdeny hc e he hd) hn⟩
            obtain ⟨e, he, ht⟩ := h.shown status body root rfl
            refine ⟨e, (List.mem_append.mpr (.inl he) : e ∈ es ++ rest), root, ht, ?_, ?_⟩
            · simpa using hn
            · rw [hreply]
              rfl
          · exact ⟨hquiet hc, (fun _ hr => nomatch hr), fun e he hd => absurd (hdeny hc e he hd) hn⟩
  · intro es rc s₁ h
    refine ⟨h.quiet, (fun _ hr => nomatch hr), fun e he ⟨root, ht, _⟩ => ?_⟩
    rcases h.heard e he root ht with ⟨_, _, hr⟩ | hr
    · exact nomatch hr
    · exact .inr ⟨⟨rc, rfl⟩, hr.2⟩

/-- One of the exchanges is an answer of the device to a post on the path: a good one, with the
object `root`. -/
def PostAnswered (cfg : Config) (path body : Bytes) (es : List Event) (root : Json) : Prop :=
  ∃ fresh r b, (⟨.send none (buildRequest cfg .post path (some body) none .default fresh), .done r⟩ : Event) ∈ es ∧
    r.fault = none ∧ r.body = some b ∧ jsonParse (cstr b) = some root

theorem PostAnswered.later {cfg : Config} {path body : Bytes} {es es' : List Event} {root : Json}
    (h : PostAnswered cfg path body es' root) : PostAnswered cfg path body (es ++ es') root := by
  obtain ⟨fresh, r, b, hm, hr⟩ := h
  exact ⟨fresh, r, b, List.mem_append.mpr (.inr hm), hr⟩

theorem PostAnswered.minted {cfg : Config} {body : Bytes} {es : List Event} {root : Json} {token : Bytes}
    (h : PostAnswered cfg extTokenPath body es root) (ht : root.getString (lit "token") = some token) :
    ∃ e : Event, e ∈ es ∧ e.minted = some token := by
  obtain ⟨fresh, r, b, hm, hf, hb, hj⟩ := h
  refine ⟨_, hm, (if_pos ⟨rfl, hf⟩).trans ?_⟩
  rw [hb, Option.map_some, Option.bind_some, hj]
  exact ht

theorem AskedJson.postAnswered {cfg : Config} {path body : Bytes} {s s' : Ctx} {es : List Event}
    {root : Json} (h : AskedJson cfg .post path (some body) s es (.ok root) s') :
    PostAnswered cfg path body es root := by
  obtain ⟨fresh, r, b, hl, hr⟩ := h.answered
  obtain ⟨e, he, hloud⟩ := latest_mem (lastDone_eq.mp hl)
  rcases Event.loud_self e with h0 | h1
  · exact nomatch h0.symm.trans hloud
  · rw [h1] at hloud
    exact ⟨fresh, r, b, Option.some.inj hloud ▸ he, hr⟩

theorem wp_extLoginPost_answered (cfg : Config) (path body : Bytes) (s : Ctx) :
    wp (extLoginPost cfg path body)
      (fun es r _ => ∀ root, r = .ok root → PostAnswered cfg path body es root) s := by
  unfold extLoginPost
  rw [wp_bind, wp_attempt]
  refine wp_mono (wp_requestPlainJson cfg .post path (some body) s) fun es r s₁ h => ?_
  dsimp only
  rw [wp_bind, wp_getCtx]
  dsimp only
  cases r with
  | ok root =>
    refine wp_pure.mpr fun root' hr => ?_
    rw [List.append_nil, List.append_nil, ← Except.ok.inj hr]
    exact h.postAnswered
  | error rc =>
    dsimp only
    rw [wp_ite]
    split
    · rw [wp_bind, wp_attempt]
      refine fun es' crc s₂ _ => ?_
      cases crc with
      | error _ =>
        dsimp only
        rw [wp_bind, wp_getCtx]
        exact wp_ctxFail_of fun _ _ _ _ _ _ hr => nomatch hr
      | ok _ =>
        refine wp_mono (wp_requestPlainJson cfg .post path (some body) s₂) fun es'' r s₃ h'' root hr => ?_
        subst hr
        exact h''.postAnswered.later.later.later
    · exact wp_throwRc.mpr fun _ hr => nomatch hr

/-- A token that is handed out is one that the device answered with. -/
theorem wp_extToken_minted (cfg : Config) (authreply : Bytes) (s : Ctx) :
    wp (extToken cfg authreply)
      (fun es r _ => ∀ token, r = .ok token → ∃ e : Event, e ∈ es ∧ e.minted = some token) s := by
  unfold extToken
  rw [wp_bind, wp_clearError]
  dsimp only
  rw [wp_ite]
  split
  · exact wp_ctxFail_of fun _ _ _ _ _ _ hr => nomatch hr
  · unfold printObject
    simp only [Cmd.bind_assoc, Cmd.pure_bind]
    rw [wp_bind]
    refine wp_need_of (fun es₀ hc => ?_) fun _ _ _ _ _ hr => nomatch hr
    dsimp only
    rw [wp_bind, wp_attempt]
    refine wp_mono (wp_extLoginPost_answered cfg extTokenPath _ _) fun es r s₁ h => ?_
    dsimp only
    rw [wp_bind, wp_getCtx]
    dsimp only
    cases r with
    | error rc =>
      dsimp only
      rw [wp_ite]
      split
      · exact wp_ctxFail_of fun _ _ _ _ _ _ hr => nomatch hr
      · rw [wp_ite]
        split
        · exact wp_ctxFail_of fun _ _ _ _ _ _ hr => nomatch hr
        · exact wp_throwRc.mpr fun _ hr => nomatch hr
    | ok root =>
      dsimp only
      cases htoken : root.getString (lit "token") with
      | none => exact wp_ctxFail_of fun _ _ _ _ _ _ hr => nomatch hr
      | some token =>
        dsimp only
        rw [wp_bind]
        refine wp_need_of (fun rest _ => ?_) fun _ _ _ _ _ hr => nomatch hr
        refine wp_pure.mpr fun token' hr => ?_
        obtain rfl := Except.ok.inj hr
        obtain ⟨e, he, hmint⟩ := (h root rfl).minted htoken
        exact ⟨e, by simp [he], hmint⟩

/-- Where a poll or a wait leaves a handle. -/
inductive Stage where
  | pending | failed | rejected | approved | spoiled

def Stage.final : Stage → Bool
  | .pending => false
  | .failed => false
  | _ => true

/-- What is done on an open handle on the way to a stage. -/
structure Turn (url : Option Bytes) (id scope : Bytes) (es : List Event) (k : Stage) (s' : Ctx) : Prop where
  redeemed : ∀ pre e post, es = pre ++ e :: post → e.redeems = true →
    (k = .approved ∨ k = .spoiled) ∧ ∃ a ∈ pre, Approval url id a
  spoiled : k = .spoiled → ∃ e ∈ es, e.redeems = true
  denial : ∀ e ∈ es, Denial url id e → k = .rejected ∨ (k = .failed ∧ ¬Granted es)
  approved : k = .approved → ∃ token, (∃ e ∈ es, e.minted = some token) ∧ s'.Holds scope token

/-- What a poll reports at a stage. -/
inductive PollSays : Stage → Except Rc ConfirmStatus → Prop where
  | pending : PollSays .pending (.ok .pending)
  | failed (rc : Rc) (h : rc.Ordinary) : PollSays .failed (.error rc)
  | rejected : PollSays .rejected (.error .userRejected)
  | approved : PollSays .approved (.ok .approved)
  | spoiled (rc : Rc) (h : rc.Ordinary) : PollSays .spoiled (.error rc)

/-- What a wait reports at a stage. -/
inductive WaitSays : Stage → Except Rc Unit → Prop where
  | pending : WaitSays .pending (.error .confirmTimeout)
  | failed (rc : Rc) (h : rc.Ordinary) : WaitSays .failed (.error rc)
  | rejected : WaitSays .rejected (.error .userRejected)
  | approved : WaitSays .approved (.ok ())
  | spoiled (rc : Rc) (h : rc.Ordinary) : WaitSays .spoiled (.error rc)

namespace Turn
variable {url : Option Bytes} {id scope : Bytes} {es es' : List Event} {k : Stage} {s' : Ctx}

/-- A turn in which nothing is redeemed. -/
theorem quiet (hq : ∀ e ∈ es, e.redeems = false) (hk : k ≠ .approved) (hs : k ≠ .spoiled)
    (hd : ∀ e ∈ es, Denial url id e → k = .rejected ∨ (k = .failed ∧ ¬Granted es)) :
    Turn url id scope es k s' where
  redeemed pre e post he hr := by
    have hm : e ∈ es := by rw [he]; simp
    exact nomatch (hq e hm).symm.trans hr
  spoiled h := absurd h hs
  denial := hd
  approved h := absurd h hk

/-- A round that leaves everything open comes before the rest of a wait. -/
theorem after {s₁ : Ctx} (h : Turn url id scope es .pending s₁) (h' : Turn url id scope es' k s') :
    Turn url id scope (es ++ es') k s' where
  redeemed pre e post he hr := by
    rcases split_append he with ⟨mid, rfl, rfl⟩ | ⟨mid, rfl, rfl⟩
    · rcases (h.redeemed pre e mid rfl hr).1 with hk | hk
      · exact nomatch hk
      · exact nomatch hk
    · obtain ⟨hk, a, ha, happ⟩ := h'.redeemed mid e post rfl hr
      exact ⟨hk, a, List.mem_append.mpr (.inr ha), happ⟩
  spoiled hk := by
    obtain ⟨e, he, hr⟩ := h'.spoiled hk
    exact ⟨e, List.mem_append.mpr (.inr he), hr⟩
  denial e he hd := by
    rcases List.mem_append.mp he with he | he
    · rcases h.denial e he hd with hk | hk
      · exact nomatch hk
      · exact nomatch hk.1
    · rcases h'.denial e he hd with hk | ⟨hk, hg⟩
      · exact .inl hk
      · exact .inr ⟨hk, fun hall => hg hall.right⟩
  approved hk := by
    obtain ⟨token, ⟨e, he, hm⟩, hh⟩ := h'.approved hk
    exact ⟨token, ⟨e, List.mem_append.mpr (.inr he), hm⟩, hh⟩

end Turn

/-- A redemption marks itself, and where it ends well leaves the bearer that the device minted. -/
theorem wp_redeemed (cfg : Config) (scope reply : Bytes) (s : Ctx) :
    wp (confirmRedeem cfg scope reply) (fun es r s' => (∃ e : Event, e ∈ es ∧ e.redeems = true) ∧
      ∀ st, r = .ok st → st = .approved ∧
        ∃ token, (∃ e : Event, e ∈ es ∧ e.minted = some token) ∧ s'.Holds scope token) s := by
  unfold confirmRedeem
  rw [wp_bind, wp_mark]
  dsimp only
  have hmark : ∀ es : List Event, ∃ e : Event, e ∈ [⟨.mark (.redeem scope), ()⟩] ++ es ∧ e.redeems = true :=
    fun es => ⟨⟨.mark (.redeem scope), ()⟩, List.mem_cons_self, rfl⟩
  refine wp_bind_of (wp_extToken_minted cfg reply s) ?_ fun es rc s₁ _ => ⟨hmark es, fun _ hr => nomatch hr⟩
  intro es token s₁ hm
  obtain ⟨e, he, hmint⟩ := hm token rfl
  refine wp_bind_of ((lands_authCacheSeed scope token).run s₁) ?_ fun es' rc s₂ _ =>
    ⟨hmark _, fun _ hr => nomatch hr⟩
  intro es' u s₂ hh
  refine wp_pure.mpr ⟨hmark _, fun st hst => ⟨(Except.ok.inj hst).symm, token, ⟨e, ?_, hmint⟩, hh u rfl⟩⟩
  simp [he]

/-- A redemption after an approval. -/
theorem wp_approvedTurn (cfg : Config) {url : Option Bytes} {id : Bytes} (scope reply : Bytes) (s : Ctx)
    {ces : List Event} (hq : ∀ e ∈ ces, e.redeems = false) (ha : ∃ e ∈ ces, Approval url id e)
    (hd : ∀ e ∈ ces, ¬Denial url id e) :
    wp (confirmRedeem cfg scope reply) (fun es r s' => ∃ k, PollSays k r ∧ k.final = true ∧
      Turn url id scope (ces ++ es) k s') s := by
  have hun : Untold url id (confirmRedeem cfg scope reply) := Untold.confirmRedeem ..
  have hth : Throwing (confirmRedeem cfg scope reply) := Throwing.confirmRedeem ..
  refine wp_mono (wp_and (wp_redeemed cfg scope reply s) (wp_and (hun.run s) (hth.run s))) ?_
  rintro es r s' ⟨⟨⟨m, hm, hmr⟩, hok⟩, htold, herr⟩
  have hnone : ∀ e ∈ ces ++ es, ¬Denial url id e := by
    rintro e he hden
    rcases List.mem_append.mp he with he | he
    · exact hd e he hden
    · obtain ⟨root, ht, -⟩ := hden
      exact nomatch (htold e he).symm.trans ht
  have hafter : ∀ pre e post, ces ++ es = pre ++ e :: post → e.redeems = true → ∃ a ∈ pre, Approval url id a := by
    intro pre e post he hr
    rcases split_append he with ⟨mid, rfl, -⟩ | ⟨mid, rfl, -⟩
    · exact nomatch (hq e (by simp)).symm.trans hr
    · obtain ⟨a, hac, happ⟩ := ha
      exact ⟨a, List.mem_append.mpr (.inl hac), happ⟩
  have hmem : m ∈ ces ++ es := List.mem_append.mpr (.inr hm)
  cases r with
  | ok st =>
    obtain ⟨rfl, token, ⟨e, he, hmint⟩, hh⟩ := hok st rfl
    refine ⟨.approved, .approved, rfl, ?_, (fun hk => nomatch hk), fun e he hden => absurd hden (hnone e he), ?_⟩
    · exact fun pre e post he hr => ⟨.inl rfl, hafter pre e post he hr⟩
    · exact fun _ => ⟨token, ⟨e, List.mem_append.mpr (.inr he), hmint⟩, hh⟩
  | error rc =>
    refine ⟨.spoiled, .spoiled rc (herr rc rfl), rfl, ?_, fun _ => ⟨m, hmem, hmr⟩,
      fun e he hden => absurd hden (hnone e he), fun hk => nomatch hk⟩
    exact fun pre e post he hr => ⟨.inr rfl, hafter pre e post he hr⟩

/-- A poll of an open handle. -/
theorem wp_openPoll (cfg : Config) (url : Option Bytes) (scope id : Bytes) (s : Ctx) :
    wp (confirmPoll cfg ⟨url, scope, some id, false⟩) (fun es r s' => ∃ k v, PollSays k v ∧
      r = .ok (v, ⟨url, scope, some id, k.final⟩) ∧ Turn url id scope es k s') s := by
  unfold confirmPoll confirmCheck
  rw [if_neg Bool.false_ne_true]
  dsimp only
  rw [wp_bind, wp_attempt]
  refine wp_mono (wp_and (wp_eventCheck cfg url id s)
    ((Throwing.notifyEventCheck url id).run s)) ?_
  rintro es r s₁ ⟨hc, hrc⟩
  have hdenied : ∀ e ∈ es, Denial url id e → r ≠ .ok (.ready .denied) →
      (∃ rc, r = .error rc) ∧ ¬Granted es := by
    intro e he hd hn
    rcases hc.denial e he hd with h | h
    · exact absurd h hn
    · exact h
  dsimp only
  cases r with
  | error rc =>
    refine wp_pure.mpr ⟨.failed, .error rc, .failed rc (hrc rc rfl), rfl, ?_⟩
    rw [List.append_nil]
    refine .quiet hc.quiet (fun h => nomatch h) (fun h => nomatch h) fun e he hd => .inr ⟨rfl, ?_⟩
    exact (hdenied e he hd fun h => nomatch h).2
  | ok polled =>
    cases polled with
    | pending =>
      refine wp_pure.mpr ⟨.pending, .ok .pending, .pending, rfl, ?_⟩
      rw [List.append_nil]
      refine .quiet hc.quiet (fun h => nomatch h) (fun h => nomatch h) fun e he hd => ?_
      obtain ⟨⟨rc, h⟩, -⟩ := hdenied e he hd fun h => nomatch h
      exact nomatch h
    | ready result =>
      cases result with
      | denied =>
        dsimp only
        rw [wp_bind, wp_attempt]
        refine wp_ctxFail_of fun rest d hrest _ _ => wp_pure.mpr ?_
        refine ⟨.rejected, .error .userRejected, .rejected, rfl, ?_⟩
        rw [List.append_nil]
        refine .quiet (fun e he => ?_) (fun h => nomatch h) (fun h => nomatch h) fun _ _ _ => .inl rfl
        rcases List.mem_append.mp he with he | he
        · exact hc.quiet e he
        · exact hrest.no_redeem e he
      | approved reply =>
        dsimp only
        rw [wp_bind, wp_attempt]
        have hno : ∀ e ∈ es, ¬Denial url id e := by
          intro e he hd
          obtain ⟨⟨rc, h⟩, -⟩ := hdenied e he hd fun h => nomatch h
          exact nomatch h
        refine wp_mono (wp_approvedTurn cfg scope reply s₁ hc.quiet (hc.approved reply rfl) hno) ?_
        rintro es' v s₂ ⟨k, hk, hf, hturn⟩
        refine wp_pure.mpr ⟨k, v, hk, by rw [hf], ?_⟩
        rw [List.append_nil]
        exact hturn

/-- A turn goes on with what neither redeems nor looks at anything. -/
theorem Turn.calmly {url : Option Bytes} {id scope : Bytes} {es rest : List Event} {s s' : Ctx}
    (h : Turn url id scope es .pending s) (hc : Calm rest) : Turn url id scope (es ++ rest) .pending s' :=
  h.after (.quiet hc.no_redeem (fun h => nomatch h) (fun h => nomatch h)
    fun e he ⟨_, ht, _⟩ => nomatch (hc.untold url id e he).symm.trans ht)

theorem calm_sleepMs (ms : Int) (s : Ctx) : wp (sleepMs ms) (fun es r _ => Calm es ∧ r = .ok ()) s := by
  unfold sleepMs
  rw [wp_ite]
  split
  · exact wp_pure.mpr ⟨.nil, rfl⟩
  · exact wp_sleep.mpr ⟨fun e he => by rw [List.mem_singleton.mp he]; rfl, rfl⟩

/-- A wait on an open handle: induction on the rounds left. -/
theorem wp_openWaitLoop (cfg : Config) {timeoutMs : Int} (url : Option Bytes) (scope id : Bytes)
    (rounds : Nat) (elapsed : Int) (s : Ctx) :
    wp (confirmWaitLoop cfg timeoutMs rounds elapsed ⟨url, scope, some id, false⟩)
      (fun es r s' => ∃ k v, WaitSays k v ∧ r = .ok (v, ⟨url, scope, some id, k.final⟩) ∧
        Turn url id scope es k s') s := by
  induction rounds generalizing elapsed s with
  | zero =>
    refine wp_pure.mpr ⟨.pending, .error .confirmTimeout, .pending, rfl, ?_⟩
    exact .quiet (fun _ he => nomatch he) (fun h => nomatch h) (fun h => nomatch h) fun _ he => nomatch he
  | succ rounds ih =>
    unfold confirmWaitLoop
    refine wp_bind_of (wp_openPoll cfg url scope id s) ?_ ?_
    · rintro es ⟨v, c'⟩ s₁ ⟨k, _, hk, hr, hturn⟩
      obtain ⟨rfl, rfl⟩ := Prod.mk.inj (Except.ok.inj hr)
      dsimp only
      cases hk with
      | pending =>
        dsimp only
        rw [wp_ite]
        split
        · rw [wp_bind, wp_attempt]
          refine wp_ctxFail_of fun rest d hrest _ _ => wp_pure.mpr ?_
          refine ⟨.pending, .error .confirmTimeout, .pending, rfl, ?_⟩
          rw [List.append_nil]
          exact hturn.calmly hrest
        · refine wp_bind_of (calm_sleepMs _ s₁) ?_ ?_
          · rintro rest u s₂ ⟨hrest, -⟩
            have hround : Turn url id scope (es ++ rest) .pending s₂ := hturn.calmly hrest
            refine wp_mono (ih _ s₂) ?_
            rintro es' r s₃ ⟨k, v, hk, hr, hturn'⟩
            refine ⟨k, v, hk, hr, ?_⟩
            rw [← List.append_assoc]
            exact hround.after hturn'
          · rintro rest rc s₂ ⟨-, hr⟩
            exact nomatch hr
      | failed rc h => exact wp_pure.mpr ⟨.failed, .error rc, .failed rc h, rfl, by simpa using hturn⟩
      | rejected => exact wp_pure.mpr ⟨.rejected, .error .userRejected, .rejected, rfl, by simpa using hturn⟩
      | approved => exact wp_pure.mpr ⟨.approved, .ok (), .approved, rfl, by simpa using hturn⟩
      | spoiled rc h => exact wp_pure.mpr ⟨.spoiled, .error rc, .spoiled rc h, rfl, by simpa using hturn⟩
    · rintro es rc s₁ ⟨_, _, _, hr, _⟩
      exact nomatch hr

end EncedoHem
