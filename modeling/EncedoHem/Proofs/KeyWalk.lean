import EncedoHem.KeyMgmt
import EncedoHem.Proofs.Exchange
import EncedoHem.Proofs.Plain
import EncedoHem.Scripted

namespace EncedoHem
open Text Dialogue

/-- A page asked for at an offset, and what came of it. -/
structure PageAsk where
  offset : Nat
  answer : Except Rc KeyPage

def PageAsk.entries (a : PageAsk) : List KeyEntry :=
  match a.answer with
  | .ok page => page.entries
  | .error _ => []

/-- The entries of the pages received, in order. -/
def gathered (asks : List PageAsk) : List KeyEntry := asks.flatMap PageAsk.entries

/-- The walk stops at this page, with `n` entries gathered before it. -/
def KeyPage.Last (page : KeyPage) (n : Nat) : Prop :=
  page.entries = [] ∨ page.total ≤ ((n + page.entries.length : Nat) : Int)

/-- The pages of a walk that has gathered `n` entries already: each is asked for at
the number of entries gathered so far, and a page that fails or is the last one
ends the walk. -/
def Walk : Nat → List PageAsk → Prop
  | _, [] => True
  | n, ⟨offset, .error _⟩ :: rest => offset = n ∧ rest = []
  | n, ⟨offset, .ok page⟩ :: rest =>
    offset = n ∧ (page.Last n → rest = []) ∧ Walk (n + page.entries.length) rest

/-- What a walk that has gathered `got` already makes of its pages: all their entries,
once the last page is there, or the failure of a page or of memory. -/
def WalkEnds (got : List KeyEntry) (asks : List PageAsk) : Except Rc KeyPage → Prop
  | .ok acc => acc.entries = got ++ gathered asks ∧ ∃ front page,
      asks = front ++ [⟨(got ++ gathered front).length, .ok page⟩] ∧
      acc.total = page.total ∧ page.Last (got ++ gathered front).length
  | .error rc => (∃ front offset, asks = front ++ [⟨offset, .error rc⟩]) ∨
      (rc = .nomem ∧ asks ≠ [] ∧ ∀ a ∈ asks, ∃ page, a.answer = .ok page)

@[simp] theorem gathered_cons (a : PageAsk) (asks : List PageAsk) :
    gathered (a :: asks) = a.entries ++ gathered asks := rfl

section
variable {cfg : Config}

/-- What a page brings is gathered with it. -/
theorem WalkEnds.cons {got : List KeyEntry} {a : PageAsk} {asks : List PageAsk} {page : KeyPage}
    {r : Except Rc KeyPage} (ha : a.answer = .ok page) (h : WalkEnds (got ++ page.entries) asks r) :
    WalkEnds got (a :: asks) r := by
  have hentries : a.entries = page.entries := by
    unfold PageAsk.entries
    rw [ha]
  cases r with
  | ok acc =>
    obtain ⟨hacc, front, last, rfl, htotal, hlast⟩ := h
    rw [List.append_assoc] at hacc
    refine ⟨by rw [hacc, gathered_cons, hentries], a :: front, last, ?_, htotal, ?_⟩
    · rw [gathered_cons, hentries, ← List.append_assoc]
      rfl
    · rw [gathered_cons, hentries, ← List.append_assoc]
      exact hlast
  | error rc =>
    rcases h with ⟨front, offset, rfl⟩ | ⟨hrc, -, hok⟩
    · exact .inl ⟨a :: front, offset, rfl⟩
    · refine .inr ⟨hrc, List.cons_ne_nil a asks, fun b hb => ?_⟩
      rcases List.mem_cons.mp hb with rfl | hb
      · exact ⟨page, ha⟩
      · exact hok b hb

end

/-- Totals of at most `T` allow for that many pages, and for the one page of an empty walk. -/
theorem Walk.length_le {n : Nat} {asks : List PageAsk} {T : Int} (h : Walk n asks)
    (hT : ∀ a ∈ asks, ∀ page, a.answer = .ok page → page.total ≤ T) :
    (asks.length : Int) ≤ max 1 (T - n) := by
  induction asks generalizing n with
  | nil => exact Int.le_trans (by decide) (Int.le_max_left 1 _)
  | cons a rest ih =>
    obtain ⟨offset, r⟩ := a
    cases r with
    | error rc =>
      rw [h.2]
      exact Int.le_max_left 1 _
    | ok page =>
      obtain ⟨-, hstop, hrest⟩ := h
      by_cases hlast : page.Last n
      · rw [hstop hlast]
        exact Int.le_max_left 1 _
      · have htotal := hT _ List.mem_cons_self page rfl
        have hih := ih hrest fun b hb => hT b (List.mem_cons_of_mem _ hb)
        have hne : page.entries.length ≠ 0 := fun h0 => hlast (.inl (List.length_eq_zero_iff.mp h0))
        have hgo : ((n + page.entries.length : Nat) : Int) < page.total := by
          by_contra hle
          exact hlast (.inr (by omega))
        rw [List.length_cons]
        omega

section
variable {cfg : Config}

/-- Every dispatch under a scope is the request for one page. -/
def PageSend (method : Method) (path : Bytes) (body : Option Bytes) : Event → Prop
  | ⟨.send (some _) req, _⟩ => req.method = method ∧ req.path = path ∧ req.body = body
  | _ => True

theorem pageSend_neutral (method : Method) (path : Bytes) (body : Option Bytes) :
    Neutral (Emits (PageSend method path body)) := emits_neutral fun ⟨op, ans⟩ he => by
  cases op with
  | send scope req => exact absurd he Bool.false_ne_true
  | _ => exact trivial

theorem pageSend_requestRaw {method : Method} {path scope : Bytes} {body : Option Bytes} :
    Keeps (Emits (PageSend method path body)) (requestRaw cfg method path body (some scope) .default) := by
  have hn := pageSend_neutral method path body
  have hplain : ∀ {α : Type} {x : Cmd α}, Plain x → Keeps (Emits (PageSend method path body)) x := by
    intro α x hx
    refine hx.emits fun e he => ?_
    obtain ⟨op, ans⟩ := e
    cases op with
    | send sc req =>
      have hsc : sc = none := PlainSend.unscoped he
      rw [hsc]
      exact trivial
    | _ => exact trivial
  refine hn.requestRawWith (fun _ => emits_nil) (fun _ => hplain Plain.recoveryCheckin)
    (fun sc _ => hplain (Plain.modifyAuth _)) (fun sc _ => hplain (Plain.ensureToken sc)) ?_
  intro s bearer fresh a _
  exact emits_single ⟨rfl, rfl, rfl⟩

theorem pageSend_request {method : Method} {path scope : Bytes} {body : Option Bytes} :
    Keeps (Emits (PageSend method path body)) (requestJson cfg method path body (some scope) .default) :=
  .bind pageSend_requestRaw fun b => (pageSend_neutral method path body).parseBody path b

end

namespace Neutral
variable {K : Contract Op Ans Ctx} (h : Neutral K) {cfg : Config}
include h

theorem decodeOptB64 (root : Json) (key : Bytes) :
    Keeps K (Api.decodeOptB64 root key : Api cfg (Option Bytes)).cmd := by
  unfold Api.decodeOptB64
  split
  · exact .pure _
  · exact .pure _
  · exact .bind h.need fun _ => .pure _

theorem entryStr (j : Json) (i : Nat) (field : String) :
    Keeps K (Api.entryStr j i field : Api cfg Bytes).cmd := by
  unfold Api.entryStr
  split
  · exact h.ctxFail ..
  · exact .bind h.need fun _ => .pure _

theorem parseEntries (i : Nat) (js : List Json) :
    Keeps K (Api.parseEntries i js : Api cfg (List KeyEntry)).cmd := by
  induction js generalizing i with
  | nil => exact .pure _
  | cons j js ih =>
    refine .bind (.bind (h.entryStr ..) fun _ => .bind (h.entryStr ..) fun _ => ?_) fun _ =>
      .bind (ih _) fun _ => .pure _
    exact .bind (h.optStr ..) fun _ => .bind (h.decodeOptB64 ..) fun _ => .pure _

theorem parseKeyPage (root : Json) : Keeps K (Api.parseKeyPage root : Api cfg KeyPage).cmd := by
  refine .bind h.need fun _ => ?_
  dsimp only
  split
  · exact .pure _
  · exact .bind h.need fun _ => .bind (h.parseEntries ..) fun _ => .pure _

end Neutral

section
variable {cfg : Config}

/-- The body of a search for one page. -/
def searchBody (descr : Bytes) (offset limit : Nat) : Bytes :=
  printValue (.obj (strMember "descr" descr ++ [(lit "offset", .int (asInt64 offset)),
    (lit "limit", .int (asInt64 limit))]))

end

end EncedoHem
