import EncedoHem.Proofs.Steps

namespace EncedoHem
open Text Dialogue

/-- The two marks of a check-in. -/
def Event.brackets : Event → Bool
  | ⟨.mark (.checkin _), _⟩ => true
  | ⟨.mark .checkinDone, _⟩ => true
  | _ => false

/-- Whether a check-in is running after the events, unless one was started in
another or ended outside of one. -/
def running : Bool → List Event → Option Bool
  | b, [] => some b
  | b, ⟨.mark (.checkin _), _⟩ :: es => if b then none else running true es
  | b, ⟨.mark .checkinDone, _⟩ :: es => if b then running false es else none
  | b, _ :: es => running b es

/-- What a call does outside of the check-ins that it starts on its own. -/
def outer : Bool → List Event → List Event
  | _, [] => []
  | _, ⟨.mark (.checkin .explicit), _⟩ :: es => outer false es
  | _, ⟨.mark (.checkin _), _⟩ :: es => outer true es
  | _, ⟨.mark .checkinDone, _⟩ :: es => outer false es
  | hidden, e :: es => if hidden then outer hidden es else e :: outer hidden es

/-- A dispatch: the scope it is made under, the request and its answer. -/
def Event.sent : Event → Option (Option Bytes × Request × Answer)
  | ⟨.send scope req, a⟩ => some (scope, req, a)
  | _ => none

/-- The last dispatch outside of such check-ins. -/
def lastDispatch (es : List Event) : Option (Option Bytes × Request × Answer) :=
  latest Event.sent (outer false es)

/-- Neither a dispatch nor a mark of a check-in. -/
def Aside (es : List Event) : Prop := ∀ e ∈ es, e.sent = none ∧ e.brackets = false

theorem running_append (b : Bool) (es es' : List Event) :
    running b (es ++ es') = (running b es).bind fun b => running b es' := by
  induction es generalizing b with
  | nil => rfl
  | cons e es ih =>
    obtain ⟨op, ans⟩ := e
    cases op with
    | mark m =>
      cases m with
      | checkin why =>
        cases b with
        | true => rfl
        | false => exact ih true
      | checkinDone =>
        cases b with
        | true => exact ih false
        | false => rfl
      | _ => exact ih b
    | _ => exact ih b

theorem running_inner {es : List Event} (h : ∀ e ∈ es, e.brackets = false) (b : Bool) :
    running b es = some b := by
  induction es with
  | nil => rfl
  | cons e es ih =>
    have hes : running b es = some b := ih fun d hd => h d (List.mem_cons_of_mem e hd)
    have he : e.brackets = false := h e List.mem_cons_self
    obtain ⟨op, ans⟩ := e
    cases op with
    | mark m =>
      cases m with
      | checkin why => exact nomatch he
      | checkinDone => exact nomatch he
      | _ => exact hes
    | _ => exact hes

/-- Where every check-in is over, what comes after is seen as if it stood alone. -/
theorem outer_append {es es' : List Event} {b hidden : Bool} (hb : b = false → hidden = false)
    (h : running b es = some false) : outer hidden (es ++ es') = outer hidden es ++ outer false es' := by
  induction es generalizing b hidden with
  | nil =>
    have hbf : b = false := Option.some.inj h
    rw [hb hbf]
    rfl
  | cons e es ih =>
    obtain ⟨op, ans⟩ := e
    cases op with
    | mark m =>
      cases m with
      | checkin why =>
        cases b with
        | true => exact nomatch h
        | false =>
          have hrest : running true es = some false := h
          cases why with
          | explicit => exact ih (b := true) (fun hn => nomatch hn) hrest
          | proactive => exact ih (b := true) (fun hn => nomatch hn) hrest
          | recovery => exact ih (b := true) (fun hn => nomatch hn) hrest
      | checkinDone =>
        cases b with
        | true => exact ih (b := false) (fun _ => rfl) h
        | false => exact nomatch h
      | _ =>
        cases hidden with
        | true => exact ih hb h
        | false => exact congrArg _ (ih hb h)
    | _ =>
      cases hidden with
      | true => exact ih hb h
      | false => exact congrArg _ (ih hb h)

theorem outer_mem {es : List Event} {hidden : Bool} {e : Event} (h : e ∈ outer hidden es) : e ∈ es := by
  induction es generalizing hidden with
  | nil => exact h
  | cons d es ih =>
    have hplain : ∀ d : Event, e ∈ (if hidden then outer hidden es else d :: outer hidden es) →
        e ∈ d :: es := by
      intro d hd
      cases hidden with
      | true => exact List.mem_cons_of_mem d (ih hd)
      | false =>
        rcases List.mem_cons.mp hd with rfl | hd
        · exact List.mem_cons_self
        · exact List.mem_cons_of_mem d (ih hd)
    obtain ⟨op, ans⟩ := d
    cases op with
    | mark m =>
      cases m with
      | checkin why =>
        cases why with
        | explicit => exact List.mem_cons_of_mem _ (ih (show e ∈ outer false es from h))
        | proactive => exact List.mem_cons_of_mem _ (ih (show e ∈ outer true es from h))
        | recovery => exact List.mem_cons_of_mem _ (ih (show e ∈ outer true es from h))
      | checkinDone => exact List.mem_cons_of_mem _ (ih (show e ∈ outer false es from h))
      | _ => exact hplain _ h
    | _ => exact hplain _ h

theorem lastDispatch_append {es es' : List Event} (h : running false es = some false) :
    lastDispatch (es ++ es') = (lastDispatch es').or (lastDispatch es) := by
  unfold lastDispatch
  rw [outer_append (fun _ => rfl) h, latest_append]

/-- Inside of a check-in that a call starts on its own nothing is seen. -/
theorem outer_hidden {es : List Event} (h : ∀ e ∈ es, e.brackets = false) (es' : List Event) :
    outer true (es ++ ⟨.mark .checkinDone, ()⟩ :: es') = outer false es' := by
  induction es with
  | nil => rfl
  | cons e es ih =>
    have hes := ih fun d hd => h d (List.mem_cons_of_mem e hd)
    have he : e.brackets = false := h e List.mem_cons_self
    obtain ⟨op, ans⟩ := e
    cases op with
    | mark m =>
      cases m with
      | checkin why => exact nomatch he
      | checkinDone => exact nomatch he
      | _ => exact hes
    | _ => exact hes

namespace Aside

theorem nil : Aside [] := fun _ he => absurd he List.not_mem_nil

theorem append {es es' : List Event} (h : Aside es) (h' : Aside es') : Aside (es ++ es') := by
  intro e he
  rcases List.mem_append.mp he with he | he
  · exact h e he
  · exact h' e he

theorem single {e : Event} (hs : e.sent = none) (hb : e.brackets = false) : Aside [e] := by
  intro d hd
  rw [List.mem_singleton.mp hd]
  exact ⟨hs, hb⟩

theorem running {es : List Event} (h : Aside es) : running false es = some false :=
  running_inner (fun e he => (h e he).2) false

theorem lastDispatch {es : List Event} (h : Aside es) : lastDispatch es = none := by
  exact latest_none fun e he => (h e (outer_mem he)).1

end Aside

end EncedoHem
