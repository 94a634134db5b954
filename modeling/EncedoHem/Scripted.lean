import EncedoHem.Auth

namespace EncedoHem
open Text Dialogue

/-- What `apply_options` makes of absent options, on the built-in transport. -/
def Config.standard : Config where
  hasTransport := true
  connectTimeoutMs := 10000
  totalTimeoutMs := 30000
  requestPaceMs := 0
  tlsMode := .system
  checkinUrl := lit "https://api.encedo.com/checkin"
  noAutoCheckin := false
  checkinOnLogin := false
  confirmTimeoutMs := 60000
  confirmNotice := false
  noCredentialRetention := false
  kdfIters := 600000
  pollIntervalMs := 5000
  confirmTimeout_pos := by decide
  pollInterval_pos := by decide

/-- A context just created. -/
def Ctx.initial : Ctx := ⟨false, false, false, none, .clear, []⟩

/-- A context just logged in with a passphrase. -/
def Ctx.loggedIn : Ctx := { Ctx.initial with auth := some ⟨some (lit "pw"), 2, true, none, false, []⟩ }

/-- A context in mobile mode without a token. -/
def Ctx.mobile : Ctx := { Ctx.initial with auth := some ⟨none, 0, false, none, true, []⟩ }

def Answer.object (ms : List (String × Json)) : Answer :=
  .done ⟨200, some (printValue (.obj (ms.map fun m => (lit m.1, m.2))))⟩
def Answer.status (n : Int) : Answer := .done ⟨n, none⟩
def Answer.expired : Answer := .failed .network true (lit "certificate has expired")
def Answer.lost : Answer := .failed .network false (lit "connection reset")

def isSend : Event → Bool
  | ⟨.send _ _, _⟩ => true
  | _ => false

/-- An environment that gives the dispatches of a run the answers of a list, one
after the other, has all the memory it needs and clocks that stand still. -/
def scripted (clock : Int) (answers : List Answer) : List Event → (i : Op) → Ans i
  | h, .send _ _ => answers.getD (h.countP isSend) .lost
  | _, .alloc => true
  | _, .authNow => clock
  | _, .wallTime => clock
  | _, .sleep _ => ()
  | _, .notice _ _ => ()
  | _, .globalInit => .ok ()
  | _, .pbkdf2 _ _ _ => .ok []
  | _, .x25519Keypair _ => .ok ([], [])
  | _, .x25519Shared _ _ => .ok []
  | _, .hmacSha256 _ _ => .ok []
  | _, .mark _ => ()

section
variable {α : Type} (x : Cmd α) (s : Ctx) (clock : Int) (answers : List Answer)

/-- The run of a command in a scripted environment. -/
def scriptRun : List Event × Except Rc α × Ctx := (x s).play (scripted clock answers) []

def scriptEvents : List Event := (scriptRun x s clock answers).1
def scriptResult : Except Rc α := (scriptRun x s clock answers).2.1
def scriptState : Ctx := (scriptRun x s clock answers).2.2

theorem script_runs : Runs x s (scriptEvents x s clock answers) (scriptResult x s clock answers)
    (scriptState x s clock answers) := run_of_play (scripted clock answers) (x s)

end

end EncedoHem
