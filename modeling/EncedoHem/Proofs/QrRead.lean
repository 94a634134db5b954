import EncedoHem.Proofs.CipherTrip
import EncedoHem.QrPayload

namespace EncedoHem
open Text Dialogue

/-- What the payload says to the phone that reads it: where to look, what to find there, and for whom. -/
structure QrSays (root : Json) (link digest : Bytes) (user email hostname : Option Bytes) : Prop where
  link : Carries some root "link" (some link)
  hash : Carries fromB64 root "hash" (some digest)
  user : Carries some root "user" (some (user.getD []))
  email : Carries some root "email" (some (email.getD []))
  hostname : Carries some root "hostname" (some (hostname.getD []))

section
variable {link request digest : Bytes} {user email hostname : Option Bytes}

/-- What it says is said once, so that payloads of different requests or for different names differ. -/
theorem QrSays.unique {root : Json} {link' digest' : Bytes} {user' email' hostname' : Option Bytes}
    (h : QrSays root link digest user email hostname) (h' : QrSays root link' digest' user' email' hostname') :
    link = link' ∧ digest = digest' ∧ user.getD [] = user'.getD [] ∧ email.getD [] = email'.getD [] ∧
      hostname.getD [] = hostname'.getD [] :=
  ⟨Option.some.inj (h.link.unique h'.link), Option.some.inj (h.hash.unique h'.hash),
    Option.some.inj (h.user.unique h'.user), Option.some.inj (h.email.unique h'.email),
    Option.some.inj (h.hostname.unique h'.hostname)⟩

variable {sha256 : Bytes → Except Rc Bytes}

end

end EncedoHem
