import EncedoHem.Context

namespace EncedoHem
open Text

/-- Seconds of lifetime the eJWT asks for. -/
def tokenLifetime : Int := 3600

/-- A token counts as expired this many seconds early. -/
def tokenSkew : Int := 60

namespace Auth

def fresh : Auth := ⟨none, 0, false, none, false, []⟩

def cacheFind (a : Auth) (scope : Bytes) : Option TokenEntry := a.cache.find? (·.scope = scope)

/-- Replace the scope's entry in place. -/
def cacheReplace (a : Auth) (scope token : Bytes) (exp : Int) : Auth :=
  { a with cache := a.cache.map fun e => if e.scope = scope then ⟨scope, token, exp⟩ else e }

def cacheInsert (a : Auth) (scope token : Bytes) (exp : Int) : Auth :=
  { a with cache := ⟨scope, token, exp⟩ :: a.cache }

def cacheClear (a : Auth) : Auth := { a with cache := [] }

/-- Take the first entry of the scope out. -/
def cacheRemove (a : Auth) (scope : Bytes) : Auth :=
  { a with cache := a.cache.eraseP (·.scope = scope) }

def scrubPassphrase (a : Auth) : Auth := { a with passphrase := none, passphraseLen := 0 }

/-- Without retention the passphrase has served its purpose after one login. -/
def afterUse (a : Auth) : Auth := if a.retain then a else a.scrubPassphrase

end Auth

def Ctx.setAuth (s : Ctx) (a : Option Auth) : Ctx := { s with auth := a }

def modifyAuth (f : Auth → Auth) : Cmd Unit := modifyCtx fun s => s.setAuth (s.auth.map f)

/-- `cache_put`: a copy of the token, and for a new entry the entry and a copy of
the scope. False, with the cache as it was, when memory is short. -/
def cachePut (scope token : Bytes) (exp : Int) : Cmd Bool := do
  let s ← getCtx
  let copied ← alloc
  if !copied then pure false
  else match s.auth.bind (·.cacheFind scope) with
    | some _ => do
      modifyAuth (·.cacheReplace scope token exp)
      pure true
    | none => do
      let entry ← alloc
      if !entry then pure false
      else do
        let named ← alloc
        if !named then pure false
        else do
          modifyAuth (·.cacheInsert scope token exp)
          pure true

def decodeBearerExp (token : Bytes) : Cmd (Option Int) := peekClaim token (lit "exp")

/-- The context's session state, created empty when there is none. -/
def needAuth : Cmd Auth := do
  let s ← getCtx
  match s.auth with
  | some a => pure a
  | none => do
    need
    modifyCtx fun s => s.setAuth (some .fresh)
    pure .fresh

/-- The bearer's own expiry, or the requested lifetime from now. -/
def expiryOr : Option Int → Cmd Int
  | some e => pure e
  | none => do
    let now ← authNow
    pure (now + tokenLifetime)

def authCacheSeed (scope token : Bytes) : Cmd Unit := do
  let _ ← needAuth
  let exp ← decodeBearerExp token
  let realExp ← expiryOr exp
  let put ← cachePut scope token (realExp - tokenSkew)
  if put then pure () else outOfMemory

/-- `ehem_auth_invalidate` for one scope. -/
def authInvalidate (scope : Bytes) : Cmd Unit := modifyAuth (·.cacheRemove scope)

/-- `ehem_auth_invalidate` for all scopes. -/
def authInvalidateAll : Cmd Unit := do
  modifyAuth Auth.cacheClear
  mark .reset

/-- `ehem_login`, leaving the mark `m`: the passphrase is copied first, so that a
failure leaves the prior session as it was. -/
def loginMarked (cfg : Config) (m : Mark) (passphrase : Bytes) : Cmd Unit := do
  clearError
  need
  let a ← needAuth
  modifyCtx fun s => s.setAuth <| some
    { a.cacheClear.scrubPassphrase with
      username := none
      passphrase := some passphrase
      passphraseLen := passphrase.length
      retain := !cfg.noCredentialRetention
      mobile := false }
  mark m

def login (cfg : Config) (passphrase : Bytes) : Cmd Unit := loginMarked cfg .reset passphrase

def loginMobile : Cmd Unit := do
  clearError
  let a ← needAuth
  modifyCtx fun s => s.setAuth <| some
    { a.cacheClear.scrubPassphrase with
      username := none
      mobile := true }
  mark .reset

def logout : Cmd Unit := do
  clearError
  modifyCtx fun s => s.setAuth none
  mark .reset

def authIsMobile : Cmd Bool := do
  let s ← getCtx
  pure (s.auth.any (·.mobile))

end EncedoHem
