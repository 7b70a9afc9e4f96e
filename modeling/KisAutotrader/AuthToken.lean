import Mathlib.Algebra.Order.Ring.Unbundled.Rat
import KisAutotrader.Coroutine

/-!
# The access token

`get_access_token` runs under the lock of its object, so the calls of one object
follow one another. Each reading of the clock, each load of the cache file and
each token request is a call to the environment, during which time may pass.
-/
namespace KisAutotrader.AuthToken
open Coroutine

/-- An expiry that cannot be compared with the clock, such as one with a time zone that
stood in the cache file, is `none`. -/
structure TokenInfo where
  accessToken : String
  expiresAt : Option ℚ
deriving DecidableEq

structure KISAuth where
  tokenInfo : Option TokenInfo := none
  refreshRetryAfter : Option ℚ := none

/-- A token request was sent, an attempt that began at a time failed, a token was issued. -/
inductive Entry
  | sent (time : ℚ)
  | failed (began : ℚ)
  | issued
deriving DecidableEq

structure World where
  auth : KISAuth := {}
  clock : ℚ
  log : List Entry := []

inductive AuthError
  | authentication
  | tokenExpired
  | other
deriving DecidableEq

/-- The body of a token response; its expiry is `none` where it is missing or does not parse. -/
structure TokenResponse where
  status : ℕ
  accessToken : String
  expires : Option ℚ

/-- What the environment answers: the time, the cache file, the response or the error of
the request. -/
structure Reply where
  now : ℚ := 0
  cached : Option TokenInfo := none
  response : Except AuthError TokenResponse := .error .authentication

inductive Req
  | now
  | loadFromCache
  | postToken
  | saveToCache

def Ans : Req → Type
  | .now => ℚ
  | .loadFromCache => Option TokenInfo
  | .postToken => Except AuthError TokenResponse
  | .saveToCache => Unit

def World.elapse (w : World) (now : ℚ) : World := { w with clock := max w.clock now }

def World.note (w : World) (entry : Entry) : World := { w with log := w.log ++ [entry] }

def World.onAuth (f : KISAuth → KISAuth) (w : World) : World := { w with auth := f w.auth }

def serve : (r : Req) → Reply → World → Ans r × World
  | .now, reply, w => ((w.elapse reply.now).clock, w.elapse reply.now)
  | .loadFromCache, reply, w => (reply.cached, w.elapse reply.now)
  | .postToken, reply, w => (reply.response, (w.note (.sent w.clock)).elapse reply.now)
  | .saveToCache, reply, w => ((), w.elapse reply.now)

abbrev AuthM := Proc World Req Ans

def datetimeNow : AuthM ℚ := ask Req.now

def loadFromCache : AuthM (Option TokenInfo) := ask Req.loadFromCache

def postToken : AuthM (Except AuthError TokenResponse) := ask Req.postToken

def saveToCache : AuthM Unit := ask Req.saveToCache

def refreshRetryInterval : ℚ := 60

def TokenInfo.isExpired (t : TokenInfo) : AuthM (Except AuthError Bool) := do
  let now ← datetimeNow
  match t.expiresAt with
  | none => pure (.error .other)
  | some e => pure (.ok (decide (now ≥ e)))

/-- An hour before the expiry. -/
def TokenInfo.shouldRefresh (t : TokenInfo) : AuthM (Except AuthError Bool) := do
  let now ← datetimeNow
  match t.expiresAt with
  | none => pure (.error .other)
  | some e => pure (.ok (decide (now ≥ e - 3600)))

/-- A missing or unreadable expiry counts as a day from now. -/
def parseExpires (expires : Option ℚ) : AuthM ℚ :=
  match expires with
  | some e => pure e
  | none => do
      let now ← datetimeNow
      pure (now + 86400)

def setToken (t : TokenInfo) (a : KISAuth) : KISAuth := { a with tokenInfo := some t }

def setRetryAfter (retryAfter : Option ℚ) (a : KISAuth) : KISAuth :=
  { a with refreshRetryAfter := retryAfter }

/-- The request of `_issue_token` and the use of its response. -/
def requestToken : AuthM (Except AuthError Unit) := do
  match ← postToken with
  | .error e => pure (.error e)
  | .ok response =>
      if response.status ≠ 200 ∨ response.accessToken = "" then pure (.error .authentication)
      else do
        let e ← parseExpires response.expires
        modify (World.onAuth (setToken ⟨response.accessToken, some e⟩))
        saveToCache
        pure (.ok ())

/-- `_issue_token`: a token that another process has cached meanwhile is taken over. -/
def issueToken : AuthM (Except AuthError Unit) := do
  match ← loadFromCache with
  | none => requestToken
  | some cached =>
      match ← cached.shouldRefresh with
      | .error e => pure (.error e)
      | .ok true => requestToken
      | .ok false => do
          modify (World.onAuth (setToken cached))
          pure (.ok ())

/-- After a failure a token that is still valid will do. -/
def fallBack (error : AuthError) : AuthM (Except AuthError Unit) := do
  match (← get).auth.tokenInfo with
  | none => pure (.error error)
  | some t =>
      match ← t.isExpired with
      | .error e => pure (.error e)
      | .ok true => pure (.error error)
      | .ok false => pure (.ok ())

def refreshToken : AuthM (Except AuthError Unit) := do
  let now ← datetimeNow
  let w ← get
  if w.auth.refreshRetryAfter.any (now < ·) then pure (.ok ())
  else
    match ← issueToken with
    | .ok () => do
        modify fun w => (w.onAuth (setRetryAfter none)).note .issued
        pure (.ok ())
    | .error e => do
        modify fun w => (w.onAuth (setRetryAfter (some (now + refreshRetryInterval)))).note (.failed now)
        fallBack e

def loadIfNone : AuthM Unit := do
  match (← get).auth.tokenInfo with
  | some _ => pure ()
  | none => do
      let cached ← loadFromCache
      modify (World.onAuth fun a => { a with tokenInfo := cached })

def needsRefresh : AuthM (Except AuthError Bool) := do
  match (← get).auth.tokenInfo with
  | none => pure (.ok true)
  | some t => t.shouldRefresh

/-- The end of `get_access_token`: no token is returned past its expiry. -/
def useToken : AuthM (Except AuthError String) := do
  match (← get).auth.tokenInfo with
  | none => pure (.error .authentication)
  | some t =>
      match ← t.isExpired with
      | .error e => pure (.error e)
      | .ok true => pure (.error .tokenExpired)
      | .ok false => pure (.ok t.accessToken)

def getAccessToken : AuthM (Except AuthError String) := do
  loadIfNone
  match ← needsRefresh with
  | .error e => pure (.error e)
  | .ok false => useToken
  | .ok true =>
      match ← refreshToken with
      | .error e => pure (.error e)
      | .ok () => useToken

/-- The calls of one object, made one after the other. -/
def runCalls (calls : List (ℕ → Reply)) (w : World) : World :=
  run serve (fun _ : Unit => do let _ ← getAccessToken; pure ()) (calls.map fun t => ((), t)) w

end KisAutotrader.AuthToken
