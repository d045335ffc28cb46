import Djangors.Auth.Lockout

/-! # Login throttling

`RateLimitedBackend` (`djangors-auth/src/lib.rs`): for each username the times of the attempts of the last
window are kept in memory, around another backend. -/

namespace Djangors.Auth

structure RateLimitedBackend where
  maxAttempts : UInt32
  window : Duration

def RateLimitedBackend.defaultLoginThrottle : RateLimitedBackend where
  maxAttempts := 5
  window := ⟨15 * 60 * 10 ^ 9, by simp⟩

/-- The times of a monotonic clock, in nanoseconds. -/
abbrev Instant := Nat

/-- The map behind the mutex; a username without an entry gets an empty one when it is asked for. -/
abbrev Attempts := String → List Instant

/-- The block of `authenticate` that holds the lock. -/
def RateLimitedBackend.limitExceeded (backend : RateLimitedBackend) (limiter : Attempts) (now : Instant)
    (username : String) : Attempts × Bool :=
  let attempts := (limiter username).filter fun t => now - t < backend.window.nanos
  if backend.maxAttempts ≤ attempts.length.toUInt32 then (Function.update limiter username attempts, true)
  else (Function.update limiter username (attempts ++ [now]), false)

/-- The backend inside, in a world of its own. -/
abbrev InnerBackend (χ U : Type) := χ → String → String → χ × Authentication U

/-- The map, the usernames for which the signal `LOGIN_FAILED` was sent, and the world of the backend inside. -/
structure ThrottledWorld (χ : Type) where
  limiter : Attempts
  loginFailed : List String
  inside : χ

/-- `RateLimitedBackend::new` -/
def ThrottledWorld.new {χ : Type} (inside : χ) : ThrottledWorld χ where
  limiter _ := []
  loginFailed := []
  inside := inside

/-- A call of `authenticate`. -/
structure LoginAttempt where
  now : Instant
  username : String
  password : String

/-- `RateLimitedBackend::authenticate` -/
def RateLimitedBackend.authenticate {χ U : Type} (backend : RateLimitedBackend) (inner : InnerBackend χ U)
    (world : ThrottledWorld χ) (attempt : LoginAttempt) : ThrottledWorld χ × Authentication U :=
  let (limiter, limitExceeded) := backend.limitExceeded world.limiter attempt.now attempt.username
  if limitExceeded then
    ({ world with limiter, loginFailed := world.loginFailed ++ [attempt.username] }, .error .rateLimited)
  else
    let (inside, answer) := inner world.inside attempt.username attempt.password
    ({ world with limiter, inside }, answer)

/-- The world after attempts that come one after the other. -/
def RateLimitedBackend.after {χ U : Type} (backend : RateLimitedBackend) (inner : InnerBackend χ U) (inside : χ)
    (attempts : List LoginAttempt) : ThrottledWorld χ :=
  attempts.foldl (fun world attempt => (backend.authenticate inner world attempt).1) (.new inside)

end Djangors.Auth
