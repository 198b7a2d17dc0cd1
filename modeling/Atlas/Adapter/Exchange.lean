import Atlas.Lib.TokenBucket

/-!
# The exchange adapters: `services/ingestion/internal/adapter/okx.go`, `bybit.go`, `ratelimit.go`

* `RateLimiter` : the token bucket, with exact arithmetic in seconds;
* `Exchange` : what `okx` and `bybit` do not share;
* `ExchangeAdapter.connect`, `subscribe`, `readFailed`, `close` : the calls that hold `mu`; a call reads the clock each
  time it asks the limiter, and waits while the limiter has no token and its context is not done.
-/

namespace Atlas.Adapter
open TokenBucket

structure RateLimiter where
  tokens : ℚ
  maxTokens : ℚ
  /-- tokens per second -/
  refillRate : ℚ
  lastRefill : ℚ
  deriving DecidableEq, Repr

def newRateLimiter (maxTokens refillPerSec now : ℚ) : RateLimiter := ⟨maxTokens, maxTokens, refillPerSec, now⟩

/-- One token, if one is available. -/
@[irreducible] def RateLimiter.allow (rl : RateLimiter) (now : ℚ) : RateLimiter × Bool :=
  let elapsed := now - rl.lastRefill
  let tokens := rl.tokens + elapsed * rl.refillRate
  let tokens := if tokens > rl.maxTokens then rl.maxTokens else tokens
  if tokens ≥ 1 then ({ rl with tokens := tokens - 1, lastRefill := now }, true)
  else ({ rl with tokens, lastRefill := now }, false)

/-- An exchange, its limiter's settings and its published limit. -/
structure Exchange where
  name : String
  subscribeRate : ℚ
  subscribeBurst : ℚ
  /-- one entry of `args` in a subscribe message -/
  arg : String → String
  /-- The subscribe messages that the exchange takes in one window. -/
  quota : Nat
  /-- The length of the window, in seconds. -/
  window : ℚ

/-- 20 subscribe/unsubscribe per 10 seconds -/
def okx : Exchange where
  name := "okx"
  subscribeRate := 2
  subscribeBurst := 10
  arg s := "\x7b\"channel\":\"tickers\",\"instId\":\"" ++ s ++ "\"\x7d"
  quota := 20
  window := 10

/-- 10 ops/sec subscribe -/
def bybit : Exchange where
  name := "bybit"
  subscribeRate := 10
  subscribeBurst := 5
  arg s := "\"tickers." ++ s ++ "\""
  quota := 10
  window := 1

namespace Exchange
variable (x : Exchange)

/-- `{"op":"subscribe","args":[...]}` -/
def message (symbols : List String) : String :=
  "\x7b\"op\":\"subscribe\",\"args\":[" ++ String.intercalate "," (symbols.map x.arg) ++ "]\x7d"

/-- The limiter's bucket. -/
def rule : Rule ℚ := ⟨x.subscribeBurst, x.subscribeRate⟩

end Exchange

inductive AdapterError
  /-- {name} not connected -/
  | notConnected (name : String)
  /-- {name} dial failed -/
  | dialFailed (name : String)
  /-- rate limiter wait cancelled -/
  | waitCancelled
  /-- {name} subscribe failed -/
  | subscribeFailed (name : String)
  deriving DecidableEq, Repr

structure ExchangeAdapter where
  limiter : RateLimiter
  /-- `conn` is not nil. -/
  dialled : Bool := false
  connected : Bool := false
  lastSymbols : List String := []
  /-- The subscribe messages that were written, with the clock reading that let them through, the newest first. -/
  sent : List (ℚ × String) := []
  /-- What became of the tokens, the newest first; no step reads it. -/
  history : List (Entry ℚ) := []

def newAdapter (x : Exchange) (now : ℚ) : ExchangeAdapter where
  limiter := newRateLimiter x.subscribeBurst x.subscribeRate now

/-- The clock readings of one `subscribeLocked`: of its `Allow`, and of those of `Wait` up to the end of the context. -/
structure Clock where
  allow : ℚ
  wait : ℚ
  later : List ℚ
  deriving Repr

def Clock.readings (clock : Clock) : List ℚ := clock.allow :: clock.wait :: clock.later

namespace ExchangeAdapter
variable (x : Exchange) (start : ℚ)

/-- `limiter.Allow()`; the token is used for a message that is `written` or not. -/
def allow (written : Bool) (a : ExchangeAdapter) (now : ℚ) : ExchangeAdapter × Bool :=
  let (limiter, granted) := a.limiter.allow now
  ({ a with limiter, history := x.rule.poll (x.rule.latest start a.history) now written :: a.history }, granted)

/-- `limiter.Wait(ctx)`, with the reading that got the token. -/
def wait (written : Bool) : ExchangeAdapter → ℚ → List ℚ → ExchangeAdapter × Option ℚ
  | a, now, [] =>
    match a.allow x start written now with
    | (a, true) => (a, some now)
    | (a, false) => (a, none)
  | a, now, next :: later =>
    match a.allow x start written now with
    | (a, true) => (a, some now)
    | (a, false) => wait written a next later

theorem wait_nil (written : Bool) (a : ExchangeAdapter) (now : ℚ) : a.wait x start written now [] =
    match a.allow x start written now with
    | (a, true) => (a, some now)
    | (a, false) => (a, none) := rfl

theorem wait_cons (written : Bool) (a : ExchangeAdapter) (now next : ℚ) (later : List ℚ) :
    a.wait x start written now (next :: later) =
      match a.allow x start written now with
      | (a, true) => (a, some now)
      | (a, false) => a.wait x start written next later := rfl

/-- `conn.Write` of the subscribe message. -/
def write (a : ExchangeAdapter) (now : ℚ) (symbols : List String) (written : Bool) :
    ExchangeAdapter × Option AdapterError :=
  if written then ({ a with sent := (now, x.message symbols) :: a.sent }, none)
  else (a, some (.subscribeFailed x.name))

def subscribeLocked (a : ExchangeAdapter) (symbols : List String) (clock : Clock) (written : Bool) :
    ExchangeAdapter × Option AdapterError :=
  match a.allow x start written clock.allow with
  | (a, true) => a.write x clock.allow symbols written
  | (a, false) =>
    match a.wait x start written clock.wait clock.later with
    | (a, none) => (a, some .waitCancelled)
    | (a, some now) => a.write x now symbols written

def connect (a : ExchangeAdapter) (dialled : Bool) (clock : Clock) (written : Bool) :
    ExchangeAdapter × Option AdapterError :=
  if !dialled then (a, some (.dialFailed x.name))
  else
    let a := { a with dialled := true, connected := true }
    -- a re-subscribe that fails is logged, and the connection stays
    if a.lastSymbols.length > 0 then ((a.subscribeLocked x start a.lastSymbols clock written).1, none)
    else (a, none)

def subscribe (a : ExchangeAdapter) (symbols : List String) (clock : Clock) (written : Bool) :
    ExchangeAdapter × Option AdapterError :=
  if !a.connected || !a.dialled then (a, some (.notConnected x.name))
  else { a with lastSymbols := symbols }.subscribeLocked x start symbols clock written

/-- `ReadFrame` with a read that failed. -/
def readFailed (a : ExchangeAdapter) : ExchangeAdapter := if a.dialled then { a with connected := false } else a

def close (a : ExchangeAdapter) : ExchangeAdapter :=
  if !a.connected || !a.dialled then a else { a with connected := false }

end ExchangeAdapter

/-- The calls on an adapter, each with what happens in it. -/
inductive Call
  | connect (dialled : Bool) (clock : Clock) (written : Bool)
  | subscribe (symbols : List String) (clock : Clock) (written : Bool)
  | readFailed
  | close

/-- The clock readings of a call. -/
def Call.readings : Call → List ℚ
  | connect _ clock _ => clock.readings
  | subscribe _ clock _ => clock.readings
  | readFailed => []
  | close => []

/-- One call, absent where the clock runs backwards. -/
def ExchangeAdapter.step (x : Exchange) (start : ℚ) (a : ExchangeAdapter) (c : Call) : Option ExchangeAdapter :=
  if (a.limiter.lastRefill :: c.readings).Pairwise (· ≤ ·) then
    match c with
    | .connect dialled clock written => some (a.connect x start dialled clock written).1
    | .subscribe symbols clock written => some (a.subscribe x start symbols clock written).1
    | .readFailed => some a.readFailed
    | .close => some a.close
  else none

end Atlas.Adapter
