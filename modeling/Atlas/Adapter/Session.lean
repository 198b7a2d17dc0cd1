import Atlas.Adapter.Exchange
import Atlas.Lib.Json.Bare
import Atlas.Lib.Run

/-!
# What an exchange is asked for: `bybit.go`, `okx.go`

* `Wire` : an exchange, its ping, and what a subscribe message means;
* `Session.step` : a call on the adapter, and the connection that its message goes out on; `ReadFrame` and `Ping` take
  the connection that was there when they began, and use it without `mu`;
* `Kept` : every message is on the connection that was the newest one, and the newest one was asked last for the
  symbols of the last accepted `Subscribe`;
* `asks_iff` : when a subscribe message means its symbols; `asked_run` : of every run.
-/

namespace Atlas.Adapter
open Json

/-- What an adapter writes on a connection. -/
inductive Outgoing
  | subscribe (symbols : List String)
  | ping
  deriving DecidableEq, Repr

def Outgoing.symbols? : Outgoing → Option (List String)
  | subscribe symbols => some symbols
  | ping => none

/-! ## The messages -/

namespace Bybit

def topic (s : String) : Data := .text ("tickers." ++ s)

theorem bare_topic (s : String) : (topic s).bare = Utf8.bytes (bybit.arg s) := by
  show Data.bareText ("tickers." ++ s) = Utf8.bytes (("\"tickers." ++ s) ++ "\"")
  rw [Data.bareText, Utf8.bytes_append, Utf8.bytes_append, Utf8.bytes_append, List.append_assoc]
  rfl

theorem all_topic (s : String) : (topic s).All IsBareText (fun _ => True) ↔ IsBareText s := by
  have hfront : IsBareText "tickers." := by decide
  show (∀ b ∈ Utf8.bytes ("tickers." ++ s), IsPlain b) ↔ ∀ b ∈ Utf8.bytes s, IsPlain b
  rw [Utf8.bytes_append, List.forall_mem_append]
  exact and_iff_right hfront

end Bybit

namespace Okx

def topic (s : String) : Data := .dict [("channel", .text "tickers"), ("instId", .text s)]

theorem bare_topic (s : String) : (topic s).bare = Utf8.bytes (okx.arg s) := by
  show (topic s).bare = Utf8.bytes (("\x7b\"channel\":\"tickers\",\"instId\":\"" ++ s) ++ "\"\x7d")
  rw [topic, Data.bare_dict, Utf8.bytes_append, Utf8.bytes_append]
  show 123 :: ([44].intercalate [Data.bareText "channel" ++ 58 :: Data.bareText "tickers",
    Data.bareText "instId" ++ 58 :: Data.bareText s] ++ [125]) = _
  rw [List.intercalate_cons_cons, List.intercalate_singleton, Data.bareText, Data.bareText, Data.bareText,
    Data.bareText]
  simp only [List.cons_append, List.append_assoc]
  rfl

theorem all_topic (s : String) : (topic s).All IsBareText (fun _ => True) ↔ IsBareText s := by
  have hchannel : IsBareText "channel" := by decide
  have htickers : IsBareText "tickers" := by decide
  have hinstId : IsBareText "instId" := by decide
  rw [topic, Data.all_dict]
  simp only [List.forall_mem_cons, List.not_mem_nil, false_imp_iff, implies_true, and_true]
  exact ⟨fun h => h.2.2, fun h => ⟨⟨hchannel, htickers⟩, hinstId, h⟩⟩

/-- `isPong` -/
def isPong (data : List UInt8) : Bool := data.length = 4 ∧ data = Utf8.bytes "pong"

end Okx

/-- An exchange, with what its subscribe messages stand for. -/
structure Wire extends Exchange where
  pingText : String
  /-- Not handed to the caller. -/
  isPong : List UInt8 → Bool
  topic : String → Data
  bare_topic : ∀ s, (topic s).bare = Utf8.bytes (arg s)
  all_topic : ∀ s, (topic s).All IsBareText (fun _ => True) ↔ IsBareText s

def bybitWire : Wire :=
  ⟨bybit, "\x7b\"op\":\"ping\"\x7d", fun _ => false, Bybit.topic, Bybit.bare_topic, Bybit.all_topic⟩

/-- The ping is no JSON. -/
def okxWire : Wire := ⟨okx, "ping", Okx.isPong, Okx.topic, Okx.bare_topic, Okx.all_topic⟩

namespace Wire
variable (w : Wire)

/-- The text of a message. -/
def text : Outgoing → String
  | .subscribe symbols => w.message symbols
  | .ping => w.pingText

/-- What a subscribe message is to say. -/
def request (symbols : List String) : Data :=
  .dict [("op", .text "subscribe"), ("args", .list (symbols.map w.topic))]

/-- The text is JSON, and says the request for just these symbols. -/
def Asks (m : String) (symbols : List String) : Prop := ∃ v, IsText (Utf8.bytes m) v ∧ (w.request symbols).Says v

theorem bytes_message (symbols : List String) : Utf8.bytes (w.message symbols) = (w.request symbols).bare := by
  have hargs : ([44] : List UInt8).intercalate ((symbols.map w.topic).map Data.bare) =
      Utf8.bytes (String.intercalate "," (symbols.map w.arg)) := by
    rw [Utf8.bytes_intercalate, List.map_map, List.map_map]
    show _ = [44].intercalate _
    congr 1
    exact List.map_congr_left fun s _ => w.bare_topic s
  have hfront : Utf8.bytes "\x7b\"op\":\"subscribe\",\"args\":[" =
      123 :: (Data.bareText "op" ++ 58 :: Data.bareText "subscribe" ++ 44 :: (Data.bareText "args" ++ [58, 91])) := by
    decide
  have hback : Utf8.bytes "]\x7d" = [93, 125] := by decide
  have hentries : ([44] : List UInt8).intercalate [Data.bareText "op" ++ 58 :: Data.bareText "subscribe",
        Data.bareText "args" ++ 58 :: 91 :: (Utf8.bytes (String.intercalate "," (symbols.map w.arg)) ++ [93])] =
      Data.bareText "op" ++ 58 :: Data.bareText "subscribe" ++ 44 :: (Data.bareText "args" ++
        58 :: 91 :: (Utf8.bytes (String.intercalate "," (symbols.map w.arg)) ++ [93])) := by
    rw [List.intercalate_cons_cons, List.intercalate_singleton, List.append_assoc]
    rfl
  have hmessage : Utf8.bytes (w.message symbols) = (Utf8.bytes "\x7b\"op\":\"subscribe\",\"args\":[" ++
      Utf8.bytes (String.intercalate "," (symbols.map w.arg))) ++ Utf8.bytes "]\x7d" :=
    (Utf8.bytes_append _ _).trans (congrArg (· ++ _) (Utf8.bytes_append _ _))
  rw [hmessage, request, Data.bare_dict]
  simp only [hfront, hback]
  rw [List.map_cons, List.map_singleton, Data.bare_text, Data.bare_list, hargs, hentries]
  simp only [List.cons_append, List.append_assoc, List.nil_append]

/-- **A subscribe message asks for its symbols** just when none of them needs an escape. -/
theorem asks_iff (symbols : List String) :
    w.Asks (w.message symbols) symbols ↔ ∀ symbol ∈ symbols, IsBareText symbol := by
  have hop : IsBareText "op" := by decide
  have hsubscribe : IsBareText "subscribe" := by decide
  have hargs : IsBareText "args" := by decide
  rw [Asks, bytes_message, Data.bare_says_iff, request, Data.all_dict]
  simp only [List.forall_mem_cons, List.not_mem_nil, false_imp_iff, implies_true, and_true, Data.all_list,
    List.forall_mem_map, w.all_topic]
  exact ⟨fun h => h.2.2, fun h => ⟨⟨hop, hsubscribe⟩, hargs, h⟩⟩

end Wire

/-! ## The calls on an adapter -/

/-- The limiter has no token at any of the readings: `Allow` fails, and the wait ends without one. -/
def RateLimiter.waitEnds : RateLimiter → List ℚ → Bool
  | _, [] => true
  | rl, now :: later => !(rl.allow now).2 && waitEnds (rl.allow now).1 later

structure Session where
  adapter : ExchangeAdapter
  /-- What was written on each connection, the newest connection and the newest message first. -/
  wires : List (List Outgoing) := []
  /-- The frames that `ReadFrame` returned. -/
  frames : List (List UInt8) := []
  /-- The symbols of each `Subscribe` that found a connection, the newest first; no step reads it. -/
  accepted : List (List String) := []
  /-- The wait for the latest subscribe message ended, or its `conn.Write` failed; no step reads it. -/
  missed : Bool := false

def newSession (w : Wire) (start : ℚ) : Session where
  adapter := newAdapter w.toExchange start

/-- `age` : how many connections are newer than the one in use. -/
inductive Event
  | connect (dialled : Bool) (clock : Clock) (written : Bool)
  | subscribe (symbols : List String) (clock : Clock) (written : Bool)
  /-- One `conn.Read` of a `ReadFrame`, which failed or read `data`. -/
  | read (age : Nat) (data : Option (List UInt8))
  | ping (age : Nat) (written : Bool)
  | close

/-- What `conn.Read` returned. -/
def Event.data? : Event → Option (List UInt8)
  | read _ data => data
  | _ => none

namespace Session

/-- The message that the adapter wrote on the way to `a`. -/
def news (s : Session) (a : ExchangeAdapter) : List Outgoing :=
  if s.adapter.sent.length < a.sent.length then [.subscribe a.lastSymbols] else []

/-- What keeps a message from the connection: a wait that ends, or a write that fails. -/
def unwritten (s : Session) (clock : Clock) (written : Bool) : Bool :=
  s.adapter.limiter.waitEnds clock.readings || !written

variable (w : Wire) (start : ℚ)

def step (s : Session) : Event → Option Session
  | .connect dialled clock written =>
    (s.adapter.step w.toExchange start (.connect dialled clock written)).map fun a =>
      if dialled then
        { s with
          adapter := a
          wires := s.news a :: s.wires
          missed := a.lastSymbols ≠ [] ∧ s.unwritten clock written }
      else { s with adapter := a }
  | .subscribe symbols clock written =>
    (s.adapter.step w.toExchange start (.subscribe symbols clock written)).map fun a =>
      if !s.adapter.connected || !s.adapter.dialled then { s with adapter := a }
      else { s with
        adapter := a
        wires := s.wires.modify 0 (s.news a ++ ·)
        accepted := symbols :: s.accepted
        missed := s.unwritten clock written }
  | .read age data =>
    if age < s.wires.length then
      match data with
      | none => (s.adapter.step w.toExchange start .readFailed).map fun a => { s with adapter := a }
      | some data => if w.isPong data then some s else some { s with frames := s.frames ++ [data] }
    else none
  | .ping age written =>
    if age < s.wires.length then
      some (if written then { s with wires := s.wires.modify age (.ping :: ·) } else s)
    else none
  | .close => (s.adapter.step w.toExchange start .close).map fun a => { s with adapter := a }

end Session

namespace Session
variable (w : Wire) (start : ℚ) (s : Session)

theorem step_read (age : Nat) (data : Option (List UInt8)) : s.step w start (.read age data) =
    if age < s.wires.length then
      match data with
      | none => (s.adapter.step w.toExchange start .readFailed).map fun a => { s with adapter := a }
      | some data => if w.isPong data then some s else some { s with frames := s.frames ++ [data] }
    else none := rfl

theorem step_ping (age : Nat) (written : Bool) : s.step w start (.ping age written) =
    if age < s.wires.length then
      some (if written then { s with wires := s.wires.modify age (.ping :: ·) } else s)
    else none := rfl

theorem step_close : s.step w start .close =
    (s.adapter.step w.toExchange start .close).map fun a => { s with adapter := a } := rfl

end Session

/-! ## What a call leaves -/

namespace ExchangeAdapter
variable {x : Exchange} {start : ℚ}

/-- Nothing but the limiter has moved. -/
structure Same (a b : ExchangeAdapter) : Prop where
  dialled : b.dialled = a.dialled
  connected : b.connected = a.connected
  lastSymbols : b.lastSymbols = a.lastSymbols

theorem Same.refl (a : ExchangeAdapter) : Same a a := ⟨rfl, rfl, rfl⟩

theorem Same.trans {a b c : ExchangeAdapter} (h : Same a b) (h' : Same b c) : Same a c :=
  ⟨h'.dialled.trans h.dialled, h'.connected.trans h.connected, h'.lastSymbols.trans h.lastSymbols⟩

theorem allow_same (a : ExchangeAdapter) (written : Bool) (now : ℚ) :
    Same a (a.allow x start written now).1 ∧ (a.allow x start written now).1.sent = a.sent := ⟨⟨rfl, rfl, rfl⟩, rfl⟩

theorem wait_same (a : ExchangeAdapter) (written : Bool) (now : ℚ) (later : List ℚ) :
    Same a (a.wait x start written now later).1 ∧ (a.wait x start written now later).1.sent = a.sent := by
  induction later generalizing a now with
  | nil =>
    have hallow := @allow_same x start a written now
    rw [wait_nil]
    rcases hb : a.allow x start written now with ⟨b, granted⟩
    rw [hb] at hallow
    cases granted <;> exact hallow
  | cons next later ih =>
    have hallow := @allow_same x start a written now
    rw [wait_cons]
    rcases hb : a.allow x start written now with ⟨b, granted⟩
    rw [hb] at hallow
    cases granted with
    | true => exact hallow
    | false => exact ⟨hallow.1.trans (ih b next).1, (ih b next).2.trans hallow.2⟩

/-- `conn.Write` leaves the message, or nothing. -/
theorem write_cases (a : ExchangeAdapter) (now : ℚ) (symbols : List String) (written : Bool) :
    Same a (a.write x now symbols written).1 ∧ ((a.write x now symbols written).1.sent = a.sent ∨
      ∃ t, (a.write x now symbols written).1.sent = (t, x.message symbols) :: a.sent) := by
  unfold write
  split_ifs
  · exact ⟨⟨rfl, rfl, rfl⟩, Or.inr ⟨now, rfl⟩⟩
  · exact ⟨Same.refl a, Or.inl rfl⟩

/-- One message at most goes out, for the symbols asked. -/
theorem subscribeLocked_cases (a : ExchangeAdapter) (symbols : List String) (clock : Clock) (written : Bool) :
    Same a (a.subscribeLocked x start symbols clock written).1 ∧
      ((a.subscribeLocked x start symbols clock written).1.sent = a.sent ∨
        ∃ now, (a.subscribeLocked x start symbols clock written).1.sent = (now, x.message symbols) :: a.sent) := by
  have hallow := @allow_same x start a written clock.allow
  unfold subscribeLocked
  rcases hb : a.allow x start written clock.allow with ⟨b, granted⟩
  rw [hb] at hallow
  obtain ⟨hsame, hsent⟩ : Same a b ∧ b.sent = a.sent := hallow
  cases granted with
  | true =>
    obtain ⟨hwrite, hcases⟩ := @write_cases x b clock.allow symbols written
    rw [hsent] at hcases
    exact ⟨hsame.trans hwrite, hcases⟩
  | false =>
    have hwait := @wait_same x start b written clock.wait clock.later
    dsimp only
    rcases hc : b.wait x start written clock.wait clock.later with ⟨c, granted⟩
    rw [hc] at hwait
    obtain ⟨hsame', hsent'⟩ : Same b c ∧ c.sent = b.sent := hwait
    cases granted with
    | none => exact ⟨hsame.trans hsame', Or.inl (hsent'.trans hsent)⟩
    | some now =>
      obtain ⟨hwrite, hcases⟩ := @write_cases x c now symbols written
      rw [hsent', hsent] at hcases
      exact ⟨(hsame.trans hsame').trans hwrite, hcases⟩

theorem wait_some {a : ExchangeAdapter} {written : Bool} {now : ℚ} {later : List ℚ}
    (h : a.limiter.waitEnds (now :: later) = false) : ∃ t, (a.wait x start written now later).2 = some t := by
  induction later generalizing a now with
  | nil =>
    have hgranted : (a.limiter.allow now).2 = true := by simpa [RateLimiter.waitEnds] using h
    rw [wait_nil]
    unfold allow
    dsimp only
    rw [hgranted]
    exact ⟨now, rfl⟩
  | cons next later ih =>
    rw [wait_cons]
    rw [RateLimiter.waitEnds] at h
    unfold allow
    dsimp only
    cases hgranted : (a.limiter.allow now).2 with
    | true => exact ⟨now, rfl⟩
    | false =>
      rw [hgranted] at h
      exact ih h

/-- With a token and a write that succeeds the message goes out. -/
theorem subscribeLocked_sends {a : ExchangeAdapter} {symbols : List String} {clock : Clock}
    (h : a.limiter.waitEnds clock.readings = false) :
    ∃ m, (a.subscribeLocked x start symbols clock true).1.sent = m :: a.sent := by
  have hallow := @allow_same x start a true clock.allow
  have hlimiter : (a.allow x start true clock.allow).1.limiter = (a.limiter.allow clock.allow).1 := rfl
  have hgranted : (a.allow x start true clock.allow).2 = (a.limiter.allow clock.allow).2 := rfl
  rw [Clock.readings, RateLimiter.waitEnds, ← hlimiter, ← hgranted] at h
  unfold subscribeLocked
  rcases hb : a.allow x start true clock.allow with ⟨b, granted⟩
  rw [hb] at hallow h
  obtain ⟨-, hsent⟩ : Same a b ∧ b.sent = a.sent := hallow
  cases granted with
  | true => exact ⟨_, congrArg _ hsent⟩
  | false =>
    have hwait := @wait_same x start b true clock.wait clock.later
    obtain ⟨now, hnow⟩ := @wait_some x start b true clock.wait clock.later h
    dsimp only
    rcases hc : b.wait x start true clock.wait clock.later with ⟨c, got⟩
    rw [hc] at hwait hnow
    obtain ⟨-, hsent'⟩ : Same b c ∧ c.sent = b.sent := hwait
    obtain rfl : got = some now := hnow
    exact ⟨_, congrArg _ (hsent'.trans hsent)⟩

/-- At most one message has gone out, for the symbols that are to be asked for. -/
def Adds (x : Exchange) (a b : ExchangeAdapter) : Prop :=
  b.sent = a.sent ∨ ∃ now, b.sent = (now, x.message b.lastSymbols) :: a.sent

theorem connect_cases (a : ExchangeAdapter) (clock : Clock) (written : Bool) :
    (a.connect x start true clock written).1.lastSymbols = a.lastSymbols ∧
      Adds x a (a.connect x start true clock written).1 ∧
      (a.lastSymbols = [] → (a.connect x start true clock written).1.sent = a.sent) ∧
      (a.lastSymbols ≠ [] → a.limiter.waitEnds clock.readings = false → written = true →
        ∃ m, (a.connect x start true clock written).1.sent = m :: a.sent) := by
  unfold connect Adds
  rw [if_neg (by decide)]
  dsimp only
  split_ifs with hsymbols
  · obtain ⟨hsame, hsent⟩ := @subscribeLocked_cases x start { a with dialled := true, connected := true }
      a.lastSymbols clock written
    rw [hsame.lastSymbols]
    refine ⟨rfl, hsent, fun hnil => absurd hnil (List.ne_nil_of_length_pos hsymbols), ?_⟩
    rintro - htoken rfl
    exact subscribeLocked_sends htoken
  · exact ⟨rfl, Or.inl rfl, fun _ => rfl, fun hne => absurd (List.length_pos_iff.mpr hne) hsymbols⟩

theorem subscribe_cases (a : ExchangeAdapter) (symbols : List String) (clock : Clock) (written : Bool) :
    if !a.connected || !a.dialled then (a.subscribe x start symbols clock written).1 = a
    else (a.subscribe x start symbols clock written).1.dialled = a.dialled ∧
      (a.subscribe x start symbols clock written).1.lastSymbols = symbols ∧
      Adds x a (a.subscribe x start symbols clock written).1 ∧
      (a.limiter.waitEnds clock.readings = false → written = true →
        ∃ m, (a.subscribe x start symbols clock written).1.sent = m :: a.sent) := by
  unfold subscribe Adds
  split_ifs
  · rfl
  · obtain ⟨hsame, hsent⟩ := @subscribeLocked_cases x start { a with lastSymbols := symbols } symbols clock written
    rw [hsame.lastSymbols]
    refine ⟨hsame.dialled, rfl, hsent, ?_⟩
    rintro htoken rfl
    exact @subscribeLocked_sends x start { a with lastSymbols := symbols } symbols clock htoken

end ExchangeAdapter

namespace Session
variable {w : Wire} {start : ℚ} {s s' : Session}

/-- The symbols of the subscribe messages on each connection. -/
def asked (s : Session) : List (List (List String)) := s.wires.map (·.filterMap Outgoing.symbols?)

theorem news_cases {a : ExchangeAdapter} (h : s.adapter.Adds w.toExchange a) :
    s.news a = [] ∧ a.sent = s.adapter.sent ∨
      s.news a = [.subscribe a.lastSymbols] ∧ ∃ now, a.sent = (now, w.message a.lastSymbols) :: s.adapter.sent := by
  unfold news
  rcases h with hsent | ⟨now, hsent⟩
  · rw [hsent, if_neg (lt_irrefl _)]
    exact Or.inl ⟨rfl, rfl⟩
  · rw [hsent, List.length_cons, if_pos (Nat.lt_succ_self _)]
    exact Or.inr ⟨rfl, now, rfl⟩

theorem news_ne_nil {a : ExchangeAdapter} (h : ∃ m, a.sent = m :: s.adapter.sent) : s.news a ≠ [] := by
  obtain ⟨m, hsent⟩ := h
  unfold news
  rw [hsent, List.length_cons, if_pos (Nat.lt_succ_self _)]
  exact List.cons_ne_nil _ _

theorem unwritten_eq_false {clock : Clock} {written : Bool} :
    s.unwritten clock written = false ↔ s.adapter.limiter.waitEnds clock.readings = false ∧ written = true := by
  rw [unwritten, Bool.or_eq_false_iff, Bool.not_eq_false']

theorem asked_ping (s : Session) (age : Nat) :
    asked { s with wires := s.wires.modify age (.ping :: ·) } = s.asked := by
  unfold asked
  apply List.ext_getElem?
  intro i
  rw [List.getElem?_map, List.getElem?_map, List.getElem?_modify]
  cases s.wires[i]? with
  | none => rfl
  | some wire =>
    show some ((if age = i then Outgoing.ping :: wire else wire).filterMap Outgoing.symbols?) = _
    split_ifs <;> rfl

/-- What holds in every state. -/
structure Kept (w : Wire) (s : Session) : Prop where
  /-- Each message is on the connection that was the newest one. -/
  sent : s.adapter.sent.map Prod.snd = s.asked.flatten.map w.message
  known : ∀ symbols ∈ s.asked.flatten, symbols ∈ s.accepted
  latest : s.adapter.lastSymbols = s.accepted.head?.getD []
  wires : s.adapter.dialled = true → s.wires ≠ []
  newest : s.missed = false → s.adapter.dialled = true → s.adapter.lastSymbols ≠ [] →
    (s.asked.head?.getD []).head? = some s.adapter.lastSymbols

theorem kept_newSession : Kept w (newSession w start) where
  sent := rfl
  known _ h := absurd h List.not_mem_nil
  latest := rfl
  wires h := absurd h Bool.false_ne_true
  newest _ h := absurd h Bool.false_ne_true

/-- A connection that comes or goes. -/
theorem Kept.of_adapter (h : Kept w s) {a : ExchangeAdapter} (hsent : a.sent = s.adapter.sent)
    (hlast : a.lastSymbols = s.adapter.lastSymbols) (hdialled : a.dialled = s.adapter.dialled) :
    Kept w { s with adapter := a } where
  sent := (congrArg _ hsent).trans h.sent
  known := h.known
  latest := hlast.trans h.latest
  wires hd := h.wires (hdialled.symm.trans hd)
  newest hmissed hd hne := by
    rw [hlast] at hne
    exact (h.newest hmissed (hdialled.symm.trans hd) hne).trans (congrArg some hlast.symm)

/-- A new connection, with the message for the latest symbols. -/
theorem Kept.dial (h : Kept w s) {a : ExchangeAdapter} (hlast : a.lastSymbols = s.adapter.lastSymbols)
    (hadds : s.adapter.Adds w.toExchange a) (hnone : s.adapter.lastSymbols = [] → a.sent = s.adapter.sent)
    {missed : Bool} (hmissed : missed = false → a.lastSymbols ≠ [] → s.news a ≠ []) :
    Kept w { s with adapter := a, wires := s.news a :: s.wires, missed := missed } := by
  rcases news_cases hadds with ⟨hnews, hsent⟩ | ⟨hnews, now, hsent⟩
  · refine ⟨?_, ?_, hlast.trans h.latest, fun _ => List.cons_ne_nil _ _, fun hout _ hne => ?_⟩
    · rw [hnews]
      exact (congrArg _ hsent).trans h.sent
    · rw [hnews]
      exact h.known
    · exact absurd hnews (hmissed hout hne)
  · have hmem : a.lastSymbols ∈ s.accepted := by
      have hlatest := hlast.trans h.latest
      cases haccepted : s.accepted with
      | nil =>
        rw [haccepted] at hlatest
        have hsame := congrArg List.length (hnone (hlast.symm.trans hlatest))
        rw [hsent, List.length_cons] at hsame
        exact absurd hsame (Nat.succ_ne_self _)
      | cons symbols rest =>
        rw [hlatest, haccepted]
        exact List.mem_cons_self
    refine ⟨?_, ?_, hlast.trans h.latest, fun _ => List.cons_ne_nil _ _, fun _ _ _ => ?_⟩
    · rw [hnews]
      show a.sent.map Prod.snd = w.message a.lastSymbols :: s.asked.flatten.map w.message
      rw [hsent, List.map_cons, h.sent]
    · rw [hnews]
      exact List.forall_mem_cons.mpr ⟨hmem, h.known⟩
    · rw [hnews]
      rfl

/-- An accepted `Subscribe`. -/
theorem Kept.subscribe (h : Kept w s) {a : ExchangeAdapter} (hwires : s.wires ≠ [])
    (hadds : s.adapter.Adds w.toExchange a) {missed : Bool} (hmissed : missed = false → s.news a ≠ []) :
    Kept w { s with adapter := a, wires := s.wires.modify 0 (s.news a ++ ·), accepted := a.lastSymbols :: s.accepted,
                    missed := missed } := by
  obtain ⟨wire, rest, hcons⟩ := List.exists_cons_of_ne_nil hwires
  have hasked : s.asked = wire.filterMap Outgoing.symbols? :: rest.map (·.filterMap Outgoing.symbols?) := by
    rw [asked, hcons, List.map_cons]
  have hkept := h.sent
  have hknown := h.known
  rw [hasked] at hkept hknown
  rcases news_cases hadds with ⟨hnews, hsent⟩ | ⟨hnews, now, hsent⟩
  · refine ⟨?_, ?_, rfl, fun _ => ?_, fun hout => absurd hnews (hmissed hout)⟩
    · rw [asked, hnews, hcons]
      exact (congrArg _ hsent).trans hkept
    · rw [asked, hnews, hcons]
      exact fun symbols hmem => List.mem_cons_of_mem _ (hknown symbols hmem)
    · rw [hcons]
      exact List.cons_ne_nil _ _
  · refine ⟨?_, ?_, rfl, fun _ => ?_, fun _ _ _ => ?_⟩
    · rw [asked, hnews, hcons]
      show a.sent.map Prod.snd = w.message a.lastSymbols :: _
      rw [hsent, List.map_cons, hkept]
      rfl
    · rw [asked, hnews, hcons]
      exact List.forall_mem_cons.mpr
        ⟨List.mem_cons_self, fun symbols hmem => List.mem_cons_of_mem _ (hknown symbols hmem)⟩
    · rw [hcons]
      exact List.cons_ne_nil _ _
    · rw [asked, hnews, hcons]
      rfl

theorem Kept.step (h : Kept w s) {e : Event} (hstep : s.step w start e = some s') : Kept w s' := by
  cases e with
  | connect dialled clock written =>
    obtain ⟨a, ha, rfl⟩ := Option.map_eq_some_iff.mp hstep
    unfold ExchangeAdapter.step at ha
    split_ifs at ha
    obtain rfl := Option.some.inj ha
    cases dialled with
    | false => exact h
    | true =>
      obtain ⟨hlast, hadds, hnone, hsends⟩ :=
        @ExchangeAdapter.connect_cases w.toExchange start s.adapter clock written
      refine h.dial hlast hadds hnone fun hmissed hne => news_ne_nil ?_
      have hunwritten : s.unwritten clock written = false := by simpa [hne] using hmissed
      obtain ⟨htoken, hwritten⟩ := unwritten_eq_false.mp hunwritten
      exact hsends (hlast ▸ hne) htoken hwritten
  | subscribe symbols clock written =>
    obtain ⟨a, ha, rfl⟩ := Option.map_eq_some_iff.mp hstep
    unfold ExchangeAdapter.step at ha
    split_ifs at ha
    obtain rfl := Option.some.inj ha
    have hcases := @ExchangeAdapter.subscribe_cases w.toExchange start s.adapter symbols clock written
    split_ifs at hcases ⊢ with hrefused
    · rw [hcases]
      exact h
    · obtain ⟨hdialled, hlast, hadds, hsends⟩ := hcases
      have hwires : s.wires ≠ [] := h.wires (by simpa using (not_or.mp (mt (Bool.or_eq_true_iff ..).mpr hrefused)).2)
      have hnews : s.unwritten clock written = false → s.news _ ≠ [] := fun hmissed =>
        news_ne_nil (hsends (unwritten_eq_false.mp hmissed).1 (unwritten_eq_false.mp hmissed).2)
      have hkept := h.subscribe hwires hadds hnews
      rwa [hlast] at hkept
  | read age data =>
    rw [step_read] at hstep
    split_ifs at hstep
    cases data with
    | none =>
      obtain ⟨a, ha, rfl⟩ := Option.map_eq_some_iff.mp hstep
      unfold ExchangeAdapter.step at ha
      split_ifs at ha
      obtain rfl := Option.some.inj ha
      unfold ExchangeAdapter.readFailed
      split_ifs
      · exact h.of_adapter rfl rfl rfl
      · exact h
    | some data =>
      dsimp only at hstep
      split_ifs at hstep
      · exact Option.some.inj hstep ▸ h
      · obtain rfl := Option.some.inj hstep
        exact ⟨h.sent, h.known, h.latest, h.wires, h.newest⟩
  | ping age written =>
    rw [step_ping] at hstep
    split_ifs at hstep
    · obtain rfl := Option.some.inj hstep
      have hasked : asked { s with wires := s.wires.modify age (.ping :: ·) } = s.asked := asked_ping s age
      refine ⟨?_, ?_, h.latest, fun hdialled => ?_, fun hmissed hdialled hne => ?_⟩
      · rw [hasked]
        exact h.sent
      · rw [hasked]
        exact h.known
      · have hlength := List.length_modify (Outgoing.ping :: ·) s.wires age
        exact List.ne_nil_of_length_pos (hlength ▸ List.length_pos_iff.mpr (h.wires hdialled))
      · rw [hasked]
        exact h.newest hmissed hdialled hne
    · exact Option.some.inj hstep ▸ h
  | close =>
    rw [step_close] at hstep
    obtain ⟨a, ha, rfl⟩ := Option.map_eq_some_iff.mp hstep
    unfold ExchangeAdapter.step at ha
    split_ifs at ha
    obtain rfl := Option.some.inj ha
    unfold ExchangeAdapter.close
    split_ifs
    · exact h
    · exact h.of_adapter rfl rfl rfl

theorem frames_step {e : Event} (hstep : s.step w start e = some s') :
    s'.frames = s.frames ++ (e.data?.toList).filter (!w.isPong ·) := by
  cases e with
  | connect dialled clock written =>
    obtain ⟨a, -, rfl⟩ := Option.map_eq_some_iff.mp hstep
    split_ifs <;> exact (List.append_nil _).symm
  | subscribe symbols clock written =>
    obtain ⟨a, -, rfl⟩ := Option.map_eq_some_iff.mp hstep
    split_ifs <;> exact (List.append_nil _).symm
  | read age data =>
    rw [step_read] at hstep
    split_ifs at hstep
    cases data with
    | none =>
      obtain ⟨a, -, rfl⟩ := Option.map_eq_some_iff.mp hstep
      exact (List.append_nil _).symm
    | some data =>
      dsimp only at hstep
      show s'.frames = s.frames ++ [data].filter (!w.isPong ·)
      split_ifs at hstep with hpong
      · obtain rfl := Option.some.inj hstep
        simp [hpong]
      · obtain rfl := Option.some.inj hstep
        simp [hpong]
  | ping age written =>
    rw [step_ping] at hstep
    split_ifs at hstep <;> exact Option.some.inj hstep ▸ (List.append_nil _).symm
  | close =>
    rw [step_close] at hstep
    obtain ⟨a, -, rfl⟩ := Option.map_eq_some_iff.mp hstep
    exact (List.append_nil _).symm

/-- The frames returned are those read, but for the pongs. -/
theorem frames_exec {events : List Event} (h : Run.exec (step w start) s events = some s') :
    s'.frames = s.frames ++ (events.filterMap Event.data?).filter (!w.isPong ·) := by
  induction events generalizing s with
  | nil =>
    obtain rfl := Option.some.inj h
    exact (List.append_nil _).symm
  | cons e events ih =>
    obtain ⟨t, ht, hrest⟩ := Option.bind_eq_some_iff.mp h
    rw [ih hrest, frames_step ht, List.append_assoc, ← List.filter_append]
    congr 2
    cases hdata : e.data? with
    | none => rw [List.filterMap_cons_none hdata]; rfl
    | some data => rw [List.filterMap_cons_some hdata]; rfl

/-- **What an exchange is asked for**, over every run: each subscribe message went to the connection that was the newest
one, for the symbols of an accepted `Subscribe`, and says them just when none needs an escape; the newest connection was
asked last for the latest of them, unless the wait for that message ended or its write failed; `ReadFrame` returns all
but the pongs. -/
theorem asked_run (w : Wire) (start : ℚ) (events : List Event) {s : Session}
    (h : Run.exec (step w start) (newSession w start) events = some s) :
    s.adapter.sent.map Prod.snd = s.asked.flatten.map w.message ∧
      (∀ symbols ∈ s.asked.flatten, symbols ∈ s.accepted ∧
        (w.Asks (w.message symbols) symbols ↔ ∀ symbol ∈ symbols, IsBareText symbol)) ∧
      (s.missed = false → s.adapter.dialled = true → ∀ latest ∈ s.accepted.head?, latest ≠ [] →
        (s.asked.head?.getD []).head? = some latest) ∧
      s.frames = (events.filterMap Event.data?).filter (!w.isPong ·) := by
  have hkept : Kept w s := Run.exec_invariant (Kept w) (fun _ _ _ hk hstep => hk.step hstep) kept_newSession h
  refine ⟨hkept.sent, fun symbols hmem => ⟨hkept.known symbols hmem, w.asks_iff symbols⟩, ?_, frames_exec h⟩
  intro hmissed hdialled latest hlatest hne
  have hlast : s.adapter.lastSymbols = latest := by
    rw [hkept.latest, hlatest]
    rfl
  rw [← hlast]
  exact hkept.newest hmissed hdialled (hlast ▸ hne)

/-- A subscription on OKX that is lost and made again. -/
def okxReconnect : List Event :=
  [.connect true ⟨0, 0, []⟩ true, .subscribe ["BTC-USDT"] ⟨0, 0, []⟩ true, .ping 0 true, .read 0 (Utf8.bytes "pong"),
    .read 0 none, .connect true ⟨5, 5, []⟩ true, .close]

theorem asked_okxReconnect : ∃ s, Run.exec (step okxWire 0) (newSession okxWire 0) okxReconnect = some s ∧
    s.missed = false ∧ s.adapter.dialled = true ∧ s.accepted = [["BTC-USDT"]] ∧
      s.adapter.sent.map Prod.snd = s.asked.flatten.map okxWire.message ∧
      (∀ symbols ∈ s.asked.flatten, symbols ∈ s.accepted ∧
        (okxWire.Asks (okxWire.message symbols) symbols ↔ ∀ symbol ∈ symbols, IsBareText symbol)) ∧
      (s.missed = false → s.adapter.dialled = true → ∀ latest ∈ s.accepted.head?, latest ≠ [] →
        (s.asked.head?.getD []).head? = some latest) ∧
      s.frames = (okxReconnect.filterMap Event.data?).filter (!okxWire.isPong ·) := by
  have hruns : (Run.exec (step okxWire 0) (newSession okxWire 0) okxReconnect).map
      (fun s => (s.missed, s.adapter.dialled, s.accepted)) = some (false, true, [["BTC-USDT"]]) := by decide +kernel
  obtain ⟨s, hs, hend⟩ := Option.map_eq_some_iff.mp hruns
  obtain ⟨hmissed, hdialled, haccepted⟩ :
      s.missed = false ∧ s.adapter.dialled = true ∧ s.accepted = [["BTC-USDT"]] := by
    simpa using hend
  exact ⟨s, hs, hmissed, hdialled, haccepted, asked_run okxWire 0 okxReconnect hs⟩

end Session

end Atlas.Adapter
