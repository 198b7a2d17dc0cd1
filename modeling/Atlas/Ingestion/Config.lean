import Atlas.Ipc.RoundTrip
import Atlas.Lib.GoText
import Mathlib.Data.List.TakeWhile

/-!
# The exchanges of the ingestion service: `services/ingestion/internal/config/config.go`

* `loadExchanges` : what the service makes of `WS_EXCHANGES`;
* `renderEntry`, `renderExchanges` : the documented text `name:uri:symbols:mode`, joined with `;`;
* `parseEntry_renderEntry` : an entry is read back when there is no `:` in its URI;
* `roundTrips_trimmed_iff`, `not_roundTrips` : no list of documented URIs `scheme://host[:port]/path` is read back.

Go strings are byte lists. `getenv` is `os.Getenv` and `toUpper` is `strings.ToUpper`, which names the variables of
the credentials.
-/

namespace Atlas.Ingestion
open Atlas.Ipc (Bytes splitN)
open GoText (trimSpace Trimmed equalFold)

/-- Per-exchange WebSocket configuration. -/
structure ExchangeConfig where
  name : Bytes
  wsURI : Bytes
  symbols : List Bytes
  testnet : Bool
  apiKey : Bytes
  apiSecret : Bytes
  deriving DecidableEq, Repr

/-- `fmt.Errorf(format, args...)` -/
structure ConfigError where
  format : String
  args : List Bytes
  deriving DecidableEq, Repr

/-- The non-empty trimmed parts between commas. -/
def parseSymbols (symbolsRaw : Bytes) : List Bytes :=
  ((symbolsRaw.splitOn 44).map trimSpace).filter (· ≠ [])

section
variable (getenv toUpper : Bytes → Bytes)

/-- The loop body, for a trimmed entry that is not empty. -/
def parseEntry (entry : Bytes) : Except ConfigError ExchangeConfig :=
  match splitN 58 4 entry with
  | name :: uri :: symbolsRaw :: modes =>
    let name := trimSpace name
    let uri := trimSpace uri
    let symbolsRaw := trimSpace symbolsRaw
    let mode := match modes with
      | [] => Utf8.bytes "mainnet"
      | mode :: _ => trimSpace mode
    if name = [] ∨ uri = [] ∨ symbolsRaw = [] then .error ⟨"exchange entry %q has empty required fields", [entry]⟩
    else
      let symbols := parseSymbols symbolsRaw
      if symbols = [] then .error ⟨"exchange %q has no symbols configured", [name]⟩
      else .ok {
        name
        wsURI := uri
        symbols
        testnet := equalFold mode (Utf8.bytes "testnet")
        apiKey := getenv (toUpper name ++ Utf8.bytes "_API_KEY")
        apiSecret := getenv (toUpper name ++ Utf8.bytes "_API_SECRET") }
  | _ => .error ⟨"invalid exchange entry %q: expected format name:uri:symbols[:mode]", [entry]⟩

def loadEntries : List Bytes → Except ConfigError (List ExchangeConfig)
  | [] => .ok []
  | entry :: entries =>
    let entry := trimSpace entry
    if entry = [] then loadEntries entries
    else do
      let exchange ← parseEntry getenv toUpper entry
      let exchanges ← loadEntries entries
      return exchange :: exchanges

def loadExchanges : Except ConfigError (List ExchangeConfig) :=
  let raw := getenv (Utf8.bytes "WS_EXCHANGES")
  if raw = [] then .error ⟨"WS_EXCHANGES environment variable is required but not set", []⟩
  else loadEntries getenv toUpper (raw.splitOn 59)

end

/-! ## The documented text -/

/-- An exchange as the operator writes it down. -/
structure Exchange where
  name : Bytes
  uri : Bytes
  symbols : List Bytes
  testnet : Bool
  name_ne : name ≠ []
  name_trimmed : Trimmed name
  name_plain : 58 ∉ name ∧ 59 ∉ name
  uri_plain : 59 ∉ uri
  symbols_ne : symbols ≠ []
  symbols_plain : ∀ symbol ∈ symbols, 44 ∉ symbol ∧ 58 ∉ symbol ∧ 59 ∉ symbol

def modeName (testnet : Bool) : Bytes := Utf8.bytes (if testnet then "testnet" else "mainnet")

/-- `name:uri:symbols:mode` -/
def renderEntry (exchange : Exchange) : Bytes :=
  exchange.name ++ 58 :: (exchange.uri ++ 58 :: ([44].intercalate exchange.symbols ++ 58 :: modeName exchange.testnet))

/-- Each exchange separated by semicolon. -/
def renderExchanges (exchanges : List Exchange) : Bytes := [59].intercalate (exchanges.map renderEntry)

/-- `scheme://host[:port]/path` -/
def DocumentedUri (uri : Bytes) : Prop := ∃ (scheme host path : Bytes) (port : Option Bytes),
  uri = scheme ++ 58 :: 47 :: 47 :: (host ++ (port.elim [] (58 :: ·) ++ 47 :: path))

/-- A configuration with the fields of the exchange. -/
def ReadsBack (config : ExchangeConfig) (exchange : Exchange) : Prop :=
  config.name = exchange.name ∧ config.wsURI = exchange.uri ∧ config.symbols = exchange.symbols ∧
    config.testnet = exchange.testnet

/-- The exchanges are read back, all of them and in their order. -/
def RoundTrips (getenv toUpper : Bytes → Bytes) (exchanges : List Exchange) : Prop :=
  ∃ configs, loadExchanges getenv toUpper = .ok configs ∧ List.Forall₂ ReadsBack configs exchanges

theorem mem_of_documentedUri {uri : Bytes} (h : DocumentedUri uri) : 58 ∈ uri := by
  obtain ⟨scheme, host, path, port, rfl⟩ := h
  exact List.mem_append_right _ (List.mem_cons_self ..)

/-! ## A `:` in a URI -/

/-- No part but the last has the separator in it. -/
theorem notMem_of_splitN {sep : UInt8} {n : Nat} {s part next : Bytes} {parts : List Bytes}
    (h : splitN sep (n + 2) s = part :: next :: parts) :
    sep ∉ part ∧ ∃ rest, splitN sep (n + 1) rest = next :: parts := by
  rw [splitN] at h
  split at h
  · cases h
  · rename_i rest _
    obtain ⟨rfl, hrest⟩ := List.cons.inj h
    refine ⟨fun hmem => ?_, rest, hrest⟩
    simpa using List.mem_takeWhile_imp hmem

section
variable {getenv toUpper : Bytes → Bytes}

theorem notMem_wsURI {entry : Bytes} {config : ExchangeConfig} (h : parseEntry getenv toUpper entry = .ok config) :
    58 ∉ config.wsURI := by
  unfold parseEntry at h
  split at h
  · rename_i name uri symbolsRaw modes hsplit
    obtain ⟨-, rest, hrest⟩ := notMem_of_splitN hsplit
    have huri := (notMem_of_splitN hrest).1
    dsimp only at h
    split_ifs at h
    obtain rfl := Except.ok.inj h
    exact fun hmem => huri ((GoText.trimSpace_sublist uri).subset hmem)
  · cases h

theorem notMem_wsURI_of_loadEntries {entries : List Bytes} {configs : List ExchangeConfig}
    (h : loadEntries getenv toUpper entries = .ok configs) : ∀ config ∈ configs, 58 ∉ config.wsURI := by
  induction entries generalizing configs with
  | nil =>
    obtain rfl := Except.ok.inj h
    simp
  | cons entry entries ih =>
    unfold loadEntries at h
    dsimp only at h
    split_ifs at h
    · exact ih h
    · cases hentry : parseEntry getenv toUpper (trimSpace entry) with
      | error e =>
        rw [hentry] at h
        cases h
      | ok config =>
        cases hentries : loadEntries getenv toUpper entries with
        | error e =>
          rw [hentry, hentries] at h
          cases h
        | ok rest =>
          rw [hentry, hentries] at h
          obtain rfl := Except.ok.inj h
          exact List.forall_mem_cons.mpr ⟨notMem_wsURI hentry, ih hentries⟩

/-! ## An entry without -/

theorem notMem_modeName (testnet : Bool) : 58 ∉ modeName testnet ∧ 59 ∉ modeName testnet := by
  cases testnet <;> decide

theorem trimmed_modeName (testnet : Bool) : Trimmed (modeName testnet) := by
  cases testnet <;> decide

theorem equalFold_modeName (testnet : Bool) : equalFold (modeName testnet) (Utf8.bytes "testnet") = testnet := by
  cases testnet <;> decide

/-- What `strings.TrimSpace` leaves of an exchange: URI and symbols are trimmed and not empty, as the name is. -/
def Exchange.Clean (exchange : Exchange) : Prop :=
  (exchange.uri ≠ [] ∧ Trimmed exchange.uri) ∧ ∀ symbol ∈ exchange.symbols, symbol ≠ [] ∧ Trimmed symbol

variable {exchange : Exchange}

theorem trimmed_symbols (h : exchange.Clean) : Trimmed ([44].intercalate exchange.symbols) :=
  GoText.trimmed_intercalate (by decide) fun symbol hsymbol => (h.2 symbol hsymbol).2

theorem symbols_ne_nil (h : exchange.Clean) : [44].intercalate exchange.symbols ≠ [] := by
  intro hnil
  obtain ⟨symbol, hsymbol⟩ := List.exists_mem_of_ne_nil _ exchange.symbols_ne
  have hsplit := List.splitOn_intercalate 44 (fun l hl => (exchange.symbols_plain l hl).1) exchange.symbols_ne
  rw [hnil, List.splitOn_nil] at hsplit
  rw [← hsplit] at hsymbol
  exact (h.2 symbol (hsplit ▸ hsymbol)).1 (List.mem_singleton.mp hsymbol)

theorem parseSymbols_intercalate (h : exchange.Clean) :
    parseSymbols ([44].intercalate exchange.symbols) = exchange.symbols := by
  unfold parseSymbols
  rw [List.splitOn_intercalate 44 (fun l hl => (exchange.symbols_plain l hl).1) exchange.symbols_ne]
  rw [List.map_congr_left (fun symbol hsymbol => (h.2 symbol hsymbol).2), List.map_id', List.filter_eq_self]
  intro symbol hsymbol
  simpa using (h.2 symbol hsymbol).1

/-- An entry without a `:` in its URI is read back. -/
theorem parseEntry_renderEntry (h : exchange.Clean) (huri : 58 ∉ exchange.uri) :
    ∃ config, parseEntry getenv toUpper (renderEntry exchange) = .ok config ∧ ReadsBack config exchange := by
  have hjoined : 58 ∉ [44].intercalate exchange.symbols := by
    intro hmem
    rcases GoText.mem_intercalate hmem with heq | ⟨symbol, hsymbol, hmem⟩
    · cases heq
    · exact (exchange.symbols_plain symbol hsymbol).2.1 hmem
  have hsplit : splitN 58 4 (renderEntry exchange) =
      [exchange.name, exchange.uri, [44].intercalate exchange.symbols, modeName exchange.testnet] := by
    unfold renderEntry
    rw [Ipc.splitN_append 58 2 _ _ exchange.name_plain.1, Ipc.splitN_append 58 1 _ _ huri,
      Ipc.splitN_append 58 0 _ _ hjoined, Ipc.splitN_of_notMem 0 (notMem_modeName _).1]
  unfold parseEntry
  rw [hsplit]
  dsimp only
  rw [exchange.name_trimmed, h.1.2, trimmed_symbols h, trimmed_modeName, parseSymbols_intercalate h, if_neg (by
    simpa only [not_or] using ⟨exchange.name_ne, h.1.1, symbols_ne_nil h⟩), if_neg exchange.symbols_ne]
  exact ⟨_, rfl, rfl, rfl, rfl, equalFold_modeName _⟩

theorem trimSpace_renderEntry (h : exchange.Clean) : trimSpace (renderEntry exchange) = renderEntry exchange :=
  have hcolon : ∀ space ∈ GoText.spaces, 58 ∉ space := by decide
  GoText.trimmed_append hcolon exchange.name_trimmed (GoText.trimmed_append hcolon h.1.2
    (GoText.trimmed_append hcolon (trimmed_symbols h) (trimmed_modeName _)))

/-! ## The round trip -/

theorem notMem_renderEntry (exchange : Exchange) : 59 ∉ renderEntry exchange := by
  intro hmem
  unfold renderEntry at hmem
  simp only [List.mem_append, List.mem_cons] at hmem
  rcases hmem with hname | h | huri | h | hsymbols | h | hmode
  · exact exchange.name_plain.2 hname
  · cases h
  · exact exchange.uri_plain huri
  · cases h
  · rcases GoText.mem_intercalate hsymbols with h | ⟨symbol, hsymbol, hmem⟩
    · cases h
    · exact (exchange.symbols_plain symbol hsymbol).2.2 hmem
  · cases h
  · exact (notMem_modeName _).2 hmode

theorem renderEntry_ne_nil (exchange : Exchange) : renderEntry exchange ≠ [] := by
  unfold renderEntry
  simp

theorem splitOn_renderExchanges {exchanges : List Exchange} (hne : exchanges ≠ []) :
    (renderExchanges exchanges).splitOn 59 = exchanges.map renderEntry := by
  apply List.splitOn_intercalate
  · intro entry hentry
    obtain ⟨exchange, -, rfl⟩ := List.mem_map.mp hentry
    exact notMem_renderEntry exchange
  · simpa using hne

/-- The variable is set, and the service goes through the entries. -/
theorem loadExchanges_eq {exchanges : List Exchange} (hne : exchanges ≠ [])
    (henv : getenv (Utf8.bytes "WS_EXCHANGES") = renderExchanges exchanges) :
    loadExchanges getenv toUpper = loadEntries getenv toUpper (exchanges.map renderEntry) := by
  have hraw : renderExchanges exchanges ≠ [] := by
    intro hnil
    have hsplit := splitOn_renderExchanges hne
    rw [hnil, List.splitOn_nil] at hsplit
    obtain ⟨exchange, -, h⟩ := List.mem_map.mp (hsplit ▸ List.mem_singleton_self ([] : Bytes))
    exact renderEntry_ne_nil exchange h
  unfold loadExchanges
  rw [henv, if_neg hraw, splitOn_renderExchanges hne]

theorem loadEntries_renderEntry {exchanges : List Exchange} (hclean : ∀ exchange ∈ exchanges, exchange.Clean)
    (huri : ∀ exchange ∈ exchanges, 58 ∉ exchange.uri) :
    ∃ configs, loadEntries getenv toUpper (exchanges.map renderEntry) = .ok configs ∧
      List.Forall₂ ReadsBack configs exchanges := by
  induction exchanges with
  | nil => exact ⟨[], rfl, .nil⟩
  | cons exchange exchanges ih =>
    obtain ⟨hfirst, hrest⟩ := List.forall_mem_cons.mp hclean
    obtain ⟨config, hconfig, hread⟩ :=
      @parseEntry_renderEntry getenv toUpper _ hfirst (huri exchange (List.mem_cons_self ..))
    obtain ⟨configs, hconfigs, hreads⟩ := ih hrest fun other hother => huri other (List.mem_cons_of_mem _ hother)
    refine ⟨config :: configs, ?_, .cons hread hreads⟩
    rw [List.map_cons, loadEntries, trimSpace_renderEntry hfirst, if_neg (renderEntry_ne_nil exchange), hconfig,
      hconfigs]
    rfl

theorem notMem_uri_of_roundTrips {exchanges : List Exchange} (hne : exchanges ≠ [])
    (henv : getenv (Utf8.bytes "WS_EXCHANGES") = renderExchanges exchanges)
    (h : RoundTrips getenv toUpper exchanges) : ∀ exchange ∈ exchanges, 58 ∉ exchange.uri := by
  obtain ⟨configs, hload, hreads⟩ := h
  rw [loadExchanges_eq hne henv] at hload
  have hconfigs := notMem_wsURI_of_loadEntries hload
  clear hload hne henv
  induction hreads with
  | nil => simp
  | @cons config exchange _ _ hread _ ih =>
    rw [List.forall_mem_cons] at hconfigs ⊢
    exact ⟨hread.2.1 ▸ hconfigs.1, ih hconfigs.2⟩

/-- Exchanges with trimmed URIs and symbols are read back just when there is no `:` in a URI. -/
theorem roundTrips_trimmed_iff {exchanges : List Exchange} (hne : exchanges ≠ [])
    (henv : getenv (Utf8.bytes "WS_EXCHANGES") = renderExchanges exchanges)
    (hclean : ∀ exchange ∈ exchanges, exchange.Clean) :
    RoundTrips getenv toUpper exchanges ↔ ∀ exchange ∈ exchanges, 58 ∉ exchange.uri := by
  refine ⟨notMem_uri_of_roundTrips hne henv, fun huri => ?_⟩
  obtain ⟨configs, hload, hreads⟩ := @loadEntries_renderEntry getenv toUpper _ hclean huri
  exact ⟨configs, (loadExchanges_eq hne henv).trans hload, hreads⟩

/-- **No list of exchanges with documented URIs is read back**: the entry is cut at the `:` behind the scheme. -/
theorem not_roundTrips {exchanges : List Exchange} (hne : exchanges ≠ [])
    (huri : ∀ exchange ∈ exchanges, DocumentedUri exchange.uri)
    (henv : getenv (Utf8.bytes "WS_EXCHANGES") = renderExchanges exchanges) :
    ¬ RoundTrips getenv toUpper exchanges := by
  intro h
  obtain ⟨exchange, hexchange⟩ := List.exists_mem_of_ne_nil _ hne
  exact notMem_uri_of_roundTrips hne henv h exchange hexchange (mem_of_documentedUri (huri exchange hexchange))

end

/-! ## Bybit's test network -/

/-- `bybit:wss://stream-testnet.bybit.com/v5/public/spot:BTCUSDT,ETHUSDT:testnet` -/
def bybit : Exchange where
  name := Utf8.bytes "bybit"
  uri := Utf8.bytes "wss://stream-testnet.bybit.com/v5/public/spot"
  symbols := [Utf8.bytes "BTCUSDT", Utf8.bytes "ETHUSDT"]
  testnet := true
  name_ne := by decide
  name_trimmed := by decide
  name_plain := by decide
  uri_plain := by decide
  symbols_ne := by decide
  symbols_plain := by decide

/-- The environment with `WS_EXCHANGES` alone. -/
def environment (exchanges : List Exchange) (key : Bytes) : Bytes :=
  if key = Utf8.bytes "WS_EXCHANGES" then renderExchanges exchanges else []

/-- `strings.ToUpper` on ASCII text. -/
def upperAscii (s : Bytes) : Bytes := s.map fun c => if 0x61 ≤ c ∧ c ≤ 0x7A then c - 0x20 else c

theorem documentedUri_bybit : DocumentedUri bybit.uri :=
  ⟨Utf8.bytes "wss", Utf8.bytes "stream-testnet.bybit.com", Utf8.bytes "v5/public/spot", none, by decide⟩

theorem not_roundTrips_bybit : ¬ RoundTrips (environment [bybit]) upperAscii [bybit] :=
  not_roundTrips (by simp) (by simpa using documentedUri_bybit) rfl

/-- The documented example becomes an exchange at the address `wss`, subscribed to the rest of its URI. -/
theorem loadExchanges_bybit :
    loadExchanges (environment [bybit]) upperAscii = .ok [⟨Utf8.bytes "bybit", Utf8.bytes "wss",
      [Utf8.bytes "//stream-testnet.bybit.com/v5/public/spot"], false, [], []⟩] := by
  decide +kernel

theorem bybit_not_readBack : DocumentedUri bybit.uri ∧ ¬ RoundTrips (environment [bybit]) upperAscii [bybit] := by
  refine ⟨documentedUri_bybit, fun ⟨configs, hload, hreads⟩ => ?_⟩
  rw [loadExchanges_bybit] at hload
  obtain rfl := Except.ok.inj hload
  obtain ⟨⟨-, huri, -⟩, -⟩ := List.forall₂_cons.mp hreads
  exact absurd huri (by decide)

end Atlas.Ingestion
