import CrawlTrove.Numerals.Binary64

/-!
# Crawl configuration and native provider meters

The validated configuration a job is submitted with (`app/crawl/config.py`)
and the routes, providers and meters of managed acquisition
(`app/acquisition/providers.py`). The bounds pydantic checks are fields of
the structures, so an unvalidated configuration cannot be built.
-/

namespace CrawlTrove

open Numerals

/-- UUIDs are opaque; only equality of two of them matters. -/
abbrev Uuid := ℕ

/-- Time points and spans in microseconds, the resolution both Python and
PostgreSQL keep. -/
abbrev Time := ℤ

def seconds (n : ℤ) : Time := n * 1000000

def milliseconds (n : ℤ) : Time := n * 1000

/-! ## Providers, meters and routes -/

/-- The provider a submission may ask for. -/
inductive ProviderChoice
  | auto | local' | firecrawl | brightdata | browserbase
deriving DecidableEq, Repr

/-- The provider a route reports to the ledger. -/
inductive Provider
  | local' | firecrawl | brightdata | browserbase
deriving DecidableEq, Repr

inductive Meter
  | credits | requests | browserMinutes | proxyBytes
deriving DecidableEq, Repr

def Meter.all : List Meter := [.credits, .requests, .browserMinutes, .proxyBytes]

theorem Meter.mem_all (m : Meter) : m ∈ Meter.all := by cases m <;> simp [Meter.all]

inductive Route
  | localHttp | ownedProxyHttp | localBrowser | brightdataUnlocker
  | firecrawlScrape | firecrawlInteract | browserbaseSession
deriving DecidableEq, Repr

/-- `ROUTE_NATIVE_METERS`, first component. -/
def Route.provider : Route → Provider
  | .localHttp | .ownedProxyHttp | .localBrowser => .local'
  | .brightdataUnlocker => .brightdata
  | .firecrawlScrape | .firecrawlInteract => .firecrawl
  | .browserbaseSession => .browserbase

/-- `ROUTE_NATIVE_METERS`, second component. -/
def Route.meters : Route → List Meter
  | .localHttp | .ownedProxyHttp | .localBrowser => []
  | .brightdataUnlocker => [.requests]
  | .firecrawlScrape | .firecrawlInteract => [.credits]
  | .browserbaseSession => [.browserMinutes, .proxyBytes]

theorem Route.meters_nodup (r : Route) : r.meters.Nodup := by
  cases r <;> decide

/-- The capability a remote worker needs to reserve an attempt on the route. -/
def Route.capability : Route → String
  | .localHttp => "http"
  | .ownedProxyHttp => "proxy"
  | .localBrowser => "browser"
  | .brightdataUnlocker => "brightdata_unlocker"
  | .firecrawlScrape => "firecrawl_scrape"
  | .firecrawlInteract => "firecrawl_interact"
  | .browserbaseSession => "browserbase_session"

/-- A mapping of meter names to values as a caller passes it. A value is the
numeral JSON has for it, or `none` when it is a boolean, not a number or not
finite; `unknownKey` says that some key names no meter. -/
structure NativeValues where
  value : Meter → Option (Option Numeral)
  unknownKey : Bool := false

/-- The value of a meter, zero when the mapping lacks it. -/
def NativeValues.numeral (v : NativeValues) (m : Meter) : Numeral := ((v.value m).getD none).getD 0

/-- Every key is a meter of the route, and every meter of the route a key. -/
def NativeValues.keysAre (v : NativeValues) (r : Route) : Bool :=
  !v.unknownKey && Meter.all.all
    fun m => (v.value m).isSome == r.meters.contains m

/-- Every value of the mapping is a finite number that is not negative. -/
def NativeValues.finite (v : NativeValues) : Bool :=
  Meter.all.all fun m =>
    match v.value m with
    | some (some n) => decide (0 ≤ n.value)
    | some none => false
    | none => true

/-- `_native_cost`: the validated cost of a route, as a numeral per meter.
Meters outside the route cost nothing. -/
def nativeCost (r : Route) (v : NativeValues) : Except String (Meter → Numeral) :=
  if !v.keysAre r then .error "must report exactly the native meter keys of the route"
  else if !v.finite then .error "meter is invalid"
  else if r = .browserbaseSession ∧ (v.numeral .proxyBytes).value ≠ 0 then
    .error "Browserbase managed proxies are disabled"
  else .ok v.numeral

theorem NativeValues.numeral_nonneg {v : NativeValues} (h : v.finite = true) (m : Meter) :
    0 ≤ (v.numeral m).value := by
  have hm : ∀ m, (match v.value m with
      | some (some n) => decide (0 ≤ n.value)
      | some none => false
      | none => true) = true := by
    intro m
    have := List.all_eq_true.mp h
    exact this m m.mem_all
  have := hm m
  unfold NativeValues.numeral
  match hv : v.value m with
  | none => simp
  | some none => simp
  | some (some n) => simpa [hv] using this

theorem nativeCost_eq_numeral {r : Route} {v : NativeValues} {c : Meter → Numeral}
    (h : nativeCost r v = .ok c) : c = v.numeral := by
  unfold nativeCost at h
  split at h
  · cases h
  · split at h
    · cases h
    · split at h
      · cases h
      · cases h
        rfl

/-- A validated cost is never negative, and is zero off the route's meters. -/
theorem nativeCost_ok {r : Route} {v : NativeValues} {c : Meter → Numeral}
    (h : nativeCost r v = .ok c) :
    (∀ m, 0 ≤ (c m).value) ∧ ∀ m, m ∉ r.meters → c m = 0 := by
  obtain rfl := nativeCost_eq_numeral h
  unfold nativeCost at h
  split at h
  · cases h
  · rename_i hkeys
    split at h
    · cases h
    · rename_i hfin
      refine ⟨fun m => NativeValues.numeral_nonneg (by simpa using hfin) m, fun m hm => ?_⟩
      simp only [Bool.not_eq_true, Bool.not_eq_false', NativeValues.keysAre,
        Bool.and_eq_true, List.all_eq_true] at hkeys
      have hkey := hkeys.2 m m.mem_all
      have hnone : v.value m = none := by
        simpa [hm] using hkey
      simp [NativeValues.numeral, hnone]

/-- Every numeral of the mapping survives. -/
def NativeValues.Survives (v : NativeValues) : Prop :=
  ∀ m n, v.value m = some (some n) → n.Survives

theorem NativeValues.Survives.numeral {v : NativeValues} (h : v.Survives) (m : Meter) :
    (v.numeral m).Survives := by
  unfold NativeValues.numeral
  match hv : v.value m with
  | none => exact Numeral.survives_zero
  | some none => exact Numeral.survives_zero
  | some (some n) => exact h m n hv

/-- A mapping of Python numbers: `json.dumps` writes an integer or a float as
a numeral that `json.loads` and `str` give back. -/
structure PyValues extends NativeValues where
  survives : toNativeValues.Survives

/-! ## Job configuration -/

inductive Engine
  | auto | http | browser
deriving DecidableEq, Repr

structure BrowserbaseBudget where
  browserMinutes : ℚ
  proxyBytes : ℚ
  browserMinutes_nonneg : 0 ≤ browserMinutes
  proxyBytes_nonneg : 0 ≤ proxyBytes
deriving DecidableEq

/-- `CreditBudgets`; each budget is optional and never negative. -/
structure CreditBudgets where
  firecrawl : Option {credits : ℚ // 0 ≤ credits} := none
  brightdata : Option {requests : ℚ // 0 ≤ requests} := none
  browserbase : Option BrowserbaseBudget := none
deriving DecidableEq

structure AcquisitionConfig where
  provider : ProviderChoice := .auto
  maxAttempts : ℤ := 4
  creditBudgets : CreditBudgets := {}
  maxAttempts_ok : 1 ≤ maxAttempts ∧ maxAttempts ≤ 4 := by decide
deriving DecidableEq

/-- `CrawlConfig`, with the fields the durable store reads. -/
structure CrawlConfig where
  url : String
  limit : ℤ := 10
  maxDepth : ℤ := 3
  engine : Engine := .auto
  minDelayMs : ℤ := 1000
  maxBrowserPages : ℤ := 25
  maxFailures : ℤ := 100
  maxBytes : ℤ := 1073741824
  maxArtifactBytes : ℤ := 2147483648
  timeoutSeconds : ℤ := 21600
  acquisition : AcquisitionConfig := {}
  limit_ok : 1 ≤ limit ∧ limit ≤ 100 := by decide
  maxDepth_ok : 0 ≤ maxDepth ∧ maxDepth ≤ 5 := by decide
  minDelayMs_ok : 0 ≤ minDelayMs ∧ minDelayMs ≤ 60000 := by decide
  maxBrowserPages_ok : 0 ≤ maxBrowserPages ∧ maxBrowserPages ≤ 100 := by decide
  maxFailures_ok : 1 ≤ maxFailures ∧ maxFailures ≤ 100 := by decide
  maxBytes_ok : 1 ≤ maxBytes ∧ maxBytes ≤ 1073741824 := by decide
  maxArtifactBytes_ok : 1 ≤ maxArtifactBytes ∧ maxArtifactBytes ≤ 2147483648 := by decide
  timeoutSeconds_ok : 1 ≤ timeoutSeconds ∧ timeoutSeconds ≤ 21600 := by decide
deriving DecidableEq

/-- `_required_capabilities`: an explicit managed provider pins its route. -/
def CrawlConfig.requiredCapabilities (config : CrawlConfig) : List String :=
  match config.acquisition.provider with
  | .firecrawl => ["firecrawl_scrape"]
  | .brightdata => ["brightdata_unlocker"]
  | .browserbase => ["browserbase_session"]
  | .auto | .local' => if config.engine = .browser then ["browser"] else ["http"]

/-- `_provider_usage_rows`: the ledger rows a job starts with. -/
def CrawlConfig.providerUsageRows (config : CrawlConfig) :
    List (Provider × Meter × {limit : ℚ // 0 ≤ limit}) :=
  let budgets := config.acquisition.creditBudgets
  (budgets.firecrawl.toList.map fun b => (.firecrawl, .credits, b)) ++
  (budgets.brightdata.toList.map fun b => (.brightdata, .requests, b)) ++
  (budgets.browserbase.toList.flatMap fun b =>
    [(.browserbase, .browserMinutes, ⟨b.browserMinutes, b.browserMinutes_nonneg⟩),
     (.browserbase, .proxyBytes, ⟨b.proxyBytes, b.proxyBytes_nonneg⟩)])

end CrawlTrove
