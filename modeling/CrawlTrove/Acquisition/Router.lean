import CrawlTrove.Effects.Process
import CrawlTrove.Store.Config

/-!
# The acquisition router

`AcquisitionRouter.acquire` (`app/acquisition/router.py`). The registry, the adapters,
the repository and the scraper are code the router calls: each call may end in any way,
with any exception, and may depend on all that happened before. The events are the
lists of routes the router goes through, what it learns of each route, and the attempts
it reserves and finishes.
-/

namespace CrawlTrove.Acquisition.Router

open Effects Process

/-! ## What the router is given -/

structure NativeCost where
  values : NativeValues
  estimated : Bool := false

def noCost : NativeCost := { values := { value := fun _ => none } }

structure ProviderFailure where
  code : String
  retryable : Bool
  nativeCost : NativeCost
  statusCode : Option ℤ := none
  retryAfterSeconds : Option ℤ := none

/-- What can be raised. `error` is any other `Exception`, `interrupted` what is not an
`Exception`, such as a cancellation. -/
inductive Raised
  | providerFailure (failure : ProviderFailure)
  | providerProtocolError
  | providerUnavailable (message : String)
  | humanInputRequired (backend : String)
  | unsafeUrl
  | valueError (message : String)
  | recursionError
  | error (name : String)
  | interrupted (name : String)

/-- `isinstance(e, Exception)`. -/
def Raised.isException : Raised → Bool
  | .interrupted _ => false
  | _ => true

structure Proxy where
  server : String
  username : Option String := none
  password : Option String := none

/-- The task, with what the router reads of its configuration. -/
structure AcquireTask where
  id : Uuid
  leaseToken : Uuid
  originKey : String
  url : String
  byteAllowance : ℤ
  provider : ProviderChoice := .auto
  engine : Engine := .auto
  timeoutSeconds : ℤ := 60
  onlyMainContent : Bool := true
  sessionProfile : Option String := none
  allowHumanIntervention : Bool := false

/-- `options`; `before_browser` is a function the adapter may call. -/
structure Options (σ : Type) where
  onlyMainContent : Option Bool := none
  maxDecodedBytes : Option ℤ := none
  captureScreenshot : Bool := false
  beforeBrowser : Option (Call σ Raised Bool) := none
  proxy : Option Proxy := none

structure ProviderRequest (σ : Type) where
  url : String
  route : Route
  timeoutSeconds : ℤ
  onlyMainContent : Bool
  sessionProfile : Option String
  maxDecodedBytes : Option ℤ
  captureScreenshot : Bool
  beforeBrowser : Option (Call σ Raised Bool)
  proxy : Option Proxy

/-- A value of a metadata mapping. -/
inductive Value
  | text (s : String)
  | integer (n : ℤ)
  | other (json : String)

abbrev Metadata := String → Option Value

/-- `metadata.setdefault(key, value)`. -/
def setDefault (metadata : Metadata) (key : String) (value : Value) : Metadata :=
  Function.update metadata key (some ((metadata key).getD value))

structure ProviderResult where
  rawHtml : String
  finalUrl : String
  statusCode : Option ℤ
  nativeCost : NativeCost
  remoteSessionId : Option String := none
  downloadedBytes : ℤ := 0
  screenshot : Option ℕ := none
  prebuiltTitle : Option String := none
  prebuiltMarkdown : Option String := none
  prebuiltMetadata : Option Metadata := none

/-- What `scraper.build_result` returns. -/
structure Built where
  title : String := ""
  markdown : String := ""
  metadata : Option Metadata := none

structure TaskResult where
  finalUrl : String
  statusCode : Option ℤ
  title : String
  markdown : String
  metadata : Metadata
  discoveryHtml : String

structure Adapter where
  name : String
  isLocal : Bool

/-- The code outside. -/
structure Environment (σ : Type) where
  ensurePublicUrl : String → Call σ Raised Unit
  routeAvailable : Route → Call σ Raised Bool
  requireAvailable : ProviderChoice → Call σ Raised Unit
  adapterForRoute : Route → Call σ Raised Adapter
  unhealthy : String → Call σ Raised Unit
  reserveBrowserNavigation : Uuid → Uuid → Call σ Raised Bool
  reserveCost : Adapter → ProviderRequest σ → Call σ Raised NativeCost
  reserveAcquisitionAttempt : Uuid → Uuid → Route → NativeValues → Call σ Raised (Option Uuid)
  acquire : Adapter → ProviderRequest σ → Call σ Raised ProviderResult
  acquireOwnedProxy : Adapter → ProviderRequest σ → String → Uuid → Uuid →
    Call σ Raised ProviderResult
  buildResult : String → String → Bool → String → Option ℤ → Call σ Raised Built
  finishAcquisitionAttempt : Uuid → Uuid → String → NativeValues → Bool → Call σ Raised Unit
  cancel : Adapter → String → Call σ Raised Unit

/-- What is observed of a run. -/
inductive Event
  /-- The routes of a capability are gone through. -/
  | routes (capability : String) (routes : List Route)
  | available (route : Route) (reply : Bool)
  | navigation (reply : Bool)
  /-- `reserve_acquisition_attempt` returned an attempt. -/
  | reserved (route : Route) (attempt : Uuid)
  /-- The attempt gave a result, or ended with an exception. -/
  | ended (raised : Option Raised)
  /-- `finish_acquisition_attempt` is called. -/
  | finished (attempt : Uuid) (outcome : String)

def Event.reserved? : Event → Option Uuid
  | .reserved _ attempt => some attempt
  | _ => none

def Event.finished? : Event → Option Uuid
  | .finished attempt _ => some attempt
  | _ => none

abbrev Run (σ α : Type) := Process σ Event Raised α

/-! ## The router -/

/-- `routes_for`. -/
def routesFor (capability : String) : Option (List Route) :=
  if capability = "ordinary" then some [.localHttp]
  else if capability = "static_block" then some [.ownedProxyHttp, .brightdataUnlocker]
  else if capability = "rendering" then some [.localBrowser, .firecrawlScrape]
  else if capability = "interactive" then some [.browserbaseSession, .firecrawlInteract]
  else none

/-- `_capability`. -/
def capabilityOf (task : AcquireTask) : String :=
  if task.engine = .browser then "rendering" else "ordinary"

variable {σ : Type} (env : Environment σ)

/-- The routes of the list that are available. -/
def availableRoutes : List Route → Run σ (List Route)
  | [] => pure []
  | route :: routes => do
      let available ← ask (env.routeAvailable route)
      let rest ← availableRoutes routes
      return if available then route :: rest else rest

/-- `_routes`. -/
def routesOf (provider : ProviderChoice) (capability : String) : Run σ (List Route) :=
  match provider with
  | .auto =>
      match routesFor capability with
      | none => raise (.valueError "unknown acquisition capability")
      | some routes => availableRoutes env routes
  | provider => do
      ask (env.requireAvailable provider)
      match provider with
      | .local' => return [if capability = "rendering" then .localBrowser else .localHttp]
      | .brightdata => return [.brightdataUnlocker]
      | .browserbase => return [.browserbaseSession]
      | _ => return [if capability = "interactive" then .firecrawlInteract else .firecrawlScrape]

/-- `_normalize`. -/
def normalize (result : ProviderResult) (onlyMainContent : Bool) (engine : String) :
    Run σ TaskResult := do
  let withSizes (metadata : Metadata) : Metadata :=
    let metadata :=
      if result.downloadedBytes ≠ 0 then
        Function.update metadata "downloaded_bytes" (some (.integer result.downloadedBytes))
      else metadata
    match result.screenshot with
    | some (size + 1) => Function.update metadata "screenshot_bytes" (some (.integer (size + 1)))
    | _ => metadata
  match result.prebuiltMarkdown with
  | some markdown =>
      let metadata := setDefault (result.prebuiltMetadata.getD fun _ => none) "engine" (.text engine)
      let metadata :=
        match result.statusCode with
        | some status => setDefault metadata "status_code" (.integer status)
        | none => metadata
      return {
        finalUrl := result.finalUrl
        statusCode := result.statusCode
        title := result.prebuiltTitle.getD ""
        markdown
        metadata := withSizes metadata
        discoveryHtml := result.rawHtml }
  | none => do
      let built ← ask (env.buildResult result.rawHtml result.finalUrl onlyMainContent engine
        result.statusCode)
      return {
        finalUrl := result.finalUrl
        statusCode := result.statusCode
        title := built.title
        markdown := built.markdown
        metadata := withSizes (built.metadata.getD fun _ => none)
        discoveryHtml := result.rawHtml }

/-- How the `try` block and its handlers leave: with a result, with an exception, or at
their end. -/
inductive Flow
  | returned (result : TaskResult)
  | raised (e : Raised)
  | fell

/-- The variables of an attempt when its `finally` block begins. -/
structure Tried where
  result : Option ProviderResult := none
  failure : Option ProviderFailure := none
  transition : Bool := false
  flow : Flow

/-- Whether a failure is one that the static-block routes may cure. -/
def transitions (provider : ProviderChoice) (capability : String) (route : Route)
    (failure : ProviderFailure) : Bool :=
  provider = .auto && capability = "ordinary" && route = .localHttp &&
    failure.code = "blocked_challenge"

/-- An adapter that breaks the protocol is unhealthy. -/
def noteProtocolError (adapter : Adapter) (failure : ProviderFailure) : Run σ (Except Raised Unit) :=
  if failure.code = "provider_protocol_error" then outcome (ask (env.unhealthy adapter.name))
  else pure (.ok ())

/-- The `except` clauses. -/
def handle (provider : ProviderChoice) (capability : String) (route : Route) (adapter : Adapter)
    (reserved : NativeCost) (result : Option ProviderResult) (e : Raised) : Run σ Tried :=
  match e with
  | .providerFailure failure => do
      let transition := transitions provider capability route failure
      match ← noteProtocolError env adapter failure with
      | .error e => return { result, failure := some failure, transition, flow := .raised e }
      | .ok () =>
          return {
            result, failure := some failure, transition
            flow := if !failure.retryable && !transition then .raised e else .fell }
  | .unsafeUrl =>
      let failure : ProviderFailure := ⟨"unsafe_final_url", false, reserved, none, none⟩
      return { result, failure := some failure, flow := .raised (.providerFailure failure) }
  | .providerProtocolError => do
      match ← outcome (ask (env.unhealthy adapter.name)) with
      | .error e => return { result, flow := .raised e }
      | .ok () =>
          let failure : ProviderFailure := ⟨"provider_protocol_error", false, reserved, none, none⟩
          return { result, failure := some failure, flow := .raised (.providerFailure failure) }
  | e => return { result, flow := .raised e }

/-- The adapter's answer. -/
def acquireThrough (task : AcquireTask) (adapter : Adapter) (request : ProviderRequest σ) :
    Run σ ProviderResult :=
  if request.route = .ownedProxyHttp ∧ adapter.isLocal then
    ask (env.acquireOwnedProxy adapter request task.originKey task.id task.leaseToken)
  else ask (env.acquire adapter request)

/-- The `try` block of an attempt with its handlers. -/
def tryRoute (task : AcquireTask) (capability : String) (adapter : Adapter) (reserved : NativeCost)
    (request : ProviderRequest σ) : Run σ Tried := do
  match ← outcome (acquireThrough env task adapter request) with
  | .error e => do
      emit [.ended (some e)]
      handle env task.provider capability request.route adapter reserved none e
  | .ok result => do
      let normalized ← outcome do
        ask (env.ensurePublicUrl result.finalUrl)
        normalize env result request.onlyMainContent adapter.name
      match normalized with
      | .error e => do
          emit [.ended (some e)]
          handle env task.provider capability request.route adapter reserved (some result) e
      | .ok taskResult => do
          emit [.ended none]
          return { result := some result, flow := .returned taskResult }

/-- The cost an attempt is finished with. -/
def Tried.actual (t : Tried) (reserved : NativeCost) : NativeCost :=
  match t.result, t.failure with
  | some result, _ => result.nativeCost
  | none, some failure => failure.nativeCost
  | none, none => reserved

def Tried.outcome (t : Tried) : String :=
  match t.failure with
  | none => if t.result.isSome then "succeeded" else "failed"
  | some failure => if failure.retryable then "retryable_failure" else "failed"

/-- The `finally` block. -/
def close (task : AcquireTask) (adapter : Adapter) (reserved : NativeCost) (attempt : Uuid)
    (t : Tried) : Run σ Unit := do
  let actual := t.actual reserved
  let finished ← outcome do
    let call := env.finishAcquisitionAttempt attempt task.leaseToken t.outcome actual.values
      actual.estimated
    match ← outcome (ask call fun _ => [.finished attempt t.outcome]) with
    | .error .providerProtocolError => do
        ask (env.unhealthy adapter.name)
        raise (.providerFailure ⟨"provider_protocol_error", false, reserved, none, none⟩)
    | finished => settle finished
  match (t.result.bind ProviderResult.remoteSessionId).filter (· ≠ "") with
  | none => settle finished
  | some session => do
      match ← outcome (ask (env.cancel adapter session)) with
      | .ok () => settle finished
      | .error e => if e.isException then settle finished else raise e

/-- A person may help: `allowHumanIntervention` with an owned browser. -/
def helps (task : AcquireTask) : Bool :=
  task.allowHumanIntervention && (task.provider = .auto || task.provider = .local')

/-- What `acquire` raises when it has gone through its routes. -/
def exhausted (task : AcquireTask) : Option ProviderFailure → Raised
  | none => .providerUnavailable "provider_unavailable"
  | some failure =>
      if (failure.code = "blocked_challenge" || failure.code = "human_input_required") &&
          helps task then
        .humanInputRequired "owned"
      else .providerFailure failure

/-- No static-block route is left. -/
def switchFailed (task : AcquireTask) : Raised → Raised
  | .providerUnavailable message =>
      if helps task then .humanInputRequired "owned" else .providerUnavailable message
  | e => e

/-- A `ValueError` of `reserve_cost`. -/
def asBadRequest : Raised → Raised
  | .valueError _ | .unsafeUrl => .providerFailure ⟨"provider_request", false, noCost, none, none⟩
  | e => e

def asUnsafeRequest : Raised → Raised
  | .unsafeUrl => .providerFailure ⟨"unsafe_request_url", false, noCost, none, none⟩
  | e => e

/-- Whether the browser may not be used for want of budget. -/
def outOfNavigations (task : AcquireTask) (route : Route) : Run σ Bool :=
  if route = .localBrowser then do
    let granted ← ask (env.reserveBrowserNavigation task.id task.leaseToken) fun r =>
      (r.toOption.map Event.navigation).toList
    return !granted
  else return false

/-- Reserve an attempt on the route. -/
def reserve (task : AcquireTask) (adapter : Adapter) (request : ProviderRequest σ) :
    Run σ (NativeCost × Uuid) := do
  let reserved ← translate asBadRequest (ask (env.reserveCost adapter request))
  let call := env.reserveAcquisitionAttempt task.id task.leaseToken request.route reserved.values
  match ← ask call fun r => (r.toOption.join.map (Event.reserved request.route)).toList with
  | none => raise (.providerUnavailable "provider_budget_exhausted")
  | some attempt => return (reserved, attempt)

/-- The loop over the routes; `switch` goes through the static-block routes. -/
def tryRoutes (task : AcquireTask) (capability : String) (request : Route → ProviderRequest σ)
    (switch : Run σ TaskResult) : List Route → Option ProviderFailure → Run σ TaskResult
  | [], last => raise (exhausted task last)
  | route :: routes, last => do
      let available ← ask (env.routeAvailable route) fun r =>
        (r.toOption.map (Event.available route)).toList
      if !available then tryRoutes task capability request switch routes last
      else do
        let adapter ← ask (env.adapterForRoute route)
        if ← outOfNavigations env task route then
          tryRoutes task capability request switch routes
            (some ⟨"browser_budget_exhausted", false, noCost, none, none⟩)
        else do
          let (reserved, attempt) ← reserve env task adapter (request route)
          let tried ← tryRoute env task capability adapter reserved (request route)
          close env task adapter reserved attempt tried
          match tried.flow with
          | .returned result => return result
          | .raised e => raise e
          | .fell =>
              if tried.transition then translate (switchFailed task) switch
              else
                match tried.failure with
                | none => raise (exhausted task last)
                | some failure =>
                    if failure.retryable then
                      tryRoutes task capability request switch routes (some failure)
                    else raise (exhausted task (some failure))

/-- The request for a route. -/
def requestFor (task : AcquireTask) (options : Options σ) (route : Route) : ProviderRequest σ where
  url := task.url
  route
  timeoutSeconds := task.timeoutSeconds
  onlyMainContent := options.onlyMainContent.getD task.onlyMainContent
  sessionProfile := task.sessionProfile
  maxDecodedBytes := some (options.maxDecodedBytes.getD task.byteAllowance)
  captureScreenshot := options.captureScreenshot
  beforeBrowser := options.beforeBrowser
  proxy := options.proxy

/-- `AcquisitionRouter.acquire`, with calls of itself to a given depth. -/
def acquire (task : AcquireTask) (options : Options σ) :
    ℕ → Option String → Run σ TaskResult
  | 0, _ => raise .recursionError
  | depth + 1, capability => do
      let capability := capability.getD (capabilityOf task)
      translate asUnsafeRequest (ask (env.ensurePublicUrl task.url))
      let routes ← routesOf env task.provider capability
      if routes = [] then raise (.providerUnavailable "provider_unavailable")
      else do
        emit [.routes capability routes]
        tryRoutes env task capability (requestFor task options)
          (acquire task options depth (some "static_block")) routes none

/-! ## Passes over a list of routes -/

/-- What becomes of a route the loop comes to. -/
inductive Course
  | unavailable
  | outOfBudget
  /-- No attempt was reserved, before or after the browser was granted. -/
  | unreserved (granted : Bool)
  | tried (attempt : Uuid) (raised : Option Raised) (outcome : String)

structure Visit where
  route : Route
  course : Course

/-- The events of the browser budget, where it is asked for. -/
def navigations (route : Route) : List Event :=
  if route = .localBrowser then [.navigation true] else []

def Visit.events (v : Visit) : List Event :=
  match v.course with
  | .unavailable => [.available v.route false]
  | .outOfBudget => [.available v.route true, .navigation false]
  | .unreserved granted => .available v.route true :: if granted then navigations v.route else []
  | .tried attempt raised outcome =>
      .available v.route true ::
        (navigations v.route ++ [.reserved v.route attempt, .ended raised, .finished attempt outcome])

/-- The route failed retryably, was unavailable or was out of browser budget. -/
def Visit.Passable (v : Visit) : Prop :=
  v.course = .unavailable ∨ v.course = .outOfBudget ∨
    ∃ attempt f outcome, v.course = .tried attempt (some (.providerFailure f)) outcome ∧
      f.retryable = true

/-- The local route met a challenge. -/
def Visit.Blocked (v : Visit) : Prop :=
  v.route = .localHttp ∧
    ∃ attempt f outcome, v.course = .tried attempt (some (.providerFailure f)) outcome ∧
      f.code = "blocked_challenge"

structure Pass where
  capability : String
  routes : List Route
  visits : List Visit

def Pass.events (p : Pass) : List Event :=
  .routes p.capability p.routes :: p.visits.flatMap Visit.events

/-- The routes are visited in the order of the list, and the loop goes on from those only
that are passable. -/
def InOrder (routes : List Route) (visits : List Visit) : Prop :=
  visits.map Visit.route <+: routes ∧ ∀ v ∈ visits.dropLast, v.Passable

/-- After this pass the static-block routes are gone through. -/
def Pass.Switches (p : Pass) (task : AcquireTask) : Prop :=
  task.provider = .auto ∧ p.capability = "ordinary" ∧
    ∃ v, p.visits.getLast? = some v ∧ v.Blocked

/-! ## What the parts emit -/

section

variable {σ : Type} {env : Environment σ}

theorem emits_quietly {α : Type} {call : Call σ Raised α} :
    Emits (ask call : Run σ α) fun _ L => L = [] := Emits.ask fun _ => rfl

theorem emits_availableRoutes (routes : List Route) :
    Emits (availableRoutes env routes) fun r L => L = [] ∧
      ∀ found, r = .ok found → found.Sublist routes := by
  induction routes with
  | nil =>
      refine Emits.pure ⟨rfl, ?_⟩
      rintro found ⟨⟩
      exact List.Sublist.refl []
  | cons route routes ih =>
      refine Emits.bind emits_quietly ?_ fun e L hL => ⟨hL, by rintro found ⟨⟩⟩
      rintro available L rfl
      refine Emits.bind ih ?_ fun e L h => ⟨h.1, by rintro found ⟨⟩⟩
      rintro rest L ⟨rfl, hrest⟩
      refine Emits.pure ⟨rfl, ?_⟩
      rintro found ⟨⟩
      cases available
      · exact (hrest rest rfl).cons route
      · exact (hrest rest rfl).cons_cons route

theorem emits_routesOf (provider : ProviderChoice) (capability : String) :
    Emits (routesOf env provider capability) fun r L => L = [] ∧
      ∀ found, r = .ok found → provider = .auto →
        ∃ all, routesFor capability = some all ∧ found.Sublist all := by
  have hmanaged : ∀ (route : Route) (provider : ProviderChoice), provider ≠ .auto →
      Emits (do ask (env.requireAvailable provider); return [route] : Run σ (List Route))
        fun r L => L = [] ∧ ∀ found, r = .ok found → provider = .auto →
          ∃ all, routesFor capability = some all ∧ found.Sublist all := by
    intro route provider hne
    refine Emits.bind emits_quietly ?_ fun e L hL => ⟨hL, by rintro found ⟨⟩⟩
    rintro - L rfl
    exact Emits.pure ⟨rfl, fun found _ hauto => absurd hauto hne⟩
  cases provider with
  | auto =>
      unfold routesOf
      cases hall : routesFor capability with
      | none => exact Emits.raise ⟨rfl, by rintro found ⟨⟩⟩
      | some all =>
          refine (emits_availableRoutes all).mono ?_
          rintro r L ⟨hL, hfound⟩
          exact ⟨hL, fun found hr _ => ⟨all, rfl, hfound found hr⟩⟩
  | local' => exact hmanaged _ _ (by decide)
  | firecrawl => exact hmanaged _ _ (by decide)
  | brightdata => exact hmanaged _ _ (by decide)
  | browserbase => exact hmanaged _ _ (by decide)

theorem emits_normalize (result : ProviderResult) (onlyMainContent : Bool) (engine : String) :
    Emits (normalize env result onlyMainContent engine) fun _ L => L = [] := by
  unfold normalize
  cases result.prebuiltMarkdown with
  | some markdown => exact Emits.pure rfl
  | none =>
      refine Emits.bind emits_quietly ?_ fun e L hL => hL
      rintro built L rfl
      exact Emits.pure rfl

theorem emits_acquireThrough (task : AcquireTask) (adapter : Adapter)
    (request : ProviderRequest σ) :
    Emits (acquireThrough env task adapter request) fun _ L => L = [] := by
  unfold acquireThrough
  split
  · exact emits_quietly
  · exact emits_quietly

/-- The handlers are left at their end only by a retryable failure, or by one that the
static-block routes may cure. -/
def Tried.Fits (t : Tried) (task : AcquireTask) (capability : String) (route : Route)
    (raised : Option Raised) : Prop :=
  t.flow = .fell → ∃ f, raised = some (.providerFailure f) ∧ t.failure = some f ∧
    t.transition = transitions task.provider capability route f ∧
    (t.transition = false → f.retryable = true)

theorem fits_of_raised {task : AcquireTask} {capability : String} {route : Route}
    {raised : Option Raised} {result : Option ProviderResult} {failure : Option ProviderFailure}
    {transition : Bool} {e : Raised} :
    Tried.Fits ⟨result, failure, transition, .raised e⟩ task capability route raised := by
  rintro ⟨⟩

theorem emits_noteProtocolError (adapter : Adapter) (failure : ProviderFailure) :
    Emits (noteProtocolError env adapter failure) fun r L => L = [] ∧ ∃ noted, r = .ok noted := by
  unfold noteProtocolError
  split
  · exact Emits.outcome (Emits.ask fun r => ⟨rfl, r, rfl⟩)
  · exact Emits.pure ⟨rfl, _, rfl⟩

theorem emits_handle (task : AcquireTask) (capability : String) (route : Route) (adapter : Adapter)
    (reserved : NativeCost) (result : Option ProviderResult) (e : Raised) :
    Emits (handle env task.provider capability route adapter reserved result e) fun r L =>
      L = [] ∧ ∃ t, r = .ok t ∧ t.Fits task capability route (some e) := by
  cases e with
  | providerFailure f =>
      refine Emits.bind (emits_noteProtocolError adapter f) ?_ fun e L h => by simp at h
      rintro noted L ⟨rfl, -⟩
      cases noted with
      | error e => exact Emits.pure ⟨rfl, _, rfl, fits_of_raised⟩
      | ok _ =>
          refine Emits.pure ⟨rfl, _, rfl, fun hfell => ⟨f, rfl, rfl, rfl, fun hstays => ?_⟩⟩
          by_contra hretry
          simp only [Bool.not_eq_true] at hretry
          simp only at hstays
          simp [hretry, hstays] at hfell
  | unsafeUrl => exact Emits.pure ⟨rfl, _, rfl, fits_of_raised⟩
  | providerProtocolError =>
      refine Emits.bind (Emits.outcome (Φ := fun r L => L = [] ∧ ∃ noted, r = .ok noted)
        (Emits.ask fun r => ⟨rfl, r, rfl⟩)) ?_ fun e L h => by simp at h
      rintro noted L ⟨rfl, -⟩
      cases noted with
      | error e => exact Emits.pure ⟨rfl, _, rfl, fits_of_raised⟩
      | ok _ => exact Emits.pure ⟨rfl, _, rfl, fits_of_raised⟩
  | providerUnavailable => exact Emits.pure ⟨rfl, _, rfl, fits_of_raised⟩
  | humanInputRequired => exact Emits.pure ⟨rfl, _, rfl, fits_of_raised⟩
  | valueError => exact Emits.pure ⟨rfl, _, rfl, fits_of_raised⟩
  | recursionError => exact Emits.pure ⟨rfl, _, rfl, fits_of_raised⟩
  | error => exact Emits.pure ⟨rfl, _, rfl, fits_of_raised⟩
  | interrupted => exact Emits.pure ⟨rfl, _, rfl, fits_of_raised⟩

theorem emits_tryRoute (task : AcquireTask) (capability : String) (adapter : Adapter)
    (reserved : NativeCost) (request : ProviderRequest σ) :
    Emits (tryRoute env task capability adapter reserved request) fun r L =>
      ∃ t raised, r = .ok t ∧ L = [.ended raised] ∧ t.Fits task capability request.route raised := by
  have hhandle : ∀ (result : Option ProviderResult) (e : Raised),
      Emits (do
        emit [.ended (some e)]
        handle env task.provider capability request.route adapter reserved result e : Run σ Tried)
        fun r L => ∃ t raised, r = .ok t ∧ L = [.ended raised] ∧
          t.Fits task capability request.route raised := by
    intro result e
    refine Emits.bind (Emits.emit (Φ := fun r L => r = .ok () ∧ L = [.ended (some e)])
      ⟨rfl, rfl⟩) ?_ fun e L h => by simp at h
    rintro - L ⟨-, rfl⟩
    refine (emits_handle task capability request.route adapter reserved result e).mono ?_
    rintro r L ⟨rfl, t, rfl, hfits⟩
    exact ⟨t, some e, rfl, rfl, hfits⟩
  refine Emits.bind (Emits.outcome (Φ := fun r L => L = [] ∧ ∃ answer, r = .ok answer)
    ((emits_acquireThrough task adapter request).mono fun r L hL => ⟨hL, r, rfl⟩)) ?_
    fun e L h => by simp at h
  rintro answer L ⟨rfl, -⟩
  cases answer with
  | error e => exact hhandle none e
  | ok result =>
      have hnormalized : Emits (do
          ask (env.ensurePublicUrl result.finalUrl)
          normalize env result request.onlyMainContent adapter.name : Run σ TaskResult)
          fun _ L => L = [] := by
        refine Emits.bind emits_quietly ?_ fun e L hL => hL
        rintro - L rfl
        exact emits_normalize result request.onlyMainContent adapter.name
      refine Emits.bind (Emits.outcome (Φ := fun r L => L = [] ∧ ∃ answer, r = .ok answer)
        (hnormalized.mono fun r L hL => ⟨hL, r, rfl⟩)) ?_ fun e L h => by simp at h
      rintro normalized L ⟨rfl, -⟩
      cases normalized with
      | error e => exact hhandle (some result) e
      | ok taskResult =>
          refine Emits.bind (Emits.emit (Φ := fun r L => r = .ok () ∧ L = [.ended none])
            ⟨rfl, rfl⟩) ?_ fun e L h => by simp at h
          rintro - L ⟨-, rfl⟩
          exact Emits.pure ⟨_, none, rfl, rfl, by rintro ⟨⟩⟩

/-- The `finally` block finishes the attempt, once, however it ends. -/
theorem emits_close (task : AcquireTask) (adapter : Adapter) (reserved : NativeCost)
    (attempt : Uuid) (t : Tried) :
    Emits (close env task adapter reserved attempt t) fun _ L =>
      L = [.finished attempt t.outcome] := by
  unfold close
  refine Emits.bind (Emits.outcome (Φ := fun _ L => L = [.finished attempt t.outcome]) ?_) ?_
    fun e L hL => hL
  · refine Emits.bind (Emits.outcome (Φ := fun r L => L = [.finished attempt t.outcome])
      (Emits.ask fun r => rfl)) ?_ fun e L hL => hL
    rintro finished L rfl
    split
    · refine Emits.bind emits_quietly ?_ ?_
      · rintro - L rfl
        exact Emits.raise rfl
      · rintro e L rfl
        rfl
    · exact Emits.settle rfl
  · rintro finished L rfl
    split
    · exact Emits.settle rfl
    · refine Emits.bind (Emits.outcome (Φ := fun _ L => L = []) emits_quietly) ?_ ?_
      · rintro cancelled L rfl
        split
        · exact Emits.settle rfl
        · split
          · exact Emits.settle rfl
          · exact Emits.raise rfl
      · rintro e L rfl
        rfl

theorem emits_reserve (task : AcquireTask) (adapter : Adapter) (request : ProviderRequest σ) :
    Emits (reserve env task adapter request) fun r L =>
      (∃ e, r = .error e) ∧ L = [] ∨
        ∃ reserved attempt, r = .ok (reserved, attempt) ∧
          L = [.reserved request.route attempt] := by
  refine Emits.bind (Φ := fun _ L => L = []) (Emits.translate emits_quietly) ?_
    fun e L hL => Or.inl ⟨⟨e, rfl⟩, hL⟩
  rintro reserved L rfl
  refine Emits.bind (Φ := fun r L =>
    L = (r.toOption.join.map (Event.reserved request.route)).toList) (Emits.ask fun r => rfl) ?_ ?_
  · rintro answer L rfl
    cases answer with
    | none => exact Emits.raise (Or.inl ⟨⟨_, rfl⟩, rfl⟩)
    | some attempt => exact Emits.pure (Or.inr ⟨reserved, attempt, rfl, rfl⟩)
  · rintro e L rfl
    exact Or.inl ⟨⟨e, rfl⟩, rfl⟩

theorem emits_outOfNavigations (task : AcquireTask) (route : Route) :
    Emits (outOfNavigations env task route) fun r L =>
      (∃ e, r = .error e) ∧ L = [] ∨ r = .ok true ∧ L = [.navigation false] ∨
        r = .ok false ∧ L = navigations route := by
  unfold outOfNavigations navigations
  by_cases hbrowser : route = .localBrowser
  · rw [if_pos hbrowser, if_pos hbrowser]
    refine Emits.bind (Φ := fun r L => L = (r.toOption.map Event.navigation).toList)
      (Emits.ask fun r => rfl) ?_ ?_
    · rintro granted L rfl
      cases granted
      · exact Emits.pure (Or.inr (Or.inl ⟨rfl, rfl⟩))
      · exact Emits.pure (Or.inr (Or.inr ⟨rfl, rfl⟩))
    · rintro e L rfl
      exact Or.inl ⟨⟨e, rfl⟩, rfl⟩
  · rw [if_neg hbrowser, if_neg hbrowser]
    exact Emits.pure (Or.inr (Or.inr ⟨rfl, rfl⟩))

/-! ## What a run emits -/

/-- The rest of a pass: visits in order, and what the switch emits if the last of them
was blocked. -/
def Goes (task : AcquireTask) (capability : String) (after : List Event → Prop)
    (routes : List Route) (L : List Event) : Prop :=
  ∃ visits L', L = visits.flatMap Visit.events ++ L' ∧ InOrder routes visits ∧
    (L' = [] ∨ task.provider = .auto ∧ capability = "ordinary" ∧
      (∃ v, visits.getLast? = some v ∧ v.Blocked) ∧ after L')

section

variable {task : AcquireTask} {capability : String} {after : List Event → Prop} {route : Route}
  {routes : List Route}

theorem goes_nil : Goes task capability after routes [] :=
  ⟨[], [], rfl, ⟨List.nil_prefix, by simp⟩, Or.inl rfl⟩

/-- The loop ends with a visit. -/
theorem goes_last (course : Course) :
    Goes task capability after (route :: routes) (Visit.mk route course).events := by
  refine ⟨[⟨route, course⟩], [], by simp, ⟨?_, by simp⟩, Or.inl rfl⟩
  exact List.cons_prefix_cons.mpr ⟨rfl, List.nil_prefix⟩

/-- The loop goes on from a visit. -/
theorem goes_on {course : Course} {L : List Event} (hpass : (Visit.mk route course).Passable)
    (h : Goes task capability after routes L) :
    Goes task capability after (route :: routes) ((Visit.mk route course).events ++ L) := by
  obtain ⟨visits, L', rfl, ⟨hfront, hpassable⟩, hafter⟩ := h
  refine ⟨⟨route, course⟩ :: visits, L', by simp, ⟨?_, ?_⟩, ?_⟩
  · exact List.cons_prefix_cons.mpr ⟨rfl, hfront⟩
  · intro v hv
    cases visits with
    | nil => simp at hv
    | cons w visits =>
        rcases List.mem_cons.mp hv with rfl | hv
        · exact hpass
        · exact hpassable v hv
  · rcases hafter with hnone | ⟨hauto, hordinary, ⟨v, hlast, hblocked⟩, hafter⟩
    · exact Or.inl hnone
    · refine Or.inr ⟨hauto, hordinary, ⟨v, ?_, hblocked⟩, hafter⟩
      cases visits with
      | nil => simp at hlast
      | cons w visits => exact hlast

/-- The loop is left for the static-block routes. -/
theorem goes_switch {attempt : Uuid} {f : ProviderFailure} {outcome : String} {L : List Event}
    (htransition : transitions task.provider capability route f = true) (h : after L) :
    Goes task capability after (route :: routes)
      ((Visit.mk route (.tried attempt (some (.providerFailure f)) outcome)).events ++ L) := by
  simp only [transitions, Bool.and_eq_true, decide_eq_true_eq] at htransition
  obtain ⟨⟨⟨hauto, hordinary⟩, hlocal⟩, hcode⟩ := htransition
  let v : Visit := ⟨route, .tried attempt (some (.providerFailure f)) outcome⟩
  have hblocked : v.Blocked := ⟨hlocal, attempt, f, outcome, rfl, hcode⟩
  refine ⟨[v], L, by rw [List.flatMap_singleton], ⟨?_, by simp⟩,
    Or.inr ⟨hauto, hordinary, ⟨v, rfl, hblocked⟩, h⟩⟩
  exact List.cons_prefix_cons.mpr ⟨rfl, List.nil_prefix⟩

end

/-- An attempt that was reserved, and what follows it. -/
theorem emits_reserved (task : AcquireTask) (capability : String)
    {request : Route → ProviderRequest σ} (hrequest : ∀ route, (request route).route = route)
    {switch : Run σ TaskResult} {after : List Event → Prop}
    (hswitch : Emits switch fun _ L => after L) {route : Route} {routes : List Route}
    (hrest : ∀ last, Emits (tryRoutes env task capability request switch routes last) fun _ L =>
      Goes task capability after routes L)
    (last : Option ProviderFailure) (adapter : Adapter) (reserved : NativeCost) (attempt : Uuid) :
    Emits (do
      let tried ← tryRoute env task capability adapter reserved (request route)
      close env task adapter reserved attempt tried
      match tried.flow with
      | .returned result => return result
      | .raised e => raise e
      | .fell =>
          if tried.transition then translate (switchFailed task) switch
          else
            match tried.failure with
            | none => raise (exhausted task last)
            | some failure =>
                if failure.retryable then
                  tryRoutes env task capability request switch routes (some failure)
                else raise (exhausted task (some failure)) : Run σ TaskResult) fun _ L =>
      Goes task capability after (route :: routes)
        (.available route true :: (navigations route ++ .reserved route attempt :: L)) := by
  refine Emits.bind (emits_tryRoute task capability adapter reserved (request route)) ?_
    fun e L h => by simp at h
  rintro t L ⟨t', raised, ht, rfl, hfits⟩
  obtain rfl : t' = t := by cases ht; rfl
  rw [hrequest] at hfits
  have hevents : ∀ L, Event.available route true :: (navigations route ++
      .reserved route attempt :: ([.ended raised] ++ ([.finished attempt t'.outcome] ++ L))) =
        (Visit.mk route (.tried attempt raised t'.outcome)).events ++ L := by
    intro L
    simp [Visit.events]
  have hlast : Goes task capability after (route :: routes)
      (Visit.mk route (.tried attempt raised t'.outcome)).events := goes_last _
  refine Emits.bind (emits_close task adapter reserved attempt t') ?_ ?_
  · rintro - L rfl
    simp only [hevents]
    cases hflow : t'.flow with
    | returned result => exact Emits.pure (by rwa [List.append_nil])
    | raised e => exact Emits.raise (by rwa [List.append_nil])
    | fell =>
        obtain ⟨f, rfl, hfailure, htransition, hretry⟩ := hfits hflow
        by_cases hswitches : t'.transition = true
        · simp only [hswitches, if_true]
          refine Emits.translate (hswitch.mono fun r L h => ?_)
          exact goes_switch (htransition ▸ hswitches) h
        · have hstays : t'.transition = false := by simpa using hswitches
          simp only [hstays, hfailure, hretry hstays, if_true]
          refine (hrest (some f)).mono fun r L h => ?_
          exact goes_on (Or.inr (Or.inr ⟨attempt, f, t'.outcome, rfl, hretry hstays⟩)) h
  · rintro e L rfl
    have h := hevents []
    rw [List.append_nil, List.append_nil] at h
    exact h ▸ hlast

theorem emits_tryRoutes (task : AcquireTask) (capability : String)
    {request : Route → ProviderRequest σ} (hrequest : ∀ route, (request route).route = route)
    {switch : Run σ TaskResult} {after : List Event → Prop}
    (hswitch : Emits switch fun _ L => after L) (routes : List Route)
    (last : Option ProviderFailure) :
    Emits (tryRoutes env task capability request switch routes last) fun _ L =>
      Goes task capability after routes L := by
  induction routes generalizing last with
  | nil => exact Emits.raise goes_nil
  | cons route routes ih =>
      unfold tryRoutes
      refine Emits.bind (Φ := fun r L => L = (r.toOption.map (Event.available route)).toList)
        (Emits.ask fun r => rfl) ?_ ?_
      · rintro available L rfl
        cases available with
        | false =>
            refine (ih last).mono fun r L h => ?_
            exact @goes_on _ _ _ _ _ .unavailable _ (Or.inl rfl) h
        | true =>
            refine Emits.bind emits_quietly ?_ ?_
            · rintro adapter L rfl
              refine Emits.bind (emits_outOfNavigations task route) ?_ ?_
              · rintro out L hout
                cases out with
                | true =>
                    have hL : L = [.navigation false] := by simpa using hout
                    subst hL
                    refine (ih _).mono fun r L h => ?_
                    exact @goes_on _ _ _ _ _ .outOfBudget _ (Or.inr (Or.inl rfl)) h
                | false =>
                    have hL : L = navigations route := by simpa using hout
                    subst hL
                    refine Emits.bind (emits_reserve task adapter (request route)) ?_ ?_
                    · rintro ⟨reserved, attempt⟩ L hreserved
                      have hL : L = [.reserved route attempt] := by
                        rcases hreserved with ⟨⟨e, he⟩, -⟩ | ⟨reserved', attempt', hok, hL⟩
                        · cases he
                        · cases hok
                          rw [hL, hrequest]
                      subst hL
                      refine (emits_reserved task capability hrequest hswitch ih last adapter
                        reserved attempt).mono fun r L h => ?_
                      exact h
                    · rintro e L (⟨-, rfl⟩ | ⟨reserved, attempt, hok, -⟩)
                      · have h : Goes task capability after (route :: routes)
                            (Visit.mk route (.unreserved true)).events := goes_last _
                        rw [List.append_nil]
                        exact h
                      · cases hok
              · rintro e L (⟨-, rfl⟩ | ⟨hok, -⟩ | ⟨hok, -⟩)
                · exact goes_last (.unreserved false)
                · cases hok
                · cases hok
            · rintro e L rfl
              exact goes_last (.unreserved false)
      · rintro e L rfl
        exact goes_nil

/-- A call goes through one list of routes, and what it emits then is the pass over it. -/
def Opens (task : AcquireTask) (capability : String) (after : List Event → Prop)
    (L : List Event) : Prop :=
  L = [] ∨ ∃ routes L', L = .routes capability routes :: L' ∧
    (task.provider = .auto → ∃ all, routesFor capability = some all ∧ routes.Sublist all) ∧
    Goes task capability after routes L'

theorem emits_acquire (task : AcquireTask) (options : Options σ) {depth : ℕ}
    {after : List Event → Prop}
    (hswitch : Emits (acquire env task options depth (some "static_block")) fun _ L => after L)
    (capability : Option String) :
    Emits (acquire env task options (depth + 1) capability) fun _ L =>
      Opens task (capability.getD (capabilityOf task)) after L := by
  unfold acquire
  refine Emits.bind (Φ := fun _ L => L = []) (Emits.translate emits_quietly) ?_
    fun e L hL => Or.inl hL
  rintro - L rfl
  refine Emits.bind (emits_routesOf task.provider _) ?_ fun e L h => Or.inl h.1
  rintro routes L ⟨rfl, hroutes⟩
  split
  · exact Emits.raise (Or.inl rfl)
  · refine Emits.bind (Emits.emit (Φ := fun r L => r = .ok () ∧
      L = [.routes (capability.getD (capabilityOf task)) routes]) ⟨rfl, rfl⟩) ?_
      fun e L h => by simp at h
    rintro - L ⟨-, rfl⟩
    refine (emits_tryRoutes task _ (fun route => rfl) hswitch routes none).mono fun r L h => ?_
    exact Or.inr ⟨routes, L, rfl, hroutes routes rfl, h⟩

/-- Going through the static-block routes is one pass. -/
def StaticPass (task : AcquireTask) (L : List Event) : Prop :=
  L = [] ∨ ∃ p : Pass, L = p.events ∧ InOrder p.routes p.visits ∧
    p.capability = "static_block" ∧
      (task.provider = .auto → p.routes.Sublist [.ownedProxyHttp, .brightdataUnlocker])

theorem emits_static (task : AcquireTask) (options : Options σ) (depth : ℕ) :
    Emits (acquire env task options depth (some "static_block")) fun _ L =>
      StaticPass task L := by
  cases depth with
  | zero => exact Emits.raise (Or.inl rfl)
  | succ depth =>
      have hswitch : Emits (acquire env task options depth (some "static_block"))
          fun _ _ => True := fun _ => trivial
      refine (emits_acquire task options hswitch (some "static_block")).mono fun r L h => ?_
      rcases h with rfl | ⟨routes, L', rfl, hroutes, visits, L'', rfl, horder, hafter⟩
      · exact Or.inl rfl
      · refine Or.inr ⟨⟨"static_block", routes, visits⟩, ?_, horder, rfl, fun hauto => ?_⟩
        · rcases hafter with rfl | ⟨-, hordinary, -⟩
          · rw [List.append_nil]
            rfl
          · exact absurd hordinary (show "static_block" ≠ "ordinary" by decide)
        · obtain ⟨all, hall, hsublist⟩ := hroutes hauto
          obtain rfl : [.ownedProxyHttp, .brightdataUnlocker] = all := Option.some.inj hall
          exact hsublist

/-- Only the ordinary routes lead on to others. -/
theorem tryRoutes_switch (task : AcquireTask) {capability : String} (hother : capability ≠ "ordinary")
    {request : Route → ProviderRequest σ} (hrequest : ∀ route, (request route).route = route)
    (switch switch' : Run σ TaskResult) (routes : List Route) (last : Option ProviderFailure) :
    tryRoutes env task capability request switch routes last =
      tryRoutes env task capability request switch' routes last := by
  induction routes generalizing last with
  | nil => rfl
  | cons route routes ih =>
      unfold tryRoutes
      refine bind_congr fun available => ?_
      split
      · exact ih last
      · refine bind_congr fun adapter => bind_congr fun out => ?_
        split
        · exact ih _
        · refine bind_congr fun reserved => bind_congr_of ?_
          refine (emits_tryRoute task capability adapter reserved.1 (request route)).mono ?_
          rintro r L ⟨t, raised, rfl, -, hfits⟩ t' ht
          obtain rfl : t = t' := by cases ht; rfl
          refine bind_congr fun _ => ?_
          cases hflow : t.flow with
          | returned result => rfl
          | raised e => rfl
          | fell =>
              obtain ⟨f, -, -, htransition, -⟩ := hfits hflow
              have hstays : t.transition = false := by
                rw [htransition, hrequest]
                simp [transitions, hother]
              simp only [hstays, Bool.false_eq_true, if_false]
              cases t.failure with
              | none => rfl
              | some failure => simp only [ih]

/-- The router calls itself once at most: a greater depth changes nothing. -/
theorem acquire_depth (task : AcquireTask) (options : Options σ) (depth : ℕ)
    (capability : Option String) :
    acquire env task options (depth + 2) capability = acquire env task options 2 capability := by
  have hstatic : acquire env task options (depth + 1) (some "static_block") =
      acquire env task options 1 (some "static_block") := by
    unfold acquire
    refine bind_congr fun _ => bind_congr fun routes => ?_
    split
    · rfl
    · refine bind_congr fun _ => ?_
      exact tryRoutes_switch task (show "static_block" ≠ "ordinary" by decide) (fun _ => rfl) _ _
        routes none
  conv_lhs => rw [acquire, hstatic]
  rfl

/-- The reservations and the finishes of a visit. -/
theorem finished_visit (v : Visit) :
    v.events.filterMap Event.finished? = v.events.filterMap Event.reserved? := by
  have hnavigations : (navigations v.route).filterMap Event.finished? = [] ∧
      (navigations v.route).filterMap Event.reserved? = [] := by
    unfold navigations
    split
    · exact ⟨rfl, rfl⟩
    · exact ⟨rfl, rfl⟩
  unfold Visit.events
  cases v.course with
  | unavailable => rfl
  | outOfBudget => rfl
  | unreserved granted =>
      cases granted
      · rfl
      · exact hnavigations.1.trans hnavigations.2.symm
  | tried attempt raised outcome =>
      show (navigations v.route ++ _).filterMap Event.finished? =
        (navigations v.route ++ _).filterMap Event.reserved?
      rw [List.filterMap_append, List.filterMap_append, hnavigations.1, hnavigations.2]
      rfl

theorem finished_pass (p : Pass) :
    p.events.filterMap Event.finished? = p.events.filterMap Event.reserved? := by
  show (p.visits.flatMap Visit.events).filterMap _ = (p.visits.flatMap Visit.events).filterMap _
  rw [List.filterMap_flatMap, List.filterMap_flatMap]
  exact List.flatMap_congr fun v _ => finished_visit v

/-- Every attempt that was reserved is finished once, and no other; the routes of a list
are tried in order, each after the others have failed retryably, were unavailable or out
of browser budget; and only a challenge on the local route leads to the static-block
routes, at most once. -/
theorem acquire_closes {σ : Type} (env : Environment σ) (task : AcquireTask) (options : Options σ)
    (depth : ℕ) (capability : Option String) :
    Emits (acquire env task options depth capability) fun _ L =>
      L.filterMap Event.finished? = L.filterMap Event.reserved? ∧
        ∃ passes : List Pass, L = passes.flatMap Pass.events ∧
          (∀ p ∈ passes, InOrder p.routes p.visits) ∧
          (passes.length ≤ 1 ∨ ∃ p q, passes = [p, q] ∧ p.Switches task ∧
            q.capability = "static_block" ∧
            q.routes.Sublist [.ownedProxyHttp, .brightdataUnlocker]) := by
  have hpasses : Emits (acquire env task options depth capability) fun _ L =>
      ∃ passes : List Pass, L = passes.flatMap Pass.events ∧
        (∀ p ∈ passes, InOrder p.routes p.visits) ∧
        (passes.length ≤ 1 ∨ ∃ p q, passes = [p, q] ∧ p.Switches task ∧
          q.capability = "static_block" ∧
          q.routes.Sublist [.ownedProxyHttp, .brightdataUnlocker]) := by
    cases depth with
    | zero => exact Emits.raise ⟨[], rfl, by simp, Or.inl (by simp)⟩
    | succ depth =>
        refine (emits_acquire task options (emits_static task options depth) capability).mono
          fun r L h => ?_
        rcases h with rfl | ⟨routes, L', rfl, -, visits, L'', rfl, horder, hafter⟩
        · exact ⟨[], rfl, by simp, Or.inl (by simp)⟩
        · let p : Pass := ⟨capability.getD (capabilityOf task), routes, visits⟩
          have hone : ∃ passes : List Pass, p.events = passes.flatMap Pass.events ∧
              (∀ p ∈ passes, InOrder p.routes p.visits) ∧ passes.length ≤ 1 :=
            ⟨[p], by simp, by simpa using horder, by simp⟩
          rcases hafter with rfl | ⟨hauto, hordinary, hlast, rfl | ⟨q, rfl, hq, hstatic, hroutes⟩⟩
          · obtain ⟨passes, hL, hall, hlength⟩ := hone
            exact ⟨passes, by rw [List.append_nil]; exact hL, hall, Or.inl hlength⟩
          · obtain ⟨passes, hL, hall, hlength⟩ := hone
            exact ⟨passes, by rw [List.append_nil]; exact hL, hall, Or.inl hlength⟩
          · refine ⟨[p, q], by simp [p, Pass.events], ?_, Or.inr ⟨p, q, rfl,
              ⟨hauto, hordinary, hlast⟩, hstatic, hroutes hauto⟩⟩
            intro p' hp'
            rcases List.mem_pair.mp hp' with rfl | rfl
            · exact horder
            · exact hq
  refine hpasses.mono fun r L h => ⟨?_, h⟩
  obtain ⟨passes, rfl, -, -⟩ := h
  rw [List.filterMap_flatMap, List.filterMap_flatMap]
  exact List.flatMap_congr fun p _ => finished_pass p

end

end CrawlTrove.Acquisition.Router
