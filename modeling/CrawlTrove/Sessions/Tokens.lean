import CrawlTrove.Relational.Execution
import CrawlTrove.Sessions.Starting
import CrawlTrove.Web.Base64

/-!
# Session tokens

`issue_token` and `consume_token` (`app/acquisition/sessions.py`). Only the digest of
a token is stored, and `consume_token` decodes what it is shown before it looks for
the digest: no token is accepted twice, in whatever spelling, but a spelling that
`issue_token` never returned is accepted as well.
-/

namespace CrawlTrove

open Relational Transaction

namespace Sessions

open Base64 (Byte)

abbrev Text := List Char

abbrev Bytes32 := { bytes : List Byte // bytes.length = 32 }

/-- `live_session_tokens`. -/
structure SessionToken where
  id : Uuid
  sessionId : Uuid
  scope : String
  tokenHash : Bytes32
  expiresAt : Time
  consumedAt : Option Time := none
deriving DecidableEq

instance : Keyed SessionToken where
  Key := Uuid × Bytes32
  key t := (t.id, t.tokenHash)
  clash a b := decide (a.1 = b.1) || decide (a.2 = b.2)
  clash_refl k := by rw [decide_eq_true rfl, Bool.true_or]
  clash_symm a b := by rw [decide_eq_decide.mpr eq_comm, decide_eq_decide.mpr (@eq_comm _ a.2 b.2)]

/-- The crawl store with the tokens of its sessions. -/
structure Desk where
  store : Store := {}
  tokens : Table SessionToken := Table.empty

inductive TokenError
  | valueError (message : String)
  | sessionState (message : String)
  | integrityViolation
deriving DecidableEq

/-- `_SCOPES`. -/
def scopes : List String := ["view", "control", "worker"]

/-- The spelling of a token: URL-safe, without padding. -/
def bearer (raw : Bytes32) : Text := (Base64.urlsafeEncode raw.val).rdropWhile (· = '=')

/-- What `consume_token` reads a token as. -/
def decodeToken (token : Text) : Option Bytes32 :=
  (Base64.altDecode (Base64.pad token)).bind fun raw =>
    if h : raw.length = 32 then some ⟨raw, h⟩ else none

/-- A token as `issue_token` returns it, with the row it leaves. -/
structure Issued where
  token : Text
  row : SessionToken

section

variable (sha256 : Bytes32 → Bytes32)

/-- When a token issued now expires; nothing if the session is not available. -/
def tokenExpiry (now : Time) (sessionId : Uuid) (ttlSeconds : ℤ) (d : Desk) : Option Time :=
  (d.store.sessions.find? (attachable now sessionId)).map fun l =>
    min l.expiresAt (now + seconds ttlSeconds)

def insertToken (t : SessionToken) (d : Desk) : Option Desk :=
  (d.tokens.insert? t).map fun T => { d with tokens := T }

/-- `issue_token`; `raw` is what `token_bytes` draws and `id` what `uuid4` does. -/
def issueToken (now : Time) (id : Uuid) (raw : Bytes32) (sessionId : Uuid) (scope : String)
    (ttlSeconds : ℤ) : Transaction Desk TokenError Issued := do
  if scope ∉ scopes ∨ ¬ (1 ≤ ttlSeconds ∧ ttlSeconds ≤ 3600) then
    raise (.valueError "invalid token scope or TTL")
  else
    match ← read (tokenExpiry now sessionId ttlSeconds) with
    | none => raise (.sessionState "session is not available")
    | some expiresAt => do
        let row : SessionToken := { id, sessionId, scope, tokenHash := sha256 raw, expiresAt }
        attempt .integrityViolation (insertToken row)
        return ⟨bearer raw, row⟩

/-- The row `consume_token` updates. -/
def SessionToken.matching (now : Time) (sessionId : Uuid) (scope : String) (hash : Bytes32)
    (t : SessionToken) : Bool :=
  t.sessionId = sessionId && t.scope = scope && t.tokenHash = hash && t.consumedAt.isNone &&
    decide (now < t.expiresAt)

def spend (now : Time) (sessionId : Uuid) (scope : String) (hash : Bytes32) (d : Desk) : Desk :=
  { d with
    tokens := d.tokens.update (SessionToken.matching now sessionId scope hash) fun t =>
      { t with consumedAt := some now } }

/-- `consume_token`. -/
def consumeToken (now : Time) (sessionId : Uuid) (token : Text) (scope : String) (d : Desk) :
    Bool × Desk :=
  if scope ∉ scopes then (false, d)
  else
    match decodeToken token with
    | none => (false, d)
    | some raw =>
        (d.tokens.any (SessionToken.matching now sessionId scope (sha256 raw)),
          spend now sessionId scope (sha256 raw) d)

/-! ## Runs -/

/-- A call; `touch`, `request_resume`, `close` and `expire_due` are requests to the
crawl store. -/
inductive Event
  | issue (now : Time) (id : Uuid) (raw : Bytes32) (sessionId : Uuid) (scope : String)
      (ttlSeconds : ℤ)
  | consume (now : Time) (sessionId : Uuid) (token : Text) (scope : String)
  | request (r : Request)

/-- The bytes a call draws or shows. -/
def Event.raw? : Event → Option Bytes32
  | .issue _ _ raw _ _ _ => some raw
  | .consume _ _ token _ => decodeToken token
  | .request _ => none

/-- The desk, the tokens it has issued and the strings it has accepted. -/
structure History where
  desk : Desk := {}
  issued : List Issued := []
  accepted : List Text := []

/-- Note what `issue_token` returned. -/
def noteIssued (h : History) : Except TokenError Issued × Desk → History
  | (.ok i, d) => { h with desk := d, issued := i :: h.issued }
  | (.error _, d) => { h with desk := d }

/-- Note what `consume_token` accepted. -/
def noteAccepted (h : History) (token : Text) : Bool × Desk → History
  | (true, d) => { h with desk := d, accepted := token :: h.accepted }
  | (false, d) => { h with desk := d }

variable (url : UrlIdentity)

/-- One call after the others; consumers that race take the row one after another. -/
def Event.step (e : Event) (h : History) : History :=
  match e with
  | .issue now id raw sessionId scope ttlSeconds =>
      noteIssued h (commit (issueToken sha256 now id raw sessionId scope ttlSeconds) h.desk)
  | .consume now sessionId token scope =>
      noteAccepted h token (consumeToken sha256 now sessionId token scope h.desk)
  | .request r => { h with desk := { h.desk with store := CrawlTrove.step url r h.desk.store } }

/-- What is accepted is a token that was returned for this session and scope and has
not expired. -/
def Exact (e : Event) (h : History) : Prop :=
  match e with
  | .consume now sessionId token scope =>
      (consumeToken sha256 now sessionId token scope h.desk).1 = true →
        ∃ i ∈ h.issued, i.token = token ∧ i.row.sessionId = sessionId ∧ i.row.scope = scope ∧
          now < i.row.expiresAt
  | _ => True

/-- What reads as a token that may be used is spelled as the encoder spells it. -/
def Spelled (e : Event) (h : History) : Prop :=
  match e with
  | .consume now sessionId token scope =>
      ∀ raw, decodeToken token = some raw →
        (∃ t ∈ h.desk.tokens, t.matching now sessionId scope (sha256 raw) = true) →
          token = bearer raw
  | _ => True

instance (e : Event) (h : History) : Decidable (Spelled sha256 e h) :=
  match e with
  | .consume now sessionId token scope =>
      inferInstanceAs (Decidable (∀ raw ∈ decodeToken token,
        (∃ t ∈ h.desk.tokens, t.matching now sessionId scope (sha256 raw) = true) →
          token = bearer raw))
  | .issue _ _ _ _ _ _ => inferInstanceAs (Decidable True)
  | .request _ => inferInstanceAs (Decidable True)

end

section

variable {sha256 : Bytes32 → Bytes32} {url : UrlIdentity}

/-! ## What the calls do -/

/-- A token is read as the bytes it was made of. -/
theorem decodeToken_bearer (raw : Bytes32) : decodeToken (bearer raw) = some raw := by
  rw [decodeToken, bearer, Base64.strip_urlsafeEncode, Base64.altDecode_pad_digits,
    Option.bind_some, dif_pos raw.property]

theorem issueToken_ok {now : Time} {id : Uuid} {raw : Bytes32} {sessionId : Uuid} {scope : String}
    {ttlSeconds : ℤ} {d d' : Desk} {i : Issued}
    (h : issueToken sha256 now id raw sessionId scope ttlSeconds d = .ok (i, d')) :
    i.token = bearer raw ∧ i.row.tokenHash = sha256 raw ∧ i.row.scope ∈ scopes ∧
      i.row.consumedAt = none ∧
      ∃ T, d.tokens.insert? i.row = some T ∧ d' = { d with tokens := T } := by
  unfold issueToken at h
  by_cases hrefused : scope ∉ scopes ∨ ¬ (1 ≤ ttlSeconds ∧ ttlSeconds ≤ 3600)
  · rw [if_pos hrefused] at h
    exact (raise_ok.mp h).elim
  · rw [if_neg hrefused, read_bind_run] at h
    have hscope : scope ∈ scopes := by
      by_contra hout
      exact hrefused (Or.inl hout)
    cases hexpiry : tokenExpiry now sessionId ttlSeconds d with
    | none =>
        rw [hexpiry] at h
        exact (raise_ok.mp h).elim
    | some expiresAt =>
        rw [hexpiry] at h
        obtain ⟨_, d₁, hinsert, hreturn⟩ := bind_ok.mp h
        have hdone := attempt_ok.mp hinsert
        obtain ⟨T, hT, rfl⟩ := Option.map_eq_some_iff.mp hdone
        obtain ⟨rfl, rfl⟩ := pure_ok.mp hreturn
        exact ⟨rfl, rfl, hscope, rfl, T, hT, rfl⟩

/-- A token is accepted if what it reads as has a row. -/
theorem consumeToken_eq_true {now : Time} {sessionId : Uuid} {token : Text} {scope : String}
    {d : Desk} :
    (consumeToken sha256 now sessionId token scope d).1 = true ↔
      scope ∈ scopes ∧ ∃ raw, decodeToken token = some raw ∧
        ∃ t ∈ d.tokens, t.matching now sessionId scope (sha256 raw) = true := by
  unfold consumeToken
  by_cases hscope : scope ∈ scopes
  · rw [if_neg (not_not.mpr hscope)]
    cases hdecode : decodeToken token with
    | none => simp
    | some raw => simp [hscope, Table.any_eq_true]
  · simp [hscope]

/-- The two ways a presented string fares. -/
theorem consumeToken_cases (now : Time) (sessionId : Uuid) (token : Text) (scope : String)
    (d : Desk) :
    consumeToken sha256 now sessionId token scope d = (false, d) ∨
      ∃ raw, decodeToken token = some raw ∧
        (∃ t ∈ d.tokens, t.matching now sessionId scope (sha256 raw) = true) ∧
        consumeToken sha256 now sessionId token scope d =
          (true, spend now sessionId scope (sha256 raw) d) := by
  unfold consumeToken
  by_cases hscope : scope ∈ scopes
  · rw [if_neg (not_not.mpr hscope)]
    cases hdecode : decodeToken token with
    | none => exact Or.inl rfl
    | some raw =>
        by_cases hrow : ∃ t ∈ d.tokens, t.matching now sessionId scope (sha256 raw) = true
        · refine Or.inr ⟨raw, rfl, hrow, ?_⟩
          dsimp only
          rw [Table.any_eq_true.mpr hrow]
        · refine Or.inl ?_
          have hnone : ∀ t ∈ d.tokens, t.matching now sessionId scope (sha256 raw) = false := by
            intro t ht
            rw [← Bool.not_eq_true]
            exact fun hmatch => hrow ⟨t, ht, hmatch⟩
          have hsame : spend now sessionId scope (sha256 raw) d = d := by
            unfold spend
            rw [Table.update_eq_self fun t ht hmatch => by simp [hnone t ht] at hmatch]
          dsimp only
          rw [Table.any_eq_false.mpr hnone, hsame]
  · exact Or.inl (if_pos hscope)

/-! ## What every run keeps -/

/-- The rows are those of issued tokens, each accepted string has used one up, and no
two of them read as the same bytes. -/
structure Kept (sha256 : Bytes32 → Bytes32) (V : Set Bytes32) (h : History) : Prop where
  rows : ∀ t ∈ h.desk.tokens, ∃ i ∈ h.issued, i.row = { t with consumedAt := none }
  issued : ∀ i ∈ h.issued, i.row.scope ∈ scopes ∧
    ∃ raw ∈ V, i.token = bearer raw ∧ i.row.tokenHash = sha256 raw
  spent : ∀ token ∈ h.accepted, ∃ raw, decodeToken token = some raw ∧
    ∃ t ∈ h.desk.tokens, t.tokenHash = sha256 raw ∧ t.consumedAt.isSome
  once : (h.accepted.map decodeToken).Nodup

variable {V : Set Bytes32} {h : History}

theorem kept_start (s : Store) : Kept sha256 V { desk := { store := s } } where
  rows _ ht := absurd ht List.not_mem_nil
  issued _ hi := absurd hi List.not_mem_nil
  spent _ htoken := absurd htoken List.not_mem_nil
  once := List.nodup_nil

theorem eq_of_tokenHash {T : Table SessionToken} {t t' : SessionToken} (ht : t ∈ T) (ht' : t' ∈ T)
    (hhash : t.tokenHash = t'.tokenHash) : t = t' :=
  Table.eq_of_clash ht ht' (by simp [Clashes, Keyed.clash, Keyed.key, hhash])

theorem Kept.issue (hkept : Kept sha256 V h) {now : Time} {id : Uuid} {raw : Bytes32}
    {sessionId : Uuid} {scope : String} {ttlSeconds : ℤ} (hraw : raw ∈ V) :
    Kept sha256 V (Event.step sha256 url (.issue now id raw sessionId scope ttlSeconds) h) := by
  show Kept sha256 V (noteIssued h (commit _ h.desk))
  cases hissue : issueToken sha256 now id raw sessionId scope ttlSeconds h.desk with
  | error e =>
      rw [commit_of_error hissue]
      exact hkept
  | ok p =>
      obtain ⟨i, d'⟩ := p
      obtain ⟨htoken, hhash, hscope, hfresh, T, hT, rfl⟩ := issueToken_ok hissue
      rw [commit_of_ok hissue]
      constructor
      · intro t ht
        rcases (Table.mem_of_insert? hT).mp ht with ht | rfl
        · obtain ⟨j, hj, hrow⟩ := hkept.rows t ht
          exact ⟨j, List.mem_cons_of_mem i hj, hrow⟩
        · exact ⟨i, List.mem_cons_self, by rw [← hfresh]⟩
      · intro j hj
        rcases List.mem_cons.mp hj with rfl | hj
        · exact ⟨hscope, raw, hraw, htoken, hhash⟩
        · exact hkept.issued j hj
      · intro token hmem
        obtain ⟨bytes, hdecode, t, ht, hspent⟩ := hkept.spent token hmem
        exact ⟨bytes, hdecode, t, (Table.mem_of_insert? hT).mpr (Or.inl ht), hspent⟩
      · exact hkept.once

theorem Kept.consume (hkept : Kept sha256 V h) (now : Time) (sessionId : Uuid) (token : Text)
    (scope : String) :
    Kept sha256 V (Event.step sha256 url (.consume now sessionId token scope) h) := by
  show Kept sha256 V (noteAccepted h token _)
  rcases @consumeToken_cases sha256 now sessionId token scope h.desk with
    hrefused | ⟨raw, hdecode, ⟨t₀, ht₀, hmatch⟩, haccepted⟩
  · rw [hrefused]
    exact hkept
  · rw [haccepted]
    have hfields := hmatch
    simp only [SessionToken.matching, Bool.and_eq_true, decide_eq_true_eq] at hfields
    obtain ⟨⟨⟨-, hhash₀⟩, hunspent⟩, -⟩ := hfields
    constructor
    · intro t ht
      obtain ⟨t₁, ht₁, rfl⟩ := (@Table.mem_update _ _ _ _ _ (by intro _; rfl) _).mp ht
      obtain ⟨i, hi, hrow⟩ := hkept.rows t₁ ht₁
      refine ⟨i, hi, ?_⟩
      by_cases hp : t₁.matching now sessionId scope (sha256 raw) = true
      · rw [if_pos hp, hrow]
      · rw [if_neg hp, hrow]
    · exact hkept.issued
    · intro shown hshown
      rcases List.mem_cons.mp hshown with rfl | hshown
      · exact ⟨raw, hdecode, _, Table.mem_update_row (by intro _; rfl) ht₀ hmatch, hhash₀, rfl⟩
      · obtain ⟨bytes, hbytes, t, ht, hhash, hspent⟩ := hkept.spent shown hshown
        -- a row that has been used is not selected
        have hother : t.matching now sessionId scope (sha256 raw) = false := by
          unfold SessionToken.matching
          rw [Option.isNone_eq_false_iff.mpr hspent, Bool.and_false, Bool.false_and]
        exact ⟨bytes, hbytes, t, Table.mem_update_other (by intro _; rfl) ht hother, hhash, hspent⟩
    · refine List.nodup_cons.mpr ⟨?_, hkept.once⟩
      intro hmem
      obtain ⟨shown, hshown, hsame⟩ := List.mem_map.mp hmem
      obtain ⟨bytes, hbytes, t, ht, hhash, hspent⟩ := hkept.spent shown hshown
      obtain rfl : bytes = raw :=
        Option.some.inj (hbytes.symm.trans (hsame.trans hdecode))
      -- the row it needs has been used by the other string
      obtain rfl := eq_of_tokenHash ht ht₀ (hhash.trans hhash₀.symm)
      rw [Option.isNone_iff_eq_none.mp hunspent] at hspent
      cases hspent

theorem Kept.step (hkept : Kept sha256 V h) {e : Event} (hV : ∀ raw, e.raw? = some raw → raw ∈ V) :
    Kept sha256 V (e.step sha256 url h) := by
  cases e with
  | issue now id raw sessionId scope ttlSeconds => exact hkept.issue (hV raw rfl)
  | consume now sessionId token scope => exact hkept.consume now sessionId token scope
  | request r => exact ⟨hkept.rows, hkept.issued, hkept.spent, hkept.once⟩

/-! ## What is accepted -/

/-- The row a string is accepted for is that of an issued token. -/
theorem Kept.issued_of_matching (hkept : Kept sha256 V h) {now : Time} {sessionId : Uuid}
    {scope : String} {hash : Bytes32} {t : SessionToken} (ht : t ∈ h.desk.tokens)
    (hmatch : t.matching now sessionId scope hash = true) :
    ∃ i ∈ h.issued, i.row.sessionId = sessionId ∧ i.row.scope = scope ∧
      i.row.tokenHash = hash ∧ now < i.row.expiresAt := by
  obtain ⟨i, hi, hrow⟩ := hkept.rows t ht
  simp only [SessionToken.matching, Bool.and_eq_true, decide_eq_true_eq] at hmatch
  obtain ⟨⟨⟨⟨hsession, hscope⟩, hhash⟩, -⟩, hlive⟩ := hmatch
  refine ⟨i, hi, ?_⟩
  rw [hrow]
  exact ⟨hsession, hscope, hhash, hlive⟩

theorem exact_iff_spelled (hkept : Kept sha256 V h) (hinj : Set.InjOn sha256 V) {e : Event}
    (hV : ∀ raw, e.raw? = some raw → raw ∈ V) : Exact sha256 e h ↔ Spelled sha256 e h := by
  cases e with
  | issue => rfl
  | request => rfl
  | consume now sessionId token scope =>
      show ((consumeToken sha256 now sessionId token scope h.desk).1 = true → _) ↔ _
      rw [consumeToken_eq_true]
      constructor
      · rintro hexact raw hdecode ⟨t, ht, hmatch⟩
        obtain ⟨j, hj, -, hscope, -, -⟩ := hkept.issued_of_matching ht hmatch
        have hknown : scope ∈ scopes := hscope ▸ (hkept.issued j hj).1
        obtain ⟨i, hi, htoken, -⟩ := hexact ⟨hknown, raw, hdecode, t, ht, hmatch⟩
        obtain ⟨-, bytes, -, hbearer, -⟩ := hkept.issued i hi
        -- the token is an encoding, and it can only be that of what it reads as
        have hspelled : token = bearer bytes := htoken.symm.trans hbearer
        rw [hspelled, decodeToken_bearer, Option.some.injEq] at hdecode
        rw [hspelled, hdecode]
      · rintro hspelled ⟨-, raw, hdecode, t, ht, hmatch⟩
        obtain ⟨i, hi, hsession, hscope, hhash, hlive⟩ := hkept.issued_of_matching ht hmatch
        obtain ⟨-, bytes, hbytes, hbearer, hdigest⟩ := hkept.issued i hi
        obtain rfl : bytes = raw := hinj hbytes (hV raw hdecode) (hdigest.symm.trans hhash)
        exact ⟨i, hi, hbearer.trans (hspelled bytes hdecode ⟨t, ht, hmatch⟩).symm, hsession, hscope,
          hlive⟩

/-- In every run no two accepted strings read as the same token, and the accepted
strings are the issued tokens if and only if what reads as a token is spelled as it. -/
theorem accepts_exactly_iff (url : UrlIdentity) (sha256 : Bytes32 → Bytes32) (s : Store)
    (events : List Event)
    (hinj : Set.InjOn sha256 { raw | ∃ e ∈ events, e.raw? = some raw }) :
    ((runFrom (Event.step sha256 url) { desk := { store := s } } events).accepted.map
        decodeToken).Nodup ∧
      (StepsMeet (Event.step sha256 url) (Exact sha256) { desk := { store := s } } events ↔
        StepsMeet (Event.step sha256 url) (Spelled sha256) { desk := { store := s } } events) := by
  have hV : ∀ e ∈ events, ∀ raw, e.raw? = some raw →
      raw ∈ { raw | ∃ e ∈ events, e.raw? = some raw } := by
    intro e he raw hraw
    exact ⟨e, he, hraw⟩
  constructor
  · have hkept : Kept sha256 Set.univ
        (runFrom (Event.step sha256 url) { desk := { store := s } } events) :=
      runFrom_invariant (P := fun _ _ => True)
        (fun e h _ hkept => hkept.step fun raw _ => Set.mem_univ raw)
        (stepsMeet_of_forall fun e _ h => trivial) (kept_start s)
    exact hkept.once
  · refine stepsMeet_congr (fun e he h hkept => hkept.step (hV e he))
      (fun e he h hkept => exact_iff_spelled hkept hinj (hV e he)) (kept_start s)

end

/-! ## Samples -/

namespace Desk

/-- A byte has literals. -/
local instance neZero_byte : NeZero 256 := ⟨by decide⟩

/-- 32 zero bytes. -/
def zeros : Bytes32 := ⟨List.replicate 32 0, rfl⟩

/-- The digest of the zero bytes; the samples ask for no other. -/
def digest (_ : Bytes32) : Bytes32 :=
  ⟨[0x66, 0x68, 0x7a, 0xad, 0xf8, 0x62, 0xbd, 0x77, 0x6c, 0x8f, 0xc1, 0x8b, 0x8e, 0x9f, 0x8e, 0x20,
    0x08, 0x97, 0x14, 0x85, 0x6e, 0xe2, 0x33, 0xb3, 0x90, 0x2a, 0x59, 0x1d, 0x0d, 0x5f, 0x29, 0x25],
    rfl⟩

/-- A task is parked and a token is issued for its session. -/
def open_ : List Event :=
  [.request Sample.submit, .request Sample.claim, .request (park (seconds 2) 11 21),
    .issue (seconds 3) 31 zeros 21 "control" 60]

/-- The token is shown as it was issued, twice. -/
def shownTwice : List Event :=
  open_ ++ List.replicate 2 (.consume (seconds 4) 21 (List.replicate 43 'A') "control")

/-- Another spelling of the token, which was never issued. -/
def respelled : List Event :=
  open_ ++ [.consume (seconds 4) 21 (List.replicate 42 'A' ++ ['B']) "control"]

/-- The token is accepted once, as it was issued. -/
theorem shownTwice_exact :
    (runFrom (Event.step digest Sample.identity) {} shownTwice).accepted.length = 1 ∧
      StepsMeet (Event.step digest Sample.identity) (Exact digest) {} shownTwice := by
  have hvalues : { raw | ∃ e ∈ shownTwice, e.raw? = some raw } ⊆ {zeros} := by
    rintro raw ⟨e, he, hraw⟩
    have hall : ∀ e ∈ shownTwice, ∀ raw ∈ e.raw?, raw = zeros := by decide +kernel
    exact hall e he raw hraw
  have hinj : Set.InjOn digest { raw | ∃ e ∈ shownTwice, e.raw? = some raw } :=
    (Set.subsingleton_singleton.anti hvalues).injOn digest
  refine ⟨by decide +kernel, ?_⟩
  exact (accepts_exactly_iff Sample.identity digest {} shownTwice hinj).2.mpr (by decide +kernel)

/-- A string that `issue_token` never returned is accepted. -/
theorem respelled_accepted :
    ¬ StepsMeet (Event.step digest Sample.identity) (Exact digest) {} respelled := by
  intro hexact
  let h := runFrom (Event.step digest Sample.identity) {} open_
  have haccepted : (consumeToken digest (seconds 4) 21 (List.replicate 42 'A' ++ ['B']) "control"
      h.desk).1 = true := by decide +kernel
  have hissued : ∀ i ∈ h.issued, i.token ≠ List.replicate 42 'A' ++ ['B'] := by decide +kernel
  obtain ⟨i, hi, htoken, -⟩ := (stepsMeet_append.mp hexact).2.1 haccepted
  exact hissued i hi htoken

end Desk

end Sessions

end CrawlTrove
