import CrawlTrove.Corpus.Chunking

/-!
# Corpus records

What `app/corpus` makes of a crawled page: its license bucket, namespace and
quality tier, the targets the router sends it to, and the records under which it is
stored there (`scripts/build_corpus.py`). `sha256` is the hex digest of a text in
UTF-8.
-/

namespace CrawlTrove.Corpus

open Web (Text Tables urlsplit)

/-! ## Sources and tiers -/

inductive LicenseBucket
  | appleDeveloperDocsReviewRequired
  | appleSampleCodeReviewRequired
  | swiftOrgPermissive
  | ccBy
  | cc0
  | permissive
  | communityReviewRequired
  | ownContent
  | unknown
deriving DecidableEq, Repr

/-- `SOURCE_BUCKET`, `unknown` for the other sources. -/
def sourceBucket (source : String) : LicenseBucket :=
  match source with
  | "appledocs-docc" => .appleDeveloperDocsReviewRequired
  | "wwdc" => .appleDeveloperDocsReviewRequired
  | "samplecode" => .appleSampleCodeReviewRequired
  | "swift-evolution" => .swiftOrgPermissive
  | "swift-book" => .ccBy
  | "own" => .ownContent
  | "swiftorg" => .swiftOrgPermissive
  | "swift-forums" => .communityReviewRequired
  | "tutorials" => .communityReviewRequired
  | "tutorials-cc-by" => .ccBy
  | "tutorials-cc0" => .cc0
  | "github-permissive" => .permissive
  | "github-cc-by" => .ccBy
  | "github-docs" => .communityReviewRequired
  | _ => .unknown

/-- `_CC_UPGRADES`. -/
def ccUpgrade (licenseId : String) : LicenseBucket :=
  match licenseId with
  | "CC-BY-4.0" => .ccBy
  | "CC-BY-SA-4.0" => .ccBy
  | "CC0-1.0" => .cc0
  | _ => .unknown

def bucketFor (source : String) (licenseId : Option String) : LicenseBucket :=
  if sourceBucket source ≠ .unknown then sourceBucket source
  else (licenseId.map ccUpgrade).getD .unknown

inductive QualityTier
  | high | medium | low | untiered
deriving DecidableEq, Repr

/-- What the corpus reads of the environment: `CORPUS_LOW_TIER_RAG_ONLY` and the two
thresholds where they are integers. -/
structure Environment where
  lowTierRagOnly : Bool := true
  highMaxFailures : Option ℤ := none
  mediumMaxFailures : Option ℤ := none

/-- The thresholds given on the command line. -/
structure TierOverrides where
  highMaxFailures : Option ℤ := none
  mediumMaxFailures : Option ℤ := none

/-- The report of `quality.assess`; an empty one counts as none. -/
structure QualityReport where
  failures : Option (List String) := none
  passed : Option Bool := none
deriving DecidableEq

def tierFor (env : Environment) (report : Option QualityReport) (overrides : TierOverrides) :
    QualityTier :=
  match report with
  | none => .medium
  | some report =>
      let high := (overrides.highMaxFailures <|> env.highMaxFailures).getD 0
      let medium := (overrides.mediumMaxFailures <|> env.mediumMaxFailures).getD 2
      match report.failures with
      | some failures =>
          if failures.length ≤ high then .high
          else if failures.length ≤ medium then .medium else .low
      | none =>
          match report.passed with
          | some true => .high
          | some false => .low
          | none => .medium

/-! ## Namespaces -/

/-- `ALLOWED_NAMESPACES`. -/
inductive Namespace
  | swiftLanguage | swiftStdlib | appleFramework | xcodeTooling | unknown
deriving DecidableEq, Repr

def stripSlashes (path : Text) : Text :=
  ((path.dropWhile (· = '/')).reverse.dropWhile (· = '/')).reverse

section

variable (tables : Tables)

/-- `none` when `urlsplit` raises. -/
def namespaceFor (url : Text) (source : String) : Option Namespace :=
  if source = "swift-book" ∨ source = "swift-evolution" ∨ "swift-evolution".toList <:+: url then
    some .swiftLanguage
  else
    (urlsplit tables url []).map fun parts =>
      let host := tables.lower parts.netloc
      let segs := (stripSlashes (tables.lower parts.path)).splitOn '/'
      if "docs.swift.org".toList <:+: host ∨ "swift.org".toList <:+: host then .swiftLanguage
      else if "developer.apple.com".toList <:+: host then
        match segs with
        | first :: top :: _ =>
            if first = "documentation".toList then
              if top = "swift".toList then .swiftStdlib
              else if top = "xcode".toList then .xcodeTooling
              else .appleFramework
            else if first = "xcode".toList then .xcodeTooling
            else .appleFramework
        | [first] => if first = "xcode".toList then .xcodeTooling else .appleFramework
        | [] => .appleFramework
      else .unknown

def frameworkFromUrl (url : Text) : Option Text :=
  (urlsplit tables url []).map fun parts =>
    if "developer.apple.com".toList <:+: tables.lower parts.netloc then
      match (stripSlashes parts.path).splitOn '/' with
      | first :: top :: _ => if first = "documentation".toList then tables.lower top else []
      | _ => []
    else []

end

/-! ## Records -/

structure Platform where
  name : Option Text
  introducedAt : Option Text
deriving DecidableEq

structure Availability where
  introduced : Option Text
  deprecated : Option Text := none
  beta : Bool := false
deriving DecidableEq

def availabilityFromPlatforms (platforms : List Platform) : Availability where
  introduced := platforms.findSome? fun p =>
    match p.introducedAt with
    | none | some [] => none
    | some at_ => some (p.name.getD "None".toList ++ ' ' :: at_)

/-- A record; `swift_version`, `xcode_version` and `chunk_type` are the same in all. -/
structure Record where
  id : String
  source : String
  url : Text
  title : Text
  symbol : Text
  symbolKind : Text
  framework : Text
  platforms : List Platform
  availability : Availability
  scrapedAt : Text
  licenseBucket : LicenseBucket
  /-- Only some collectors set it. -/
  repoLicense : Option String := none
  contentHash : String
  ns : Namespace
  text : Text
  qualityTier : QualityTier
  chunkIndex : ℕ := 0
  parentHash : String := ""
  headingPath : List Text := []
deriving DecidableEq

/-- A result of a crawl and its metadata. -/
structure Result where
  url : Text := []
  markdown : Text := []
  dedupHash : String := ""
  quality : Option QualityReport := none
  title : Text := []
  symbolKind : Text := []
  roleHeading : Text := []
  platforms : List Platform := []
deriving DecidableEq

section

variable (sha256 : Text → String)

def contentHashOf (text : Text) : String := "sha256:" ++ sha256 text

def contentHashFor (result : Result) : String :=
  if result.dedupHash ≠ "" then result.dedupHash else contentHashOf sha256 result.markdown

/-- `none` when `urlsplit` raises. -/
def buildRecord (tables : Tables) (env : Environment) (result : Result) (source : String)
    (scrapedAt : Text) (overrides : TierOverrides) : Option Record := do
  let framework ← frameworkFromUrl tables result.url
  let ns ← namespaceFor tables result.url source
  some
    { id := contentHashFor sha256 result
      source := source
      url := result.url
      title := result.title
      symbol := result.title
      symbolKind := if result.symbolKind ≠ [] then result.symbolKind else result.roleHeading
      framework := framework
      platforms := result.platforms
      availability := availabilityFromPlatforms result.platforms
      scrapedAt := scrapedAt
      licenseBucket := bucketFor source none
      contentHash := contentHashFor sha256 result
      ns := ns
      text := result.markdown
      qualityTier := tierFor env result.quality overrides }

/-- One record per chunk of a page, or one of the whole page where there is none. -/
def chunkRecords (page : Record) : List Record :=
  let parent := if page.contentHash ≠ "" then page.contentHash else page.id
  let chunks : List Chunk :=
    match chunkMarkdown page.text {} with
    | [] => [{ text := page.text, headingPath := [] }]
    | chunks => chunks
  chunks.map fun c =>
    { page with
      text := c.text
      chunkIndex := c.chunkIndex
      headingPath := c.headingPath
      parentHash := parent
      contentHash := contentHashOf sha256 c.text
      id := contentHashOf sha256 c.text }

/-! ## Routing -/

inductive Target
  | dapt | rag | sft
deriving DecidableEq, Repr

/-- `POLICY`. -/
def policy : LicenseBucket → Finset Target
  | .appleDeveloperDocsReviewRequired => {.rag}
  | .appleSampleCodeReviewRequired => {.rag}
  | .swiftOrgPermissive => {.rag, .dapt}
  | .ccBy => {.rag, .dapt}
  | .cc0 => {.rag, .dapt}
  | .permissive => {.rag, .dapt}
  | .communityReviewRequired => {.rag}
  | .ownContent => {.rag, .sft, .dapt}
  | .unknown => ∅

/-- `_PERMISSIVE_REPO`. -/
def permissiveRepo : List String :=
  ["MIT", "Apache-2.0", "BSD-2-Clause", "BSD-3-Clause", "CC0-1.0"]

def route (env : Environment) (record : Record) (lowTierRagOnly : Option Bool) : Finset Target :=
  let targets := policy record.licenseBucket
  let targets :=
    if record.licenseBucket = .appleSampleCodeReviewRequired ∧
        (record.repoLicense.any permissiveRepo.contains) then targets ∪ {.dapt}
    else targets
  if lowTierRagOnly.getD env.lowTierRagOnly ∧ record.qualityTier = .low then targets ∩ {.rag}
  else targets

/-- `sorted`, by the names of the targets. -/
def sortedTargets (targets : Finset Target) : List Target :=
  [.dapt, .rag, .sft].filter (· ∈ targets)

@[simp] theorem mem_sortedTargets (targets : Finset Target) (target : Target) :
    target ∈ sortedTargets targets ↔ target ∈ targets := by
  cases target <;> simp [sortedTargets]

/-- `_records_for_target`. -/
def recordsForTarget (page : Record) : Target → List Record
  | .rag => chunkRecords sha256 page
  | .dapt | .sft => [page]

end

end CrawlTrove.Corpus
