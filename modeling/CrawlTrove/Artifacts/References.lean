import CrawlTrove.Artifacts.Paths

/-!
# References to artifacts

`app/artifacts/base.py`, and the hexadecimal texts both stores name their files
and keys with.
-/

namespace CrawlTrove.Artifacts

open Web (Text)

abbrev Bytes := List UInt8

def isHex (c : Char) : Bool :=
  (decide ('0' ≤ c) && decide (c ≤ '9')) || (decide ('a' ≤ c) && decide (c ≤ 'f'))

/-- `hexdigest()` of SHA-256 is one of 64 digits, `uuid4().hex` one of 32. -/
abbrev HexText (n : ℕ) := { text : Text // text.length = n ∧ ∀ c ∈ text, isHex c = true }

structure ArtifactRef where
  uri : Text
  size : ℤ
  sha256 : Text
  mediaType : Text
  deriving DecidableEq

/-- What a call of a store raises. -/
inductive Error where
  | tooLarge (message : String)
  | integrity (message : String)
  | fileNotFound
  | fileExists
  | isADirectory
  | notADirectory
  /-- The path of a reference cannot be resolved. -/
  | unresolved
  /-- The stream raised, or the call was cancelled while it waited for it. -/
  | stream
  | value (message : String)
  | storage (message : String)
  deriving DecidableEq

theorem HexText.isPart {n : ℕ} (hn : 0 < n) (t : HexText n) : IsPart t.val := by
  obtain ⟨text, hlength, hhex⟩ := t
  refine ⟨?_, ?_, ?_⟩
  · rintro rfl
    exact absurd hlength hn.ne
  · rintro rfl
    exact absurd (hhex '.' List.mem_cons_self) (by decide)
  · intro hslash
    exact absurd (hhex '/' hslash) (by decide)

/-! ## Samples -/

def emptyDigest : HexText 64 :=
  ⟨"e3b0c44298fc1c149afbf4c8996fb92427ae41e4649b934ca495991b7852b855".toList, by simp [isHex]⟩

def digestOfA : HexText 64 :=
  ⟨"ca978112ca1bbdcafac231b39a23dc4da786eff8147c4e72b9807785afee48bb".toList, by simp [isHex]⟩

def otherDigest : HexText 64 := ⟨List.replicate 64 '0', by simp [isHex]⟩

/-- SHA-256 on the empty stream and on the letter `a`. -/
def sampleDigest (data : Bytes) : HexText 64 :=
  if data = [] then emptyDigest else if data = [97] then digestOfA else otherDigest

def uuidOf (c : Char) (h : isHex c = true) : HexText 32 := ⟨List.replicate 32 c, by simp [h]⟩

def firstUuid : HexText 32 := uuidOf '1' rfl

def secondUuid : HexText 32 := uuidOf '2' rfl

def plainText : Text := "text/plain".toList

end CrawlTrove.Artifacts
