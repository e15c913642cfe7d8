import CrawlTrove.Web.Url

/-!
# Chunking of Markdown

`chunk_markdown` (`app/corpus/chunking.py`): a page is cut at its headings and
paragraphs, never inside a fenced block, and the pieces are packed into windows
counted in words. The scans of `_iter_blocks` are the states of an automaton that
reads one line at a time.
-/

namespace CrawlTrove.Corpus

open Web (Text)

/-! ## Strings -/

/-- `str.isspace`, which is also the `\s` of a pattern. -/
def isSpace (c : Char) : Bool :=
  let n := c.toNat
  (0x9 ≤ n && n ≤ 0xD) || (0x1C ≤ n && n ≤ 0x20) || n = 0x85 || n = 0xA0 || n = 0x1680 ||
    (0x2000 ≤ n && n ≤ 0x200A) || n = 0x2028 || n = 0x2029 || n = 0x202F || n = 0x205F ||
    n = 0x3000

/-- The characters at which `str.splitlines` ends a line. -/
def isLineBreak (c : Char) : Bool :=
  let n := c.toNat
  (0xA ≤ n && n ≤ 0xD) || (0x1C ≤ n && n ≤ 0x1E) || n = 0x85 || n = 0x2028 || n = 0x2029

/-- The lines behind the characters already read of the first of them. -/
def splitLinesFrom (line : Text) : Text → List Text
  | [] => if line = [] then [] else [line]
  | '\r' :: '\n' :: rest => line :: splitLinesFrom [] rest
  | c :: rest => if isLineBreak c then line :: splitLinesFrom [] rest
      else splitLinesFrom (line ++ [c]) rest

/-- `str.splitlines`. -/
def splitLines (s : Text) : List Text := splitLinesFrom [] s

/-- The words behind the characters already read of the first of them. -/
def wordsFrom (word : Text) : Text → List Text
  | [] => if word = [] then [] else [word]
  | c :: rest =>
      if isSpace c then
        if word = [] then wordsFrom [] rest else word :: wordsFrom [] rest
      else wordsFrom (word ++ [c]) rest

/-- `str.split` without a separator. -/
def words (s : Text) : List Text := wordsFrom [] s

/-- `str.strip` without an argument. -/
def trim (s : Text) : Text := ((s.dropWhile isSpace).reverse.dropWhile isSpace).reverse

/-- `str.join`. -/
def join (separator : Text) (parts : List Text) : Text := List.intercalate separator parts

/-! ## Blocks -/

inductive Block
  | heading (title : Text) (level : ℕ)
  | code (text : Text)
  | para (text : Text)
deriving DecidableEq

/-- `_HEADING`: the level and the title of a line that is one. -/
def headingOf (line : Text) : Option (ℕ × Text) :=
  let level := (line.takeWhile (· = '#')).length
  let rest := line.drop level
  if 1 ≤ level ∧ level ≤ 6 ∧ (rest.head?.any isSpace) then some (level, trim rest) else none

/-- A fence: its character and how often it stands there. -/
structure Fence where
  char : Char
  length : ℕ
deriving DecidableEq

def backtick : Char := Char.ofNat 96

/-- `_FENCE`: the fence with which the line begins. -/
def fenceOf (line : Text) : Option Fence :=
  match line.dropWhile isSpace with
  | [] => none
  | c :: rest =>
      let length := (rest.takeWhile (· = c)).length + 1
      if (c = backtick ∨ c = '~') ∧ 3 ≤ length then some ⟨c, length⟩ else none

/-- The line closes the block this fence has opened. -/
def Fence.closedBy (fence : Fence) (line : Text) : Bool :=
  let rest := line.dropWhile isSpace
  let length := (rest.takeWhile (· = fence.char)).length
  fence.length ≤ length && (rest.drop length).all isSpace

def isBlank (line : Text) : Bool := trim line = []

/-- The block the lines read last belong to. -/
inductive Open
  | outside
  | inCode (fence : Fence) (lines : List Text)
  | inPara (lines : List Text)

/-- A line outside of any block. -/
def enter (line : Text) : List Block × Open :=
  match fenceOf line with
  | some fence => ([], .inCode fence [line])
  | none =>
      match headingOf line with
      | some (level, title) => ([.heading title level], .outside)
      | none => if isBlank line then ([], .outside) else ([], .inPara [line])

/-- The blocks a line ends, and what is open behind it. -/
def readLine (line : Text) : Open → List Block × Open
  | .outside => enter line
  | .inCode fence lines =>
      if fence.closedBy line then ([.code (join ['\n'] (lines ++ [line]))], .outside)
      else ([], .inCode fence (lines ++ [line]))
  | .inPara lines =>
      if isBlank line ∨ (headingOf line).isSome ∨ (fenceOf line).isSome then
        let (blocks, next) := enter line
        (.para (join ['\n'] lines) :: blocks, next)
      else ([], .inPara (lines ++ [line]))

/-- The block that is open at the end. -/
def Open.finish : Open → List Block
  | .outside => []
  | .inCode _ lines => [.code (join ['\n'] lines)]
  | .inPara lines => [.para (join ['\n'] lines)]

def blocksFrom (current : Open) : List Text → List Block
  | [] => current.finish
  | line :: lines =>
      let (blocks, next) := readLine line current
      blocks ++ blocksFrom next lines

/-- `_iter_blocks`. -/
def iterBlocks (markdown : Text) : List Block := blocksFrom .outside (splitLines markdown)

/-! ## Chunks -/

/-- `_count_tokens`. -/
def countTokens (text : Text) : ℕ := (words text).length

structure Chunk where
  text : Text
  headingPath : List Text
  chunkIndex : ℕ := 0
deriving DecidableEq

/-- The keyword arguments of `chunk_markdown` that it uses. -/
structure Window where
  targetTokens : ℕ := 250
  maxTokens : ℕ := 900
  overlapTokens : ℕ := 40

/-- The variables of `chunk_markdown`; the stack grows at its end. -/
structure Chunker where
  headingStack : List (ℕ × Text) := []
  chunks : List Chunk := []
  curBlocks : List Text := []
  curTokens : ℕ := 0
  curPath : List Text := []
  curHasBody : Bool := false

namespace Chunker

def pathNow (s : Chunker) : List Text := s.headingStack.map Prod.snd

def flush (s : Chunker) : Chunker :=
  let text := trim (join ['\n', '\n'] (s.curBlocks.filter (· ≠ [])))
  { s with
    chunks := if text = [] then s.chunks
      else s.chunks ++ [{ text := text, headingPath := s.curPath }]
    curBlocks := []
    curTokens := 0
    curHasBody := false }

def heading (window : Window) (text : Text) (level : ℕ) (s : Chunker) : Chunker :=
  let s := { s with
    headingStack := s.headingStack.rdropWhile (fun h : ℕ × Text => level ≤ h.1) ++ [(level, text)] }
  let s := if window.targetTokens ≤ s.curTokens then s.flush else s
  let s := if s.curHasBody then s else { s with curPath := s.pathNow }
  { s with
    curBlocks := s.curBlocks ++ [List.replicate level '#' ++ ' ' :: text]
    curTokens := s.curTokens + countTokens text }

/-- A code block larger than a window stands alone. -/
def oversized (text : Text) (s : Chunker) : Chunker :=
  let s := if s.curBlocks = [] then s else s.flush
  { s with
    curPath := s.pathNow
    curBlocks := s.curBlocks ++ [text]
    curHasBody := true }.flush

def body (window : Window) (text : Text) (s : Chunker) : Chunker :=
  let toks := countTokens text
  let s := if s.curBlocks ≠ [] ∧ window.maxTokens < s.curTokens + toks then s.flush else s
  let s := if s.curBlocks = [] then { s with curPath := s.pathNow } else s
  let s := { s with
    curBlocks := s.curBlocks ++ [text]
    curTokens := s.curTokens + toks
    curHasBody := true }
  if window.targetTokens ≤ s.curTokens then s.flush else s

def addBlock (window : Window) (s : Chunker) : Block → Chunker
  | .heading text level => s.heading window text level
  | .code text =>
      if window.maxTokens < countTokens text then s.oversized text else s.body window text
  | .para text => s.body window text

end Chunker

/-- `_tail_overlap`. -/
def tailOverlap (text : Text) (overlapTokens : ℕ) : Text :=
  let ws := words text
  join [' '] (ws.drop (ws.length - overlapTokens))

/-- Each chunk gets the tail of the one before it, which has got its own. -/
def overlapFrom (overlapTokens : ℕ) (previous : Text) : List Chunk → List Chunk
  | [] => []
  | chunk :: chunks =>
      let tail := tailOverlap previous overlapTokens
      let text :=
        if tail = [] ∨ tail <:+: chunk.text then chunk.text
        else tail ++ '\n' :: '\n' :: chunk.text
      { chunk with text := text } :: overlapFrom overlapTokens text chunks

def addOverlap (overlapTokens : ℕ) : List Chunk → List Chunk
  | [] => []
  | chunk :: chunks =>
      if overlapTokens = 0 then chunk :: chunks
      else chunk :: overlapFrom overlapTokens chunk.text chunks

def chunkMarkdown (markdown : Text) (window : Window) : List Chunk :=
  let s := ((iterBlocks markdown).foldl (Chunker.addBlock window) {}).flush
  (addOverlap window.overlapTokens s.chunks).mapIdx fun idx c => { c with chunkIndex := idx }

end CrawlTrove.Corpus
