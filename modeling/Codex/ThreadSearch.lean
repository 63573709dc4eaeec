/-
Searching a thread. `search_thread_occurrences`
(`thread-store/src/local/thread_history/search.rs`) reads the user messages and the final
agent messages of a thread in the order of their ordinals, finds the term in the
lower-cased text of each, maps every match back to the characters it comes from and cuts a
snippet around them.

A text is its list of characters, a position in it a byte offset; a slice that
would cut a character panics, and so does the search (`SearchFailure.panic`).
Page sizes and counts stay below the saturation of `usize`. The rows hold the
values that their JSON encodes, and reading the databases does not fail. Unicode's
tables, the Markdown parser and the JSON of cursors are parameters. Skills and
mentions, inputs without text, are not modelled.
-/
import Codex.SegmentPaging
import Codex.ThreadMetadata
import Codex.Lib.LiteralSearch
import Codex.Lib.WeightedOffsets

namespace Codex.Search

open Paging (ThreadId ThreadStoreError ThreadHistoryMode CursorCodec serializeCursor)
open Projection (TurnRow ItemRow HistoryDb isUserMessage)
open WeightedOffsets SeekPaging
open Metadata (stripUserMessagePrefix)

/-! ## Encodings -/

/-- `str::len` -/
def len (text : Text) : Nat := weight Char.utf8Size text

/-- `&text[start..end]`; none where that panics. -/
def slice (text : Text) (start stop : Nat) : Option Text := WeightedOffsets.slice Char.utf8Size text start stop

/-- `str::char_indices` -/
def charIndices (text : Text) : List (Nat × Char) := indexed Char.utf8Size 0 text

/-- `char::encode_utf16` -/
def encodeUtf16Char (c : Char) : List Nat :=
  if c.toNat < 0x10000 then [c.toNat]
  else [0xD800 + (c.toNat - 0x10000) / 0x400, 0xDC00 + (c.toNat - 0x10000) % 0x400]

/-- `str::encode_utf16` -/
def encodeUtf16 (text : Text) : List Nat := text.flatMap encodeUtf16Char

def u32Max : Nat := 2 ^ 32 - 1

def utf16Len (text : Text) : Nat := min (encodeUtf16 text).length u32Max

/-! ## Lower case -/

/-- What lower-casing reads of Unicode. No character is without a lower case. -/
structure CaseTables where
  /-- `char::to_lowercase` -/
  charToLowercase : Char → Text
  isCased : Char → Bool
  isCaseIgnorable : Char → Bool
  charToLowercase_ne_nil : ∀ c, charToLowercase c ≠ []
  charToLowercase_sigma : charToLowercase 'Σ' = ['σ']

section
variable (tables : CaseTables)

def caseIgnorableThenCased (text : Text) : Bool := ((text.dropWhile tables.isCaseIgnorable).head?.map tables.isCased).getD false

/-- `map_uppercase_sigma`: at the end of a word it is another letter. -/
def mapUppercaseSigma (before after : Text) : Char :=
  if caseIgnorableThenCased tables before && !caseIgnorableThenCased tables after then 'ς' else 'σ'

/-- The loop of `str::to_lowercase`, by what each character becomes; the characters before are in reverse. -/
def lowercasePieces (before : Text) : Text → List Text
  | [] => []
  | c :: after =>
    (if c = 'Σ' then [mapUppercaseSigma tables before after] else tables.charToLowercase c) ::
      lowercasePieces (c :: before) after

/-- `str::to_lowercase` -/
def toLowercase (text : Text) : Text := (lowercasePieces tables [] text).flatten

/-! ## The matcher -/

/-- A `Range<usize>` -/
structure ByteRange where
  start : Nat
  «end» : Nat
  deriving DecidableEq, Inhabited

def ByteRange.contains (range : ByteRange) (i : Nat) : Bool := range.start ≤ i && i < range.end

/-- Where the lower case of each character is, and the character. -/
def spansFrom (lowercaseStart originalStart : Nat) : Text → List (ByteRange × ByteRange)
  | [] => []
  | c :: text =>
    let lowercaseEnd := lowercaseStart + len (tables.charToLowercase c)
    let originalEnd := originalStart + c.utf8Size
    (⟨lowercaseStart, lowercaseEnd⟩, ⟨originalStart, originalEnd⟩) :: spansFrom lowercaseEnd originalEnd text

/-- `str::match_indices` of a pattern that is not empty -/
def matchIndices (text needle : Text) : List Nat :=
  (LiteralSearch.occurrences needle text).map fun i => len (text.take i)

structure LiteralMatcher where
  lowercaseNeedle : Text

namespace LiteralMatcher

def new (needle : Text) : LiteralMatcher := { lowercaseNeedle := toLowercase tables needle }

/-- The characters that a match comes from. -/
def originalRange (matcher : LiteralMatcher) (spans : List (ByteRange × ByteRange)) (start : Nat) : Option ByteRange := do
  let stop := start + len matcher.lowercaseNeedle
  let first ← spans.find? fun span => span.1.contains start
  let last ← spans.find? fun span => span.1.contains (stop - 1)
  pure { start := first.2.start, «end» := last.2.end }

def findRanges (matcher : LiteralMatcher) (text : Text) (limit : Nat) : List ByteRange :=
  ((matchIndices (toLowercase tables text) matcher.lowercaseNeedle).take limit).filterMap
    (matcher.originalRange (spansFrom tables 0 0 text))

end LiteralMatcher

end

/-! ## Snippets -/

def snippetContextBeforeChars : Nat := 48

def snippetContextAfterChars : Nat := 96

def charStartBefore (text : Text) (byteIndex charsBefore : Nat) : Option Nat :=
  (slice text 0 byteIndex).map fun before => ((charIndices before).reverse[charsBefore]?.map Prod.fst).getD 0

def charEndAfter (text : Text) (byteIndex charsAfter : Nat) : Option Nat :=
  (slice text byteIndex (len text)).map fun after =>
    ((charIndices after)[charsAfter]?.map fun c => byteIndex + c.1).getD (len text)

structure SearchTextRange where
  start : Nat
  «end» : Nat
  deriving DecidableEq, Inhabited

structure StoredThreadOccurrence where
  turnId : String
  itemId : String
  snippet : Text
  snippetMatchRange : SearchTextRange
  turnCursor : String
  deriving DecidableEq, Inhabited

def occurrenceInItem (turnId itemId : String) (text : Text) (matched : ByteRange) (turnCursor : String) :
    Option StoredThreadOccurrence := do
  let snippetStart ← charStartBefore text matched.start snippetContextBeforeChars
  let snippetEnd ← charEndAfter text matched.end snippetContextAfterChars
  let leadingEllipsis := 0 < snippetStart
  let trailingEllipsis := snippetEnd < len text
  let context ← slice text snippetStart snippetEnd
  let snippet := (if leadingEllipsis then "... ".toList else []) ++ context ++ if trailingEllipsis then " ...".toList else []
  let before ← slice text snippetStart matched.start
  -- the sum of two `u32`, which wraps
  let snippetMatchStart := ((if leadingEllipsis then 4 else 0) + utf16Len before) % 2 ^ 32
  let matchedText ← slice text matched.start matched.end
  let matchLen := utf16Len matchedText
  pure { turnId, itemId, snippet, turnCursor
         snippetMatchRange := { start := snippetMatchStart, «end» := min (snippetMatchStart + matchLen) u32Max } }

/-! ## Searchable text -/

/-- `pulldown_cmark::TagEnd`, without the arguments. -/
inductive TagEnd where
  | paragraph
  | heading
  | blockQuote
  | codeBlock
  | htmlBlock
  | list
  | item
  | footnoteDefinition
  | table
  | tableHead
  | tableRow
  | tableCell
  | emphasis
  | strong
  | strikethrough
  | link
  | image
  | metadataBlock
  deriving DecidableEq

/-- `pulldown_cmark::Event`, by what the search reads of it. -/
inductive Event where
  | start
  | «end» (tag : TagEnd)
  | text (value : Text)
  | code (value : Text)
  | html (value : Text)
  | inlineHtml (value : Text)
  | footnoteReference
  | softBreak
  | hardBreak
  | rule
  | taskListMarker
  deriving DecidableEq

def tagEndText : TagEnd → Text
  | .paragraph | .heading | .blockQuote | .codeBlock | .list | .item | .table | .tableHead | .tableRow | .tableCell => [' ']
  | .emphasis | .strong | .strikethrough | .link | .htmlBlock | .footnoteDefinition | .image | .metadataBlock => []

/-- The arms of `markdown_to_search_text` -/
def eventText : Event → Text
  | .text value | .code value | .html value | .inlineHtml value => value
  | .softBreak | .hardBreak | .rule => [' ']
  | .end tag => tagEndText tag
  | .start | .footnoteReference | .taskListMarker => []

/-- `str::split_whitespace` -/
def splitWhitespace (text : Text) : List Text := (text.splitOnP Text.isWhitespace).filter (· ≠ [])

structure SearchCursor where
  threadId : ThreadId
  searchTerm : Text
  nextRolloutOrdinal : Int
  nextOccurrenceIndex : Nat
  deriving DecidableEq

/-- `serde_json` on the cursors of a search. -/
structure SearchCursorCodec where
  toString : SearchCursor → String
  fromStr : String → Option SearchCursor

structure Libraries where
  tables : CaseTables
  /-- `pulldown_cmark::Parser::new` -/
  parseMarkdown : Text → List Event
  searchCursors : SearchCursorCodec
  historyCursors : CursorCodec

section
variable (lib : Libraries)

def markdownToSearchText (markdown : Text) : Text :=
  [' '].intercalate (splitWhitespace ((lib.parseMarkdown (Text.trim markdown)).flatMap eventText))

def searchableText : ThreadItem → Option Text
  | .userMessage _ _ content =>
    let textParts := (content.filterMap fun
      | .text text _ => some (stripUserMessagePrefix text)
      | _ => none).filter (· ≠ [])
    match textParts with
    | [] => none
    | parts => some parts.flatten
  | .agentMessage _ text _ _ =>
    let text := markdownToSearchText lib text.toList
    if text ≠ [] then some text else none
  | _ => none

/-! ## The rows -/

structure CandidateRow where
  turnId : String
  itemId : String
  rolloutOrdinal : Nat
  item : ThreadItem
  turnRolloutOrdinal : Nat
  deriving DecidableEq

def candidateRow (item : ItemRow) (turn : TurnRow) : CandidateRow where
  turnId := item.turnId
  itemId := item.itemId
  rolloutOrdinal := item.rolloutOrdinal
  item := item.item
  turnRolloutOrdinal := turn.rolloutOrdinal

/-- The first part of the query: the user messages. -/
def userRows (db : HistoryDb) : List CandidateRow :=
  (db.items.filter fun item => isUserMessage item.item).flatMap fun item =>
    (db.turns.filter fun turn => turn.turnId = item.turnId).map (candidateRow item)

/-- Its second part: the last answer of every turn. -/
def finalRows (db : HistoryDb) : List CandidateRow :=
  db.turns.flatMap fun turn =>
    (db.items.filter fun item => item.turnId = turn.turnId ∧ some item.itemId = turn.finalAgentItemId).map (candidateRow · turn)

/-- The rows of the query, ordered. Both parts keep the rows from the bound ordinal on. -/
def selectRows (db : HistoryDb) (nextRolloutOrdinal : Int) : List CandidateRow :=
  orderBy CandidateRow.rolloutOrdinal ((userRows db ++ finalRows db).filter fun row => nextRolloutOrdinal ≤ row.rolloutOrdinal)

/-! ## Pages -/

inductive SearchFailure where
  | store (error : ThreadStoreError)
  | unsupported (operation : String)
  | panic
  deriving DecidableEq

/-- Thread metadata of the state database, by what the check reads. -/
structure StateThread where
  archivedAt : Option Int
  historyMode : ThreadHistoryMode

structure LocalThreadStore where
  /-- `get_thread` of the state database, if there is one -/
  stateDb : Option (ThreadId → Except String (Option StateThread))
  threadHistoryDb : ThreadId → HistoryDb

def validateThreadForPaginatedReads (store : LocalThreadStore) (threadId : ThreadId) (includeArchived : Bool)
    (operation : String) : Except SearchFailure Unit :=
  match store.stateDb with
  | none => .error (.unsupported operation)
  | some getThread => match getThread threadId with
    | .error err => .error (.store (.internal ("failed to read thread metadata: " ++ err)))
    | .ok none => .error (.unsupported operation)
    | .ok (some metadata) =>
      if metadata.archivedAt.isSome && !includeArchived then
        .error (.store (.invalidRequest ("thread " ++ threadId ++ " is archived")))
      else match metadata.historyMode with
        | .legacy => .error (.unsupported operation)
        | .paginated => .ok ()

def parseCursor (cursor : Option String) (threadId : ThreadId) (searchTerm : Text) :
    Except SearchFailure (Option SearchCursor) :=
  match cursor with
  | none => .ok none
  | some cursor => match lib.searchCursors.fromStr cursor with
    | none => .error (.store (Paging.invalidCursor cursor))
    | some value =>
      if value.threadId ≠ threadId ∨ value.searchTerm ≠ searchTerm ∨ value.nextRolloutOrdinal < 0 then
        .error (.store (Paging.invalidCursor cursor))
      else .ok (some value)

structure SearchThreadOccurrencesParams where
  threadId : ThreadId
  searchTerm : Text
  cursor : Option String
  pageSize : Nat

structure ThreadOccurrenceSearchPage where
  items : List StoredThreadOccurrence
  nextCursor : Option String
  deriving DecidableEq

section
variable (params : SearchThreadOccurrencesParams)

def turnCursor (row : CandidateRow) : String :=
  serializeCursor lib.historyCursors params.threadId .turns
    { physicalThreadId := params.threadId, rolloutOrdinal := row.turnRolloutOrdinal } true

/-- The loop over the matches of a row. It ends early, with a cursor, when the page is full. -/
def pushOccurrences (row : CandidateRow) (text : Text) :
    List (ByteRange × Nat) → List StoredThreadOccurrence →
      Except SearchFailure (List StoredThreadOccurrence × Option SearchCursor)
  | [], items => .ok (items, none)
  | (matched, occurrenceIndex) :: rest, items =>
    if items.length = params.pageSize then
      .ok (items, some
        { threadId := params.threadId
          searchTerm := params.searchTerm
          nextRolloutOrdinal := row.rolloutOrdinal
          nextOccurrenceIndex := occurrenceIndex })
    else match occurrenceInItem row.turnId row.itemId text matched (turnCursor lib params row) with
      | none => .error .panic
      | some occurrence => pushOccurrences row text rest (items ++ [occurrence])

def firstOccurrenceIndex (cursor : Option SearchCursor) (row : CandidateRow) : Nat :=
  ((cursor.filter fun cursor => cursor.nextRolloutOrdinal = (row.rolloutOrdinal : Int)).map (·.nextOccurrenceIndex)).getD 0

/-- The matches of a row that a page may need, with their numbers. -/
def rowRanges (cursor : Option SearchCursor) (row : CandidateRow) (text : Text) (items : List StoredThreadOccurrence) :
    List (ByteRange × Nat) :=
  let first := firstOccurrenceIndex cursor row
  let remaining := params.pageSize + 1 - items.length
  (((LiteralMatcher.new lib.tables params.searchTerm).findRanges lib.tables text (first + remaining)).zipIdx).drop first

/-- The loop over the rows. -/
def searchRows (cursor : Option SearchCursor) :
    List CandidateRow → List StoredThreadOccurrence →
      Except SearchFailure (List StoredThreadOccurrence × Option SearchCursor)
  | [], items => .ok (items, none)
  | row :: rows, items => match searchableText lib row.item with
    | none => searchRows cursor rows items
    | some text => do
      let (items, next) ← pushOccurrences lib params row text (rowRanges lib params cursor row text items) items
      match next with
      | some next => pure (items, some next)
      | none => searchRows cursor rows items

def searchThreadOccurrences (store : LocalThreadStore) : Except SearchFailure ThreadOccurrenceSearchPage := do
  if Text.trim params.searchTerm = [] then
    .error (.store (.invalidRequest "thread/searchOccurrences requires search_term"))
  else if params.pageSize = 0 then
    .error (.store (.invalidRequest "thread/searchOccurrences requires page_size greater than zero"))
  else
    validateThreadForPaginatedReads store params.threadId true "thread/searchOccurrences"
    let cursor ← parseCursor lib params.cursor params.threadId params.searchTerm
    let rows := selectRows (store.threadHistoryDb params.threadId) ((cursor.map (·.nextRolloutOrdinal)).getD 0)
    let (items, next) ← searchRows lib params cursor rows []
    pure { items, nextCursor := next.map lib.searchCursors.toString }

end

end

end Codex.Search
