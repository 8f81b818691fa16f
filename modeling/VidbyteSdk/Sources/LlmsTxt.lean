import VidbyteSdk.Lib.Dicts
import VidbyteSdk.Lib.PaddedNumbers

/-!
# llms.txt indexes

The parser of `sources/llms_txt/parser.py`, with the patterns of `sources/regex/regex.py`, and the loader of
`sources/loaders/llms_txt.py`. The text is what the bytes decode to. Case folding, glob matching, the joining of urls and
the loading of a linked document are parameters.
-/

namespace VidbyteSdk.Sources

open Lib

/-! ### The grammar -/

def lstrip (text : Text) : Text := text.dropWhile CodePoint.isSpace

def isH1 (line : Text) : Bool := (Json.lit "# ").isPrefixOf (lstrip line)

def isH2 (line : Text) : Bool := (Json.lit "## ").isPrefixOf (lstrip line)

/-- What follows `^\s*-\s*\[`. -/
def afterLinkPrefix (line : Text) : Option Text :=
  match lstrip line with
  | [] => none
  | c :: rest =>
    if c = Json.minus then
      match lstrip rest with
      | [] => none
      | c :: rest => if c = Json.leftBracket then some rest else none
    else none

/-- `LINK_BULLET_PREFIX` -/
def isLinkBullet (line : Text) : Bool := (afterLinkPrefix line).isSome

/-- A url up to its closing parenthesis, and what follows; inside a pair of parentheses no other may open. -/
def linkUrl : Bool → Text → Option (Text × Text)
  | _, [] => none
  | inside, c :: rest =>
    if c = 0x29 then
      if inside then (linkUrl false rest).map fun found => (c :: found.1, found.2) else some ([], rest)
    else if c = 0x28 then
      if inside then none else (linkUrl true rest).map fun found => (c :: found.1, found.2)
    else (linkUrl inside rest).map fun found => (c :: found.1, found.2)

/-- The note behind a link: `\s*(?:[:\-\u2013\u2014]\s*(?P<note>.*))?$`. -/
def linkNote (text : Text) : Option (Option Text) :=
  match lstrip text with
  | [] => some none
  | c :: rest =>
    if c ∈ [(0x3A : CodePoint), 0x2D, 0x2013, 0x2014] then
      if lstrip rest = [] then some none else some (some (Json.strip rest))
    else none

structure LlmsTxtLink where
  title : Text
  url : Text
  note : Option Text
  deriving DecidableEq

/-- `parse_link_bullet` -/
def parseLinkBullet (line : Text) : Option LlmsTxtLink := do
  let rest ← afterLinkPrefix line
  let title := rest.takeWhile fun c => c ≠ Json.rightBracket
  match rest.dropWhile fun c => c ≠ Json.rightBracket with
  | _ :: c :: rest =>
    if title = [] ∨ c ≠ 0x28 then none
    else
      let (url, rest) ← linkUrl false rest
      let note ← linkNote rest
      pure ⟨Json.strip title, Json.strip url, note⟩
  | _ => none

/-! ### The parser -/

structure LlmsTxtSection where
  name : Text
  links : List LlmsTxtLink
  optional : Bool
  deriving DecidableEq

structure LlmsTxtDocument where
  title : Text
  summary : Option Text
  details : Option Text
  sections : List LlmsTxtSection
  deriving DecidableEq

/-- A `SourceParseError`. -/
inductive SourceParseError
  | missingTitle
  | malformedLink (linkSection line : Text)
  deriving DecidableEq

/-- `text.strip() or None` -/
def strippedOrNone (text : Text) : Option Text := if Json.strip text = [] then none else some (Json.strip text)

/-- `_parse_linkSectionlinks` -/
def parseSectionLinks (name : Text) : List Text → Except SourceParseError (List LlmsTxtLink)
  | [] => .ok []
  | line :: lines =>
    if isH2 line then .ok []
    else if isLinkBullet line then
      match parseLinkBullet line with
      | none => .error (.malformedLink name (Json.strip line))
      | some link =>
        if link.url = [] then .error (.malformedLink name (Json.strip line))
        else (parseSectionLinks name lines).map (link :: ·)
    else parseSectionLinks name lines

/-- `_parse_sections`; the lines of a section that `_parse_section` has read are no headings and are passed over. -/
def parseSections (lower : Text → Text) : List Text → Except SourceParseError (List LlmsTxtSection)
  | [] => .ok []
  | line :: lines =>
    if isH2 line then do
      let name := Json.strip ((Json.strip line).drop 2)
      let links ← parseSectionLinks name lines
      let sections ← parseSections lower lines
      pure (⟨name, links, lower (Json.strip name) = Json.lit "optional"⟩ :: sections)
    else parseSections lower lines

def isSummaryLine (line : Text) : Bool := (Json.lit ">").isPrefixOf (lstrip line)

/-- `LlmsTxtParser.parse` -/
def parseLlmsTxt (lower : Text → Text) (text : Text) : Except SourceParseError LlmsTxtDocument :=
  let text := if text.head? = some 0xFEFF then text.tail else text
  let lines := (universalNewlines text).splitOn newline
  match lines.dropWhile fun line => Json.strip line = [] with
  | [] => .error .missingTitle
  | line :: rest =>
    if isH1 line then do
      let lines := rest.dropWhile fun line => Json.strip line = []
      let quoted := (lines.takeWhile isSummaryLine).map fun line => Json.strip ((lstrip line).drop 1)
      let lines := lines.dropWhile isSummaryLine
      let prose := lines.takeWhile fun line => !isH2 line
      let sections ← parseSections lower lines
      pure {
        title := Json.strip ((Json.strip line).drop 1)
        summary := strippedOrNone (joinLines quoted)
        details := strippedOrNone (joinLines prose)
        sections := sections }
    else .error .missingTitle

/-! ### The loader -/

structure Selection where
  allow : List Text
  deny : List Text
  expand : Bool

/-- `is_trivial` -/
def Selection.isTrivial (selection : Selection) : Bool := selection.allow = [Json.lit "*"] && selection.deny.isEmpty

/-- What the loader uses of its surroundings; `load` gives the item of a linked document or raises. -/
structure Loading (I X : Type) where
  lower : Text → Text
  fnmatch : Text → Text → Bool
  urljoin : Text → Text → Text
  load : Text → Except X I
  /-- `_wrap_untrusted_content`, or nothing. -/
  label : Text → Text

section Slugs

def isSlugChar (c : CodePoint) : Bool := c.isDigit || (0x61 ≤ c.val && c.val ≤ 0x7A)

/-- `SLUG.sub("-", text)`: one hyphen for each run of other characters. -/
def hyphenate : Text → Text
  | [] => []
  | c :: rest =>
    if isSlugChar c then c :: hyphenate rest
    else if rest.head?.any fun next => !isSlugChar next then hyphenate rest
    else Json.minus :: hyphenate rest

/-- `text.strip("-")` -/
def stripHyphens (text : Text) : Text :=
  ((text.dropWhile (· = Json.minus)).reverse.dropWhile (· = Json.minus)).reverse

def slugify (lower : Text → Text) (name : Text) : Text :=
  let slug := stripHyphens (hyphenate (lower (Json.strip name)))
  let slug := stripHyphens (slug.take 48)
  if slug = [] then Json.lit "item" else slug

end Slugs

structure SelectedLink where
  sectionIndex : ℕ
  linkIndex : ℕ
  link : LlmsTxtLink
  linkSection : LlmsTxtSection

structure IndexItem where
  documentId : Text
  title : Text
  content : Text

structure ExpandedItem (I : Type) where
  item : I
  documentId : Text
  parent : Text
  linkSection : Text

section Loader

variable {I X : Type} (loading : Loading I X)

/-- `Selection._any` -/
def anyMatches (patterns : List Text) (name : Text) : Bool :=
  patterns.any fun pattern => loading.fnmatch (loading.lower name) (loading.lower pattern)

/-- `selection.selects(*names)` -/
def selects (selection : Selection) (names : List Text) : Bool :=
  names.any (anyMatches loading selection.allow) && !names.any (anyMatches loading selection.deny)

def selectedIn (selection : Selection) (linkSection : LlmsTxtSection) (sectionIndex : ℕ) : List SelectedLink :=
  if linkSection.optional && selection.allow = [Json.lit "*"] then []
  else
    linkSection.links.zipIdx.filterMap fun entry =>
      let key := linkSection.name ++ Json.lit "/" ++ entry.1.title
      if selects loading selection [linkSection.name, key] then some ⟨sectionIndex, entry.2, entry.1, linkSection⟩ else none

/-- `_selected_links` -/
def selectedLinks (ir : LlmsTxtDocument) (selection : Selection) : List SelectedLink :=
  ir.sections.zipIdx.flatMap fun entry => selectedIn loading selection entry.1 entry.2

def documentPrefix (contentHash : Text) : Text := Json.lit "llms-txt:" ++ contentHash.take 12 ++ Json.lit ":"

def documentId (parentHash : Text) (selected : SelectedLink) : Text :=
  documentPrefix parentHash ++ (zfill 3 selected.sectionIndex ++ Json.minus ::
    (slugify loading.lower selected.linkSection.name ++ Json.colon ::
      (zfill 3 selected.linkIndex ++ Json.minus :: slugify loading.lower selected.link.title)))

def loadSections (ir : LlmsTxtDocument) (selection : Selection) (parentHash baseUrl : Text) :
    Except X (List (ExpandedItem I)) :=
  (selectedLinks loading ir selection).mapM fun selected => do
    let item ← loading.load (loading.urljoin baseUrl selected.link.url)
    pure ⟨item, documentId loading parentHash selected, parentHash, selected.linkSection.name⟩

/-- `_expand_sections` -/
def expandSections (ir : LlmsTxtDocument) (selection : Selection) (parentHash baseUrl : Text) :
    Except X (List (ExpandedItem I)) :=
  (loadSections loading ir selection parentHash baseUrl).map fun expanded =>
    expanded.mergeSort fun a b => decide (a.documentId ≤ b.documentId)

/-- `_build_index_item` -/
def buildIndexItem (ir : LlmsTxtDocument) (contentHash : Text) : IndexItem where
  documentId := documentPrefix contentHash ++ Json.lit "000-index"
  title := ir.title
  content :=
    let linkLine (link : LlmsTxtLink) : Text :=
      Json.lit "- [" ++ link.title ++ Json.lit "](" ++ link.url ++ Json.lit ")" ++
        (link.note.map fun note => Json.lit " - " ++ note).getD []
    let sectionLines (linkSection : LlmsTxtSection) : List Text :=
      [[], Json.lit "## " ++ linkSection.name] ++ linkSection.links.map linkLine
    loading.label (joinLines ([Json.lit "# " ++ ir.title] ++ (ir.summary.map (Json.lit "> " ++ ·)).toList ++
      ir.sections.flatMap sectionLines))

/-- `_emit` -/
def emit (ir : LlmsTxtDocument) (selection : Selection) (contentHash url : Text) :
    Except X (IndexItem × List (ExpandedItem I)) :=
  let index := buildIndexItem loading ir contentHash
  if selection.expand || !selection.isTrivial then
    (expandSections loading ir selection contentHash url).map fun expanded => (index, expanded)
  else .ok (index, [])

end Loader

end VidbyteSdk.Sources
