import VidbyteSdk.Lib.Picking
import VidbyteSdk.Lib.Recency
import VidbyteSdk.Lib.Utf8
import Mathlib.Data.List.Sort

/-!
# Thinking blocks and the prefixes they are bound to

`providers/anthropic_thinking.py`. `digests` hashes what a request says in front of each message, without
`cache_control` markers and thinking blocks. `record` keeps the hash of the whole request under the key of each
thinking block of its answer. `stripStale` takes out of a request the blocks whose prefix has changed.

The content lists of a payload's messages are shared with the caller, so they are references to a store of lists;
what only reads them reads a view. `sha256` is a parameter: the hash of a text's UTF-8 bytes.
-/

namespace VidbyteSdk.Providers.Thinking

open VidbyteSdk.Lib Json

def Digest := List Byte
  deriving DecidableEq

/-- `_CAPACITY`. -/
@[irreducible] def capacity : ℕ := 16384

/-- `_REMOVED`. -/
def removedMark : Digest := ([] : List Byte)

/-! ### Payloads -/

def typeKey : Text := word ['t', 'y', 'p', 'e']
def contentKey : Text := word ['c', 'o', 'n', 't', 'e', 'n', 't']
def cacheControlKey : Text := word ['c', 'a', 'c', 'h', 'e', '_', 'c', 'o', 'n', 't', 'r', 'o', 'l']
def signatureKey : Text := word ['s', 'i', 'g', 'n', 'a', 't', 'u', 'r', 'e']
def dataKey : Text := word ['d', 'a', 't', 'a']
def thinkingType : Text := word ['t', 'h', 'i', 'n', 'k', 'i', 'n', 'g']
def redactedType : Text :=
  word ['r', 'e', 'd', 'a', 'c', 't', 'e', 'd', '_', 't', 'h', 'i', 'n', 'k', 'i', 'n', 'g']

inductive Content (L : Type) where
  | list (blocks : L)
  | other (value : Json)

/-- A message: a dictionary, whose content is kept apart from its other fields, or any other value. -/
inductive Message (L : Type) where
  | dict (fields : List (Text × Json)) (content : Option (Content L))
  | other (value : Json)

/-- What the guard reads of a request; `messages` is `none` where it is no list. -/
structure Payload (L : Type) where
  system : Json
  tools : Json
  messages : Option (List (Message L))

def Content.map {L M : Type} (f : L → M) : Content L → Content M
  | .list blocks => .list (f blocks)
  | .other value => .other value

def Message.map {L M : Type} (f : L → M) : Message L → Message M
  | .dict fields content => .dict fields (content.map (Content.map f))
  | .other value => .other value

def Payload.map {L M : Type} (f : L → M) (payload : Payload L) : Payload M :=
  { payload with messages := payload.messages.map (List.map (Message.map f)) }

abbrev Store := List (List Json)

def Store.read (store : Store) (ref : ℕ) : List Json := store.getD ref []

def view (store : Store) (payload : Payload ℕ) : Payload (List Json) := payload.map store.read

def Message.blocks : Message (List Json) → List Json
  | .dict _ (some (.list blocks)) => blocks
  | _ => []

def Message.json : Message (List Json) → Json
  | .dict fields none => .obj fields
  | .dict fields (some (.list blocks)) => .obj (fields ++ [(contentKey, .arr blocks)])
  | .dict fields (some (.other value)) => .obj (fields ++ [(contentKey, value)])
  | .other value => value

/-! ### Prefixes -/

/-- `block.get(key)` of a dictionary. -/
def field (block : Json) (key : Text) : Option Json :=
  match block with
  | .obj members => members.lookup key
  | _ => none

/-- A dictionary whose type is one of `_BOUND_TYPES`. -/
def isBound (block : Json) : Bool :=
  match field block typeKey with
  | some (.str type) => type = thinkingType || type = redactedType
  | _ => false

mutual

/-- `_canonical`. -/
def canonical : Json → Json
  | .obj members => .obj (canonicalMembers members)
  | .arr items => .arr (canonicalItems items)
  | value => value

def canonicalMembers : List (Text × Json) → List (Text × Json)
  | [] => []
  | (key, value) :: members =>
    if key = cacheControlKey then canonicalMembers members
    else (key, canonical value) :: canonicalMembers members

def canonicalItems : List Json → List Json
  | [] => []
  | item :: items =>
    if isBound item then canonicalItems items else canonical item :: canonicalItems items

end

mutual

/-- `json.dumps(value, **_JSON_FORM)`: sorted keys and no blanks. -/
def jsonForm : Json → Text
  | .arr items => leftBracket :: [comma].intercalate (jsonFormItems items) ++ [rightBracket]
  | .obj members =>
    leftBrace :: [comma].intercalate
      (((jsonFormMembers members).insertionSort fun a b => a.1 ≤ b.1).map fun member =>
        quoted false member.1 ++ colon :: member.2) ++ [rightBrace]
  | value => dumps false value

def jsonFormItems : List Json → List Text
  | [] => []
  | item :: items => jsonForm item :: jsonFormItems items

def jsonFormMembers : List (Text × Json) → List (Text × Text)
  | [] => []
  | (key, value) :: members => (key, jsonForm value) :: jsonFormMembers members

end

def messageText (message : Message (List Json)) : Text := comma :: jsonForm (canonical message.json)

def runningTexts : Text → List (Message (List Json)) → List Text
  | running, [] => [running]
  | running, message :: messages => running :: runningTexts (running ++ messageText message) messages

def openingText (payload : Payload (List Json)) : Text :=
  jsonForm (.arr [canonical payload.system, canonical payload.tools])

def prefixTexts (payload : Payload (List Json)) : List Text :=
  runningTexts (openingText payload) (payload.messages.getD [])

variable (sha256 : Text → Digest)

/-- `AnthropicThinkingPrefix.digests`. -/
def digests (payload : Payload (List Json)) : List Digest := (prefixTexts payload).map sha256

/-- `block_key`. -/
def blockKey (block : Json) : Option Digest :=
  match field block typeKey with
  | some (.str type) =>
    let token :=
      if type = thinkingType then field block signatureKey
      else if type = redactedType then field block dataKey
      else none
    match token with
    | some (.str token) => if token = [] then none else some (sha256 (type ++ colon :: token))
    | _ => none
  | _ => none

/-! ### Bindings -/

/-- `_signed`: what is recorded under the key of a block, least recently used first. -/
abbrev Signed := List (Digest × Digest)

structure Located where
  message : ℕ
  block : ℕ
  key : Option Digest
  deriving DecidableEq

def locateIn (index : ℕ) (blocks : List Json) : List Located :=
  blocks.zipIdx.filterMap fun block =>
    if isBound block.1 then some ⟨index, block.2, blockKey sha256 block.1⟩ else none

/-- `_locate`. -/
def locate (messages : List (Message (List Json))) : List Located :=
  messages.zipIdx.flatMap fun (message, index) => locateIn sha256 index message.blocks

def recordOf (signed : Signed) (entry : Located) : Option Digest := entry.key.bind fun key => signed.lookup key

/-- A block that was signed under another prefix than the one in front of its message. -/
def hasChanged (signed : Signed) (prefixes : List Digest) (entry : Located) : Bool :=
  match recordOf signed entry with
  | some recorded => recorded ≠ removedMark && prefixes[entry.message]? ≠ some recorded
  | none => false

/-- `_stale`. -/
def stale (signed : Signed) (located : List Located) (prefixes : List Digest) : List Located :=
  let changed := located.findIdx (hasChanged signed prefixes)
  pick (fun entry => changed ≤ entry.2 || recordOf signed entry.1 = some removedMark) located

def keptBlocks (removed : List Located) (index : ℕ) (blocks : List Json) : List Json :=
  pick (fun block => ¬removed.any fun entry => entry.message = index && entry.block = block.2) blocks

def removeIn (removed : List Located) (index : ℕ) (store : Store) : Message ℕ → Store × Message ℕ
  | .dict fields (some (.list ref)) =>
    if removed.any fun entry => entry.message = index then
      (store ++ [keptBlocks removed index (store.read ref)], .dict fields (some (.list store.length)))
    else (store, .dict fields (some (.list ref)))
  | message => (store, message)

/-- `_remove`. -/
def removeFrom (removed : List Located) : ℕ → Store → List (Message ℕ) → Store × List (Message ℕ)
  | _, store, [] => (store, [])
  | index, store, message :: messages =>
    let touched := removeIn removed index store message
    let rest := removeFrom removed (index + 1) touched.1 messages
    (rest.1, touched.2 :: rest.2)

/-- `_mark_removed`. -/
def markRemoved (removed : List Located) (signed : Signed) : Signed :=
  Recency.store capacity (removed.filterMap Located.key) removedMark signed

/-- `strip_stale`: how many blocks it removed, the lists, the payload and the bindings after it. -/
def stripStale (store : Store) (signed : Signed) (payload : Payload ℕ) : ℕ × Store × Payload ℕ × Signed :=
  match payload.messages with
  | none => (0, store, payload, signed)
  | some messages =>
    let request := view store payload
    let removed := stale signed (locate sha256 (request.messages.getD [])) (digests sha256 request)
    if removed = [] then (0, store, payload, signed)
    else
      let (store, messages) := removeFrom removed 0 store messages
      (removed.length, store, { payload with messages := some messages }, markRemoved removed signed)

/-- The keys of the blocks of an answer; `none` where its content is no list. -/
def answerKeys (content : Option (List Json)) : List Digest :=
  (content.getD []).filterMap (blockKey sha256)

/-- `record`. -/
def record (signed : Signed) (payload : Payload (List Json)) (content : Option (List Json)) : Signed :=
  let keys := answerKeys sha256 content
  if keys = [] then signed
  else
    match (digests sha256 payload).getLast? with
    | some whole => Recency.store capacity keys whole signed
    | none => signed

end VidbyteSdk.Providers.Thinking
