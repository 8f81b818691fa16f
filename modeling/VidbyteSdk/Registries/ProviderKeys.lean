import Mathlib.Data.List.Sort
import VidbyteSdk.Lib.Text

/-!
# Provider keys

`ProviderKeyMatcher` of `lib/registries/provider_keys.py` and the `ProviderKeys` record of
`lib/dataclasses/agents.py`: which provider a key's prefix proves, which providers may take a key that
proves none, and how a list of keys is bound to the providers a root is configured with.

An error keeps what its message names: the index of the entry in the developer's list, its length and
the providers. The fold of a provider's name to lower case is a parameter.
-/

namespace VidbyteSdk.Registries

open VidbyteSdk.Lib

inductive ModelProvider where
  | openai | anthropic | gemini | xai | deepseek | glm | minimax | kimi | «meta» | mistral | openrouter
  | elevenlabs | playai | typesafe
  deriving DecidableEq

namespace ModelProvider

def value : ModelProvider → String
  | openai => "openai"
  | anthropic => "anthropic"
  | gemini => "gemini"
  | xai => "xai"
  | deepseek => "deepseek"
  | glm => "glm"
  | minimax => "minimax"
  | kimi => "kimi"
  | «meta» => "meta"
  | mistral => "mistral"
  | openrouter => "openrouter"
  | elevenlabs => "elevenlabs"
  | playai => "playai"
  | typesafe => "typesafe"

def all : List ModelProvider :=
  [openai, anthropic, gemini, xai, deepseek, glm, minimax, kimi, «meta», mistral, openrouter, elevenlabs,
    playai, typesafe]

end ModelProvider

/-! ### The formats of keys -/

/-- `[A-Za-z0-9_-]` -/
def isTokenChar (c : Char) : Bool := c.isAlphanum || c == '_' || c == '-'

/-- `[A-Za-z0-9_-]+` -/
def isToken (cs : List Char) : Bool := !cs.isEmpty && cs.all isTokenChar

/-- `[!-~]+`, the characters of `VIDBYTE_PROVIDER_KEY_PATTERN`. -/
def isPrintable (key : String) : Bool :=
  !key.isEmpty && key.toList.all fun c => decide (0x21 ≤ c.toNat ∧ c.toNat ≤ 0x7E)

def startsWith (key text : String) : Bool := text.toList.isPrefixOf key.toList

def isTextAnd (text : String) (rule : List Char → Bool) (key : String) : Bool :=
  startsWith key text && rule (key.toList.drop text.length)

/-- `[0-9]+`, the separator and `[A-Za-z0-9_-]+` -/
def isNumberAndToken (separator : Char) (cs : List Char) : Bool :=
  let number := cs.takeWhile Char.isDigit
  match cs.drop number.length with
  | c :: token => !number.isEmpty && c == separator && isToken token
  | [] => false

/-- A row of `KEY_FORMATS`: a provider, the prefixes reserved to it and the pattern of its keys. -/
structure KeyFormat where
  provider : ModelProvider
  prefixes : List String
  fullmatch : String → Bool

def KEY_FORMATS : List KeyFormat :=
  [ ⟨.anthropic, ["sk-ant-"], isTextAnd "sk-ant-" isToken⟩,
    ⟨.openrouter, ["sk-or-"], isTextAnd "sk-or-" isToken⟩,
    ⟨.openai, ["sk-proj-", "sk-svcacct-", "sk-admin-"], fun key =>
      isTextAnd "sk-proj-" isToken key || isTextAnd "sk-svcacct-" isToken key ||
        isTextAnd "sk-admin-" isToken key⟩,
    ⟨.xai, ["xai-"], isTextAnd "xai-" isToken⟩,
    ⟨.gemini, ["AIza", "AQ."], fun key =>
      isTextAnd "AIza" (fun cs => cs.length == 35 && cs.all isTokenChar) key ||
        isTextAnd "AQ." isToken key⟩,
    ⟨.«meta», ["LLM|", "LLM_"], fun key =>
      isTextAnd "LLM|" (isNumberAndToken '|') key || isTextAnd "LLM_" (isNumberAndToken '_') key⟩ ]

def FORMAT_BOUND_PROVIDERS : List ModelProvider := [.anthropic, .xai, .gemini, .openrouter, .«meta»]

def OPENAI_KEY_PREFIX : String := "sk-"

def OPENAI_JWT_PREFIX : String := "eyJ"

def RESERVED_PREFIXES : List (String × ModelProvider) := []

def VIDBYTE_API_KEY_PREFIX : String := "vb_live_"

/-- `VIDBYTE_API_KEY_PATTERN` -/
def isVidbyteKey (key : String) : Bool :=
  isTextAnd VIDBYTE_API_KEY_PREFIX (fun cs => 32 ≤ cs.length && cs.all isTokenChar) key

def reserved : List (String × ModelProvider) :=
  (KEY_FORMATS.flatMap fun format => format.prefixes.map fun text => (text, format.provider))
    ++ RESERVED_PREFIXES

def providerOf (key : String) : Option ModelProvider :=
  (KEY_FORMATS.find? fun format => format.fullmatch key).map (·.provider)

def acceptsUnproven (provider : ModelProvider) (key : String) : Bool :=
  if reserved.any fun (text, owner) => startsWith key text && owner != provider then false
  else if provider ∈ FORMAT_BOUND_PROVIDERS then false
  else if provider = .openai then startsWith key OPENAI_KEY_PREFIX || startsWith key OPENAI_JWT_PREFIX
  else true

/-! ### Errors -/

inductive KeyError where
  | notText (index : Nat) (typeName : String)
  | notSendable (index length : Nat)
  | vidbyteDiffers (index : Nat) (other : Option Nat)
  | duplicate (first second : Nat) (provider : ModelProvider)
  | unaccepted (index length : Nat) (providers : List ModelProvider)
  | ambiguous (index length : Nat) (providers : List ModelProvider)
  | primaryMissing (missing : ModelProvider) (providers : List ModelProvider)
  | recordMisfit (index : Nat) (provider : ModelProvider)
  | recordVidbyteDiffers
  | providerTwice
  | keysUneven
  | keyNotStripped (index : Nat)
  | vidbyteFormat
  deriving DecidableEq

/-! ### The record -/

/-- A key a record may hold: not blank, and without surrounding spaces. -/
def IsStripped (key : String) : Prop := isBlank key = false ∧ strip key = key

instance (key : String) : Decidable (IsStripped key) := inferInstanceAs (Decidable (_ ∧ _))

/-- `ProviderKeys`: one key for each provider, and the Vidbyte key. -/
structure ProviderKeys where
  providers : List ModelProvider
  keys : List String
  vidbyteApiKey : Option String
  matchedPrimary : List ModelProvider
  matchedOthers : List ModelProvider
  nodup : providers.Nodup
  length_eq : keys.length = providers.length
  stripped : ∀ key ∈ keys, IsStripped key
  vidbyteFormat : ∀ key ∈ vidbyteApiKey, isVidbyteKey key = true
  deriving DecidableEq

/-- `ProviderKeys.__post_init__` -/
def ProviderKeys.create (providers : List ModelProvider) (keys : List String)
    (vidbyteApiKey : Option String) (matchedPrimary matchedOthers : List ModelProvider) :
    Except KeyError ProviderKeys :=
  if hnodup : providers.Nodup then
    if hlength : keys.length = providers.length then
      if hstripped : ∀ key ∈ keys, IsStripped key then
        if hvidbyte : ∀ key ∈ vidbyteApiKey, isVidbyteKey key = true then
          .ok
            { providers := providers, keys := keys, vidbyteApiKey := vidbyteApiKey
              matchedPrimary := matchedPrimary, matchedOthers := matchedOthers
              nodup := hnodup, length_eq := hlength, stripped := hstripped, vidbyteFormat := hvidbyte }
        else .error .vidbyteFormat
      else .error (.keyNotStripped (keys.findIdx fun key => ¬IsStripped key))
    else .error .keysUneven
  else .error .providerTwice

def ProviderKeys.rows (record : ProviderKeys) : List (ModelProvider × String) :=
  record.providers.zip record.keys

def ProviderKeys.keyFor (record : ProviderKeys) (provider : ModelProvider) : Option String :=
  record.rows.lookup provider

/-! ### The list -/

/-- An entry of the developer's list: `None`, a text, or something else. -/
inductive ListEntry where
  | none
  | text (text : String)
  | other (typeName : String)
  deriving DecidableEq

structure IndexedKey where
  index : Nat
  key : String
  deriving DecidableEq

/-- `_entries`, from the entry at this index on. -/
def entries : (index : Nat) → List ListEntry → Except KeyError (List IndexedKey)
  | _, [] => .ok []
  | index, .none :: rest => entries (index + 1) rest
  | index, .other typeName :: _ => .error (.notText index typeName)
  | index, .text text :: rest =>
    if isBlank text then entries (index + 1) rest
    else if isPrintable (strip text) then do
      let others ← entries (index + 1) rest
      pure (⟨index, strip text⟩ :: others)
    else .error (.notSendable index (strip text).length)

/-- `_vidbyte_key`: the one Vidbyte key, with the index it was found at. -/
def vidbyteKey (found : Option String) (foundIndex : Option Nat) :
    List IndexedKey → Except KeyError (Option String)
  | [] => .ok found
  | entry :: rest =>
    if startsWith entry.key VIDBYTE_API_KEY_PREFIX then
      match found with
      | none => vidbyteKey (some entry.key) (some entry.index) rest
      | some key =>
        if entry.key = key then vidbyteKey found foundIndex rest
        else .error (.vidbyteDiffers entry.index foundIndex)
    else vidbyteKey found foundIndex rest

structure Held where
  provider : ModelProvider
  bound : IndexedKey
  deriving DecidableEq

/-- `provider in held` -/
def holds (held : List Held) (provider : ModelProvider) : Bool :=
  held.any fun row => row.provider = provider

/-- `held[provider]` -/
def heldAt (held : List Held) (provider : ModelProvider) : Option IndexedKey :=
  (held.find? fun row => row.provider = provider).map (·.bound)

/-- `_bind_proven` -/
def bindProven (held : List Held) : List IndexedKey → Except KeyError (List Held)
  | [] => .ok held
  | entry :: rest =>
    match providerOf entry.key with
    | none => bindProven held rest
    | some provider =>
      match heldAt held provider with
      | none => bindProven (held ++ [⟨provider, entry⟩]) rest
      | some first =>
        if first.key = entry.key then bindProven held rest
        else .error (.duplicate first.index entry.index provider)

def unprovenKeys (unproven : List IndexedKey) : List IndexedKey → List IndexedKey
  | [] => unproven
  | entry :: rest =>
    if (providerOf entry.key).isNone ∧ ¬startsWith entry.key VIDBYTE_API_KEY_PREFIX
        ∧ entry.key ∉ unproven.map (·.key) then
      unprovenKeys (unproven ++ [entry]) rest
    else unprovenKeys unproven rest

/-- The name of a provider: a member, a text, or `None`. -/
inductive ProviderName where
  | member (provider : ModelProvider)
  | text (text : String)
  | none

/-- `_provider_names`: the known names, without repeats. -/
def providerNames (casefold : String → String) (names : List ProviderName) : List ModelProvider :=
  (names.filterMap fun
    | .member provider => some provider
    | .text text => ModelProvider.all.find? fun provider => provider.value = casefold (strip text)
    | .none => none).eraseDups

/-- `_refuse_unaccepted` -/
def refuseUnaccepted (unproven : List IndexedKey) (accepting : String → List ModelProvider)
    (configured : List ModelProvider) : Except KeyError Unit :=
  match unproven.find? fun entry => (accepting entry.key).isEmpty with
  | none => .ok ()
  | some entry => .error (.unaccepted entry.index entry.key.length configured)

def lonePrimaries (primaries : List ModelProvider) (held : List Held)
    (accepting : String → List ModelProvider) (key : String) : List ModelProvider :=
  primaries.filter fun provider => !holds held provider && decide (provider ∈ accepting key)

def candidates (accepting : String → List ModelProvider) (bound : List Held) (key : String) :
    List ModelProvider :=
  (accepting key).filter fun provider => !holds bound provider

/-- `sorted((a, b))` -/
def sortedPair (a b : Nat) : Nat × Nat := (min a b, max a b)

def stuckError (accepting : String → List ModelProvider) (bound : List Held) (entry : IndexedKey) :
    KeyError :=
  match accepting entry.key with
  | [] => .unaccepted entry.index entry.key.length []
  | owner :: _ =>
    let indices := sortedPair (((heldAt bound owner).map (·.index)).getD 0) entry.index
    .duplicate indices.1 indices.2 owner

/-- `_bind_unproven`: binds each key that has one provider left, the lowest index first. -/
def bindUnproven (accepting : String → List ModelProvider) (waiting : List IndexedKey)
    (bound : List Held) : Except KeyError (List Held) :=
  match waiting with
  | [] => .ok bound
  | first :: rest =>
    match (first :: rest).find? fun entry => (candidates accepting bound entry.key).isEmpty with
    | some entry => .error (stuckError accepting bound entry)
    | none =>
      match hforced : (first :: rest).find? fun entry =>
          (candidates accepting bound entry.key).length = 1 with
      | none =>
        .error (.ambiguous first.index first.key.length (candidates accepting bound first.key))
      | some forced =>
        have : ((first :: rest).erase forced).length < (first :: rest).length := by
          rw [List.length_erase_of_mem (List.mem_of_find?_eq_some hforced)]
          exact Nat.sub_lt (Nat.succ_pos _) Nat.one_pos
        bindUnproven accepting ((first :: rest).erase forced)
          (bound ++ (candidates accepting bound forced.key).map fun provider => ⟨provider, forced⟩)
termination_by waiting.length
decreasing_by
  simp only [List.length_cons] at this ⊢
  exact this

/-- `sorted(held.items(), key=...)`: in the order of first appearance. -/
def inOrder (held : List Held) : List Held :=
  held.mergeSort fun a b => a.bound.index ≤ b.bound.index

/-- `_require_primary_keys` -/
def requirePrimaryKeys (primaries : List ModelProvider) (held : List Held) : Except KeyError Unit :=
  match primaries.find? fun provider => !holds held provider with
  | none => .ok ()
  | some missing => .error (.primaryMissing missing ((inOrder held).map (·.provider)))

/-! ### The match -/

structure MatchRequest where
  primary : List ProviderName
  others : List ProviderName
  vidbyteApiKey : Option String
  requirePrimaryKey : Bool

def MatchRequest.explicit (request : MatchRequest) : Option String :=
  request.vidbyteApiKey.bind fun key => if isBlank key then none else some (strip key)

variable (casefold : String → String) (request : MatchRequest)

def MatchRequest.primaries : List ModelProvider := providerNames casefold request.primary

def MatchRequest.otherNames : List ModelProvider :=
  (providerNames casefold request.others).filter (· ∉ request.primaries casefold)

def MatchRequest.configured : List ModelProvider :=
  request.primaries casefold ++ request.otherNames casefold

def MatchRequest.accepting (key : String) : List ModelProvider :=
  (request.configured casefold).filter fun provider => acceptsUnproven provider key

/-- The lone key that one keyless primary can take, or every key that waits for `bindUnproven`. -/
def bindLone (unproven : List IndexedKey) (held : List Held) : List Held × List IndexedKey :=
  match unproven with
  | [entry] =>
    match lonePrimaries (request.primaries casefold) held (request.accepting casefold) entry.key with
    | [owner] => (held ++ [⟨owner, entry⟩], [])
    | _ => (held, unproven)
  | _ => (held, unproven)

def bindKeys (keys : List IndexedKey) : Except KeyError (List Held) := do
  let proven ← bindProven [] keys
  let unproven := unprovenKeys [] keys
  refuseUnaccepted unproven (request.accepting casefold) (request.configured casefold)
  let (held, waiting) := bindLone casefold request unproven proven
  let held ← bindUnproven (request.accepting casefold) waiting held
  if request.requirePrimaryKey && !held.isEmpty then
    requirePrimaryKeys (request.primaries casefold) held
  pure held

/-- `ProviderKeyMatcher.match` on a list of keys. -/
def matchList (api_keys : List ListEntry) : Except KeyError ProviderKeys := do
  let keys ← entries 0 api_keys
  let vidbyte ← vidbyteKey request.explicit none keys
  let held ← bindKeys casefold request keys
  let ordered := inOrder held
  ProviderKeys.create (ordered.map (·.provider)) (ordered.map (·.bound.key)) vidbyte
    (request.primaries casefold) (request.otherNames casefold)

def fits (provider : ModelProvider) (key : String) : Bool :=
  isPrintable key && !startsWith key VIDBYTE_API_KEY_PREFIX &&
    match providerOf key with
    | some proven => proven = provider
    | none => acceptsUnproven provider key

/-- `_check_record` -/
def checkRecord (record : ProviderKeys) : Except KeyError Unit :=
  match record.rows.findIdx? fun row => !fits row.1 row.2 with
  | none => .ok ()
  | some index => .error (.recordMisfit index (record.providers.getD index .openai))

/-- `ProviderKeyMatcher.match` on a record matched earlier. -/
def matchRecord (record : ProviderKeys) : Except KeyError ProviderKeys := do
  checkRecord record
  match request.explicit, record.vidbyteApiKey with
  | none, _ => pure record
  | some explicit, some key => if explicit = key then pure record else .error .recordVidbyteDiffers
  | some explicit, none =>
    ProviderKeys.create record.providers record.keys (some explicit) record.matchedPrimary
      record.matchedOthers

end VidbyteSdk.Registries
