import Mathlib.Data.List.Infix

/-!
# Credential keys

`CredentialKeyPolicy` of `lib/util/credential_keys.py`: whether a key names a credential, by its exact
normalized name or by a suffix. The case mapping of the source's Unicode tables is a parameter; only
what it does to ASCII letters is known.
-/

namespace VidbyteSdk.Util

/-- `str.upper` and `str.lower`. -/
structure Casing where
  upper : List Char → List Char
  lower : List Char → List Char
  upper_ascii : ∀ cs, (∀ c ∈ cs, c.toNat < 128) → upper cs = cs.map Char.toUpper
  lower_ascii : ∀ cs, (∀ c ∈ cs, c.toNat < 128) → lower cs = cs.map Char.toLower

/-- The case mapping of ASCII letters. -/
def asciiCasing : Casing where
  upper cs := cs.map Char.toUpper
  lower cs := cs.map Char.toLower
  upper_ascii _ _ := rfl
  lower_ascii _ _ := rfl

namespace CredentialKeyPolicy

def SECRET_KEYS : List String :=
  ["api_key", "api_keys", "apikey", "provider_key", "access_token", "refresh_token", "token",
    "secret", "client_secret", "private_key", "secret_key", "access_key", "access_key_id",
    "session_token", "bearer_token", "password", "credential", "credentials", "authorization", "auth"]

def SECRET_SUFFIXES : List String :=
  ["_api_key", "_api_keys", "_provider_key", "_private_key", "_secret_key", "_access_key",
    "_access_key_id", "_token", "_secret", "_password"]

/-- `re.sub(r"([A-Z]+)([A-Z][a-z])", r"\1_\2", key)`: an acronym is split from the word after it. -/
def splitAcronyms : List Char → List Char
  | a :: b :: c :: rest =>
    if a.isUpper && b.isUpper && c.isLower then a :: '_' :: splitAcronyms (b :: c :: rest)
    else a :: splitAcronyms (b :: c :: rest)
  | cs => cs

/-- `re.sub(r"([a-z0-9])([A-Z])", r"\1_\2", words)` -/
def splitWords : List Char → List Char
  | a :: b :: rest =>
    if (a.isLower || a.isDigit) && b.isUpper then a :: '_' :: splitWords (b :: rest)
    else a :: splitWords (b :: rest)
  | cs => cs

/-- `re.sub(r"[^a-z0-9]+", "_", words)`, after a character of a run or not. -/
def collapse (inRun : Bool) : List Char → List Char
  | [] => []
  | c :: cs =>
    if c.isLower || c.isDigit then c :: collapse false cs
    else if inRun then collapse true cs
    else '_' :: collapse true cs

/-- `text.strip("_")` -/
def stripUnderscores (cs : List Char) : List Char :=
  ((cs.dropWhile (· = '_')).reverse.dropWhile (· = '_')).reverse

def normalized (casing : Casing) (key : String) : List Char :=
  stripUnderscores (collapse false (casing.lower (splitWords (splitAcronyms key.toList))))

/-- `is_secret_key`. -/
def isSecretKey (casing : Casing) (key : String) : Bool :=
  let name := normalized casing key
  SECRET_KEYS.any (fun secret => secret.toList = name) ||
    SECRET_SUFFIXES.any fun suffix => suffix.toList.isSuffixOf name

/-! ### The key of a mark -/

theorem ascii_dropped : ∀ c ∈ "__dropped__".toList, c.toNat < 128 := by
  have hall : ("__dropped__".toList.all fun c => decide (c.toNat < 128)) = true := by decide
  exact fun c hc => of_decide_eq_true (List.all_eq_true.mp hall c hc)

theorem isSecretKey_dropped (casing : Casing) : isSecretKey casing "__dropped__" = false := by
  have hname : normalized casing "__dropped__" = "dropped".toList := by
    have hsplit : splitWords (splitAcronyms "__dropped__".toList) = "__dropped__".toList := by decide +kernel
    rw [normalized, hsplit, casing.lower_ascii _ ascii_dropped]
    decide +kernel
  simp only [isSecretKey, hname]
  decide +kernel

end CredentialKeyPolicy

end VidbyteSdk.Util
