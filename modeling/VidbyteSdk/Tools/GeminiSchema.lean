import VidbyteSdk.Lib.Dicts

/-!
# Gemini's schema subset

`ToolsFormatter._gemini_schema`: a JSON Schema reduced to the keywords that Gemini's function
declarations accept, with every reference expanded in place.
-/

namespace VidbyteSdk.Tools.Gemini

open Lib Lib.Json

/-! ### The keywords -/

/-- `_GEMINI_SCHEMA_KEYWORDS` -/
def schemaKeywords : List Text :=
  ["type", "format", "title", "description", "nullable", "enum", "default", "example", "properties",
    "required", "items", "anyOf", "propertyOrdering", "minimum", "maximum", "minLength", "maxLength",
    "minItems", "maxItems", "pattern"].map lit

/-- `_GEMINI_SCHEMA_MAPS` -/
def schemaMaps : List Text := [lit "properties"]

/-- `_GEMINI_SCHEMA_NODES` -/
def schemaNodes : List Text := [lit "items", lit "anyOf"]

/-- `_GEMINI_TYPE_KEYWORDS` -/
def typeKeywords : List (Text × List Text) :=
  [(lit "object", ["properties", "required", "propertyOrdering"].map lit),
    (lit "array", ["items", "minItems", "maxItems"].map lit),
    (lit "string", ["minLength", "maxLength", "pattern"].map lit),
    (lit "number", ["minimum", "maximum"].map lit),
    (lit "integer", ["minimum", "maximum"].map lit)]

/-- `_GEMINI_BRANCH_ONLY_KEYWORDS` -/
def branchOnlyKeywords : List Text := typeKeywords.flatMap Prod.snd

abbrev Members := List (Text × Json)

/-- `members[key] = value` -/
def put (key : Text) (value : Json) (members : Members) : Members :=
  upsert Prod.fst (key, value) members

/-- `members.update(others)` -/
def update (members others : Members) : Members :=
  others.foldl (fun members entry => put entry.1 entry.2 members) members

def isString (text : Text) (value : Option Json) : Bool := decide ((value.bind text?) = some text)

/-! ### One node, once its parts are reduced -/

/-- The type names of a list, each once, without `"null"`. -/
def typeNames (types : List Json) : List Text :=
  upsertAll id ((types.filterMap text?).filter fun name => name ≠ lit "null")

def typeBranch (kept : Members) (name : Text) : Json :=
  .obj ((lit "type", .str name) ::
    kept.filter fun entry => decide (entry.1 ∈ (typeKeywords.lookup name).getD []))

/-- The node without its type list, nullable where the list names `"null"`. -/
def collapse (kept : Members) (types : List Json) : Members :=
  let collapsed := kept.filter fun entry => entry.1 ≠ lit "type"
  if types.any fun t => isString (lit "null") (some t) then put (lit "nullable") (.bool true) collapsed
  else collapsed

/-- Several types as branches, unless the node has its own. -/
def branchOut (kept collapsed : Members) (names : List Text) : Members :=
  let outer := collapsed.filter fun entry => decide (entry.1 ∉ branchOnlyKeywords)
  if (outer.lookup (lit "anyOf")).isSome then outer
  else put (lit "anyOf") (.arr (names.map (typeBranch kept))) outer

/-- `_gemini_single_type` -/
def singleType (kept : Members) : Members :=
  match kept.lookup (lit "type") with
  | some (.arr types) =>
    match typeNames types with
    | [] => collapse kept types
    | [name] => put (lit "type") (.str name) (collapse kept types)
    | names => branchOut kept (collapse kept types) names
  | _ => kept

def withItems (members : Members) : Members :=
  if isString (lit "array") (members.lookup (lit "type")) && (members.lookup (lit "items")).isNone then
    put (lit "items") (.obj []) members
  else members

def patchBranch (branch : Json) : Json :=
  match branch with
  | .obj members => .obj (withItems members)
  | _ => branch

/-- `_gemini_array_items` -/
def arrayItems (kept : Members) : Members :=
  match (withItems kept).lookup (lit "anyOf") with
  | some (.arr branches) => put (lit "anyOf") (.arr (branches.map patchBranch)) (withItems kept)
  | _ => withItems kept

def isStringOrNull : Json → Bool
  | .str _ => true
  | .null => true
  | _ => false

def enumString (value : Json) : Json :=
  if isStringOrNull value then value else .str (dumps true value)

/-- `_gemini_enum_strings` -/
def enumStrings (kept : Members) : Members :=
  match kept.lookup (lit "enum") with
  | some (.arr values) =>
    if values.all isStringOrNull then kept
    else put (lit "enum") (.arr (values.map enumString)) kept
  | _ => kept

section

-- the `repr` of a string
variable (reprText : Text → Text)

/-- The clause of `_GEMINI_FOLDED_BOUNDS` for a bound. -/
def boundClause (entry : Text × Json) : Option Text :=
  if entry.1 = lit "exclusiveMinimum" then some (lit "greater than " ++ strOf reprText entry.2)
  else if entry.1 = lit "exclusiveMaximum" then some (lit "less than " ++ strOf reprText entry.2)
  else if entry.1 = lit "multipleOf" then some (lit "a multiple of " ++ strOf reprText entry.2)
  else none

/-- `_gemini_fold_bounds` -/
def foldBounds (node kept : Members) : Members :=
  match node.filterMap (boundClause reprText) with
  | [] => kept
  | clauses =>
    let description := strip (((kept.lookup (lit "description")).map (strOf reprText)).getD [])
    put (lit "description") (.str (strip (description ++ lit " Must be " ++
      (lit ", ").intercalate clauses ++ lit "."))) kept

/-- A node whose keywords are reduced, before its reference is looked at. -/
def normalized (node kept : Members) : Members :=
  foldBounds reprText node (enumStrings (arrayItems (singleType kept)))

end

/-! ### The walk -/

inductive GeminiError
  /-- A reference to a definition that is no mapping, which has no `items()`. -/
  | attributeError
  /-- `dict(value)` of what is no dictionary. -/
  | typeError
  | outOfFuel
  deriving DecidableEq

/-- `ref.rsplit("/", 1)[-1]` -/
def refTarget (ref : Text) : Text := (ref.reverse.takeWhile fun c => c ≠ 0x2F).reverse

/-- The node that a reference expands to; `none` where it is dropped. -/
abbrev Expander := Text → Except GeminiError (Option Members)

section

-- the `repr` of a string, and what becomes of the references of this path
variable (reprText : Text → Text) (expand : Expander)

/-- `_gemini_node` once its keywords are walked: the reduced node, over what its reference expands to. -/
def finishNode (node kept : Members) : Except GeminiError Members :=
  match node.lookup (lit "$ref") with
  | some (.str ref) => do
    match ← expand (refTarget ref) with
    | some expanded => pure (update expanded (normalized reprText node kept))
    | none => pure (normalized reprText node kept)
  | _ => pure (normalized reprText node kept)

mutual

/-- The loop of `_gemini_node` over the keywords of a node. -/
def geminiKeywords (kept : Members) : Members → Except GeminiError Members
  | [] => .ok kept
  | (key, value) :: node =>
    if key ∈ schemaKeywords then do
      let reduced ← geminiKeywordValue key value
      geminiKeywords (put key reduced kept) node
    else geminiKeywords kept node

/-- `_gemini_keyword_value` -/
def geminiKeywordValue (key : Text) : Json → Except GeminiError Json
  | .obj members =>
    if key ∈ schemaMaps then do
      let reduced ← geminiProperties members
      pure (.obj reduced)
    else if key ∈ schemaNodes then do
      let kept ← geminiKeywords [] members
      let reduced ← finishNode reprText expand members kept
      pure (.obj reduced)
    else pure (.obj members)
  | .arr items =>
    if key ∈ schemaNodes then do
      let reduced ← geminiItems items
      pure (.arr reduced)
    else pure (.arr items)
  | value => pure value

def geminiProperties : Members → Except GeminiError Members
  | [] => .ok []
  | (name, sub) :: members => do
    let reduced ← geminiSub sub
    let rest ← geminiProperties members
    pure ((name, reduced) :: rest)

def geminiItems : List Json → Except GeminiError (List Json)
  | [] => .ok []
  | sub :: items => do
    let reduced ← geminiSub sub
    let rest ← geminiItems items
    pure (reduced :: rest)

def geminiSub : Json → Except GeminiError Json
  | .obj members => do
    let kept ← geminiKeywords [] members
    let reduced ← finishNode reprText expand members kept
    pure (.obj reduced)
  | value => pure value

end

/-- `_gemini_node` -/
def geminiNode (node : Json) : Except GeminiError Members :=
  match node with
  | .obj members => do
    let kept ← geminiKeywords reprText expand [] members
    finishNode reprText expand members kept
  | _ => .error .attributeError

end

/-- The expansion of references: not of one that is open on the path, nor of one without a definition. -/
def expandRef (reprText : Text → Text) (defs : Members) : (fuel : ℕ) → (seen : List Text) → Expander
  | fuel, seen, target =>
    if target ∈ seen then .ok none
    else
      match defs.lookup target with
      | none => .ok none
      | some definition =>
        match fuel with
        | 0 => .error .outOfFuel
        | fuel + 1 =>
          (geminiNode reprText (expandRef reprText defs fuel (seen ++ [target])) definition).map some

/-- One pair of `dict(pairs)`; a key that is no string names no definition. -/
def dictPair : Json → Except GeminiError (Option (Text × Json))
  | .arr [.str key, value] => .ok (some (key, value))
  | .arr [.arr _, _] => .error .typeError
  | .arr [.obj _, _] => .error .typeError
  | .arr [_, _] => .ok none
  | .str [first, second] => .ok (some ([first], .str [second]))
  | .obj [(first, _), (second, _)] => .ok (some (first, .str second))
  | _ => .error .typeError

/-- `dict(schema.get(key) or {})` -/
def dictBlock (value : Option Json) : Except GeminiError Members :=
  match value with
  | none => .ok []
  | some (.obj members) => .ok members
  | some (.arr pairs) => do
    let entries ← pairs.mapM dictPair
    pure (dictOf (entries.filterMap fun entry => entry))
  | some value => if value.truthy then .error .typeError else .ok []

/-- The definitions of a schema: `$defs` over `definitions`. -/
def schemaDefs (schema : Members) : Except GeminiError Members := do
  let definitions ← dictBlock (schema.lookup (lit "definitions"))
  let defs ← dictBlock (schema.lookup (lit "$defs"))
  pure (update definitions defs)

def schemaRoot (schema : Members) : Json :=
  .obj (schema.filter fun entry => entry.1 ≠ lit "$defs" ∧ entry.1 ≠ lit "definitions")

/-- `_gemini_schema` -/
def geminiSchema (reprText : Text → Text) (schema : Members) : Except GeminiError Json := do
  let defs ← schemaDefs schema
  let root ← geminiNode reprText (expandRef reprText defs defs.length []) (schemaRoot schema)
  pure (.obj root)

end VidbyteSdk.Tools.Gemini
