import Mathlib.Algebra.GroupWithZero.Nat
import Mathlib.Data.List.Sort
import VidbyteSdk.Lib.Checks
import VidbyteSdk.Lib.Dicts
import VidbyteSdk.Lib.OptionSum
import VidbyteSdk.Lib.Picking
import VidbyteSdk.Lib.Utf8

/-!
# Embedding requests

`run_embedding` cuts the texts into slices under two caps and sends a request for each, in order. A response body is
taken by the fields that the provider reads. `V` stands for the vectors, a list of numbers in the body.
-/

namespace VidbyteSdk.Providers

open VidbyteSdk.Lib
open Json (lit)

def _OPENAI_EMBEDDING_MAX_INPUTS : ℕ := 2048

def _OPENAI_EMBEDDING_MAX_BYTES : ℕ := 300000

/-- The fields of `EmbeddingModelConfig` that a body is made of. -/
structure EmbeddingModelConfig where
  model : Text
  dimensions : Option ℕ := none
  extraBody : List (Text × Json) := []

/-- An item of `data`: its label, and its vector if that is a list. An item that is no object has neither. -/
structure EmbeddingItem (V : Type) where
  index : Option ℤ
  embedding : Option V

/-- A parsed body: `data` if it is a list and `usage` if it is an object. -/
structure EmbeddingBody (V : Type) where
  data : Option (List (EmbeddingItem V))
  usage : Option (List (Text × Json))
  usage_nodup : ∀ rows ∈ usage, (rows.map Prod.fst).Nodup

inductive RawBody (V : Type)
  | one (body : EmbeddingBody V)
  | batches (bodies : List (EmbeddingBody V))

structure EmbeddingResponse (V : Type) where
  embeddings : List V
  raw : RawBody V
  usage : Option (List (Text × Json))

/-! ### The slices -/

def byteCount (text : Text) : ℕ := (Utf8.encode text).length

/-- The loop of `_embedding_batches`, with the open slice and what it leaves of the byte cap. -/
def batchesFrom (batch : List Text) (bytesLeft : ℤ) : List Text → List (List Text)
  | [] => [batch]
  | text :: rest =>
    let size := byteCount text
    if batch ≠ [] ∧ (batch.length = _OPENAI_EMBEDDING_MAX_INPUTS ∨ (size : ℤ) > bytesLeft) then
      batch :: batchesFrom [text] (_OPENAI_EMBEDDING_MAX_BYTES - size) rest
    else batchesFrom (batch ++ [text]) (bytesLeft - size) rest

/-- `OpenAIProvider._embedding_batches`. A lone surrogate in any text raises. -/
def embeddingBatches (texts : List Text) : Except Text (List (List Text)) :=
  if texts.all Text.isUtf8 then .ok (batchesFrom [] _OPENAI_EMBEDDING_MAX_BYTES texts)
  else .error (lit "surrogates not allowed")

/-! ### A request and its answer -/

/-- `OpenAIProvider._create_embedding_payload` -/
def createEmbeddingPayload (config : EmbeddingModelConfig) (texts : List Text) : Json :=
  let payload := Json.obj [(lit "model", .str config.model), (lit "input", .arr (texts.map .str))]
  let payload := config.dimensions.elim payload fun dimensions => payload.set (lit "dimensions") (.int dimensions)
  config.extraBody.foldl (fun payload row => payload.set row.1 row.2) payload

section

variable {V : Type}

/-- The key of the sort: `item.get("index", 0)`. -/
def EmbeddingItem.label (item : EmbeddingItem V) : ℤ := item.index.getD 0

def sortedItems (items : List (EmbeddingItem V)) : List (EmbeddingItem V) :=
  items.insertionSort fun a b => a.label ≤ b.label

/-- `OpenAIProvider._extract_embeddings` -/
def extractEmbeddings (parsed : EmbeddingBody V) (expectedCount : ℕ) : Except Text (List V) :=
  match parsed.data with
  | none => .error (lit "OpenAI embeddings response missing data list.")
  | some items =>
    if items.length ≠ expectedCount then
      .error (lit "OpenAI returned " ++ Json.digitsOf items.length ++ lit " embeddings but " ++
        Json.digitsOf expectedCount ++ lit " were requested.")
    else (sortedItems items).mapM fun item =>
      match item.embedding with
      | some vector => .ok vector
      | none => .error (lit "OpenAI embedding item missing embedding list.")

/-- The number of a whole-number field; booleans are none. -/
def whole? : Json → Option ℤ
  | .int n => some n
  | _ => none

def addField (totals : List (Text × ℤ)) (row : Text × Json) : List (Text × ℤ) :=
  match whole? row.2 with
  | some n => upsert Prod.fst (row.1, (totals.lookup row.1).getD 0 + n) totals
  | none => totals

/-- `OpenAIProvider._embedding_usage` -/
def embeddingUsage (bodies : List (EmbeddingBody V)) : Option (List (Text × Json)) :=
  match bodies.filterMap (·.usage) with
  | [] => none
  | usage :: usages =>
    if bodies.length = 1 then some usage
    else some (((usage :: usages).foldl (fun totals usage => usage.foldl addField totals) []).map fun row =>
      (row.1, .int row.2))

/-- The loop of `run_embedding` from the request of a number on: what it sends, and the vectors and bodies it collects.
`server` answers the request of a number, or raises. -/
def send (server : ℕ → Json → Except Text (EmbeddingBody V)) (config : EmbeddingModelConfig) :
    ℕ → List (List Text) → List Json × Except Text (List V × List (EmbeddingBody V))
  | _, [] => ([], .ok ([], []))
  | number, batch :: rest =>
    let payload := createEmbeddingPayload config batch
    match server number payload with
    | .error err => ([payload], .error err)
    | .ok parsed =>
      match extractEmbeddings parsed batch.length with
      | .error err => ([payload], .error err)
      | .ok vectors =>
        let (sent, result) := send server config (number + 1) rest
        (payload :: sent, result.map fun (embeddings, bodies) => (vectors ++ embeddings, parsed :: bodies))

/-- `OpenAIProvider.run_embedding`: the requests that it sends, and how it ends. -/
def runEmbedding (server : ℕ → Json → Except Text (EmbeddingBody V)) (config : EmbeddingModelConfig)
    (texts : List Text) : List Json × Except Text (EmbeddingResponse V) :=
  match embeddingBatches texts with
  | .error err => ([], .error err)
  | .ok batches =>
    let (sent, result) := send server config 0 batches
    (sent, result.map fun (embeddings, bodies) =>
      ⟨embeddings, (match bodies with | [body] => .one body | bodies => .batches bodies), embeddingUsage bodies⟩)

end

/-! ### What the slices are -/

/-- Under both caps, or a single text. -/
def Fits (batch : List Text) : Prop :=
  batch.length ≤ _OPENAI_EMBEDDING_MAX_INPUTS ∧
    ((batch.map byteCount).sum ≤ _OPENAI_EMBEDDING_MAX_BYTES ∨ batch.length = 1)

theorem fits_singleton (text : Text) : Fits [text] := ⟨Nat.le_add_left 1 2047, .inr rfl⟩

theorem flatten_batchesFrom (batch : List Text) (bytesLeft : ℤ) (texts : List Text) :
    (batchesFrom batch bytesLeft texts).flatten = batch ++ texts := by
  induction texts generalizing batch bytesLeft with
  | nil => simp [batchesFrom]
  | cons text rest ih =>
    unfold batchesFrom
    dsimp only
    split
    · rw [List.flatten_cons, ih, List.singleton_append]
    · rw [ih, List.append_assoc, List.singleton_append]

theorem fits_of_mem_batchesFrom {batch : List Text} {bytesLeft : ℤ} (texts : List Text) (hfits : Fits batch)
    (hleft : bytesLeft = _OPENAI_EMBEDDING_MAX_BYTES - ((batch.map byteCount).sum : ℕ)) :
    ∀ slice ∈ batchesFrom batch bytesLeft texts, Fits slice := by
  induction texts generalizing batch bytesLeft with
  | nil => exact fun slice hslice => List.mem_singleton.mp hslice ▸ hfits
  | cons text rest ih =>
    unfold batchesFrom
    dsimp only
    split
    · refine List.forall_mem_cons.mpr ⟨hfits, ih (fits_singleton text) ?_⟩
      rw [List.map_singleton, List.sum_singleton]
    · next hopen =>
      have hrest : bytesLeft - byteCount text =
          _OPENAI_EMBEDDING_MAX_BYTES - (((batch ++ [text]).map byteCount).sum : ℕ) := by
        simp only [hleft, List.map_append, List.sum_append, List.map_singleton, List.sum_singleton]
        omega
      refine ih ?_ hrest
      by_cases hbatch : batch = []
      · subst hbatch
        exact fits_singleton text
      · obtain ⟨hcount, hsize⟩ := not_or.mp fun h => hopen ⟨hbatch, h⟩
        refine ⟨?_, .inl ?_⟩
        · rw [List.length_append, List.length_singleton]
          exact Nat.lt_of_le_of_ne hfits.1 hcount
        · rw [List.map_append, List.sum_append, List.map_singleton, List.sum_singleton]
          omega

theorem ne_nil_of_mem_batchesFrom {batch : List Text} {bytesLeft : ℤ} {texts : List Text}
    (h : batch ≠ [] ∨ texts ≠ []) : ∀ slice ∈ batchesFrom batch bytesLeft texts, slice ≠ [] := by
  induction texts generalizing batch bytesLeft with
  | nil => exact fun slice hslice => List.mem_singleton.mp hslice ▸ h.resolve_right fun hne => hne rfl
  | cons text rest ih =>
    unfold batchesFrom
    dsimp only
    split
    · next hcut => exact List.forall_mem_cons.mpr ⟨hcut.1, ih (.inl (List.cons_ne_nil _ _))⟩
    · exact ih (.inl (List.append_ne_nil_of_right_ne_nil _ (List.cons_ne_nil _ _)))

variable {config : EmbeddingModelConfig}

theorem get?_createEmbeddingPayload (h : ∀ row ∈ config.extraBody, row.1 ≠ lit "input")
    (texts : List Text) : (createEmbeddingPayload config texts).get? (lit "input") = some (.arr (texts.map .str)) := by
  have hextra : ∀ rows : List (Text × Json), (∀ row ∈ rows, row.1 ≠ lit "input") → ∀ payload : Json,
      (rows.foldl (fun payload row => payload.set row.1 row.2) payload).get? (lit "input") =
        payload.get? (lit "input") := by
    intro rows hrows
    induction rows with
    | nil => exact fun _ => rfl
    | cons row rows ih =>
      obtain ⟨hrow, hrows⟩ := List.forall_mem_cons.mp hrows
      exact fun payload => (ih hrows _).trans (Json.get?_set_of_ne payload (Ne.symm hrow) row.2)
  unfold createEmbeddingPayload
  rw [hextra _ h]
  cases config.dimensions with
  | none => rfl
  | some dimensions =>
    have hne : lit "input" ≠ lit "dimensions" := by decide
    rw [Option.elim_some, Json.get?_set_of_ne _ hne]
    rfl

/-! ### The vectors of one answer -/

section

variable {V : Type}

def labelled (vectors : List V) : List (EmbeddingItem V) :=
  vectors.zipIdx.map fun (vector, i) => ⟨some i, some vector⟩

theorem pairwise_labelled (vectors : List V) : (labelled vectors).Pairwise fun a b => a.label < b.label :=
  List.pairwise_map.mpr ((pairwise_zipIdx vectors 0).imp fun h => Int.ofNat_lt.mpr h)

variable {vectors : List V}

theorem sortedItems_of_perm {items : List (EmbeddingItem V)} (h : items.Perm (labelled vectors)) :
    sortedItems items = labelled vectors := by
  have hperm : (sortedItems items).Perm (labelled vectors) := (List.perm_insertionSort _ items).trans h
  have hnodup : ((labelled vectors).map EmbeddingItem.label).Nodup :=
    List.pairwise_map.mpr ((pairwise_labelled vectors).imp ne_of_lt)
  refine hperm.eq_of_pairwise (fun a b ha hb hab hba => ?_) (List.pairwise_insertionSort _ items)
    ((pairwise_labelled vectors).imp le_of_lt)
  exact List.inj_on_of_nodup_map hnodup (hperm.subset ha) hb (le_antisymm hab hba)

theorem extractEmbeddings_of_perm {parsed : EmbeddingBody V} {items : List (EmbeddingItem V)}
    (hdata : parsed.data = some items) (hperm : items.Perm (labelled vectors)) :
    extractEmbeddings parsed vectors.length = .ok vectors := by
  have hlength : items.length = vectors.length := by
    rw [hperm.length_eq, labelled, List.length_map, List.length_zipIdx]
  unfold extractEmbeddings
  rw [hdata]
  simp only [hlength, ne_eq, not_true_eq_false, if_false, sortedItems_of_perm hperm]
  rw [labelled, List.mapM_map]
  refine (List.mapM_pure (f := Prod.fst)).trans ?_
  rw [List.zipIdx_map_fst]
  rfl

/-- One item with a vector for each text. -/
def Complete (parsed : EmbeddingBody V) (count : ℕ) : Prop :=
  ∃ items, parsed.data = some items ∧ items.length = count ∧ ∀ item ∈ items, item.embedding ≠ none

theorem complete_of_extractEmbeddings {parsed : EmbeddingBody V} {count : ℕ}
    (h : extractEmbeddings parsed count = .ok vectors) : Complete parsed count := by
  unfold extractEmbeddings at h
  split at h
  · cases h
  · next items hdata =>
    split at h
    · cases h
    · next hlength =>
      refine ⟨items, hdata, of_not_not hlength, fun item hitem hnone => ?_⟩
      have hmem : item ∈ sortedItems items := (List.perm_insertionSort _ items).mem_iff.mpr hitem
      obtain ⟨vector, hvector⟩ := ok_of_mem_of_mapM h hmem
      rw [hnone] at hvector
      cases hvector

/-! ### The usage of all answers -/

def EmbeddingBody.whole (body : EmbeddingBody V) (key : Text) : Option ℤ :=
  (body.usage.bind (·.lookup key)).bind whole?

/-- The count of a field when one more body is added up. -/
def plus (total value : Option ℤ) : Option ℤ := value.elim total fun n => some (total.getD 0 + n)

theorem lookup_addField (totals : List (Text × ℤ)) (row : Text × Json) (key : Text) :
    (addField totals row).lookup key = if key = row.1 then plus (totals.lookup key) (whole? row.2) else
      totals.lookup key := by
  unfold addField
  cases hwhole : whole? row.2 with
  | none => simp [plus]
  | some n =>
    rw [Json.lookup_upsert]
    split
    · next hkey => rw [hkey]; rfl
    · rfl

theorem lookup_foldl_addField (rows : List (Text × Json)) (hnodup : (rows.map Prod.fst).Nodup)
    (totals : List (Text × ℤ)) (key : Text) :
    (rows.foldl addField totals).lookup key = plus (totals.lookup key) ((rows.lookup key).bind whole?) := by
  induction rows generalizing totals with
  | nil => rfl
  | cons row rows ih =>
    obtain ⟨hnew, hnodup⟩ := List.nodup_cons.mp hnodup
    rw [List.foldl_cons, ih hnodup, lookup_addField, List.lookup_cons]
    by_cases hkey : key = row.1
    · subst hkey
      have hlast : rows.lookup row.1 = none := lookup_eq_none.mpr hnew
      rw [hlast, if_pos rfl, beq_self_eq_true]
      rfl
    · rw [if_neg hkey, beq_false_of_ne hkey]

theorem getD_foldl_plus (values : List (Option ℤ)) (total : Option ℤ) :
    (values.foldl plus total).getD 0 = total.getD 0 + knownSum values := by
  induction values generalizing total with
  | nil => exact (add_zero _).symm
  | cons value values ih =>
    rw [List.foldl_cons, ih]
    cases value with
    | none => rfl
    | some n => rw [knownSum_some, ← add_assoc]; rfl

theorem isSome_foldl_plus (values : List (Option ℤ)) (total : Option ℤ) :
    (values.foldl plus total).isSome = (total.isSome || values.any Option.isSome) := by
  induction values generalizing total with
  | nil => exact (Bool.or_false _).symm
  | cons value values ih =>
    rw [List.foldl_cons, ih, List.any_cons, ← Bool.or_assoc]
    cases value with
    | none => rw [Option.isSome_none, Bool.or_false]; rfl
    | some n => rw [Option.isSome_some, Bool.or_true]; rfl

theorem lookup_map_int (totals : List (Text × ℤ)) (key : Text) :
    (totals.map fun row => (row.1, Json.int row.2)).lookup key = (totals.lookup key).map .int := by
  induction totals with
  | nil => rfl
  | cons row totals ih =>
    rw [List.map_cons, List.lookup_cons, List.lookup_cons, ih]
    cases key == row.1 <;> rfl

theorem lookup_foldl_usages (bodies : List (EmbeddingBody V)) (totals : List (Text × ℤ)) (key : Text) :
    ((bodies.filterMap (·.usage)).foldl (fun totals usage => usage.foldl addField totals) totals).lookup key =
      (bodies.map (·.whole key)).foldl plus (totals.lookup key) := by
  induction bodies generalizing totals with
  | nil => rfl
  | cons body bodies ih =>
    rw [List.filterMap_cons, List.map_cons, List.foldl_cons, EmbeddingBody.whole]
    cases husage : body.usage with
    | none => exact ih totals
    | some rows =>
      rw [Option.bind_some, ← lookup_foldl_addField rows (body.usage_nodup rows husage)]
      exact ih _

theorem lookup_embeddingUsage {bodies : List (EmbeddingBody V)} {key : Text}
    (h : ∃ body ∈ bodies, body.whole key ≠ none) : ∃ usage, embeddingUsage bodies = some usage ∧
      usage.lookup key = some (.int (knownSum (bodies.map (·.whole key)))) := by
  obtain ⟨body, hbody, hwhole⟩ := h
  obtain ⟨n, hn⟩ := Option.ne_none_iff_exists'.mp hwhole
  obtain ⟨value, hvalue, hint⟩ := Option.bind_eq_some_iff.mp hn
  obtain ⟨rows, hrows, hlookup⟩ := Option.bind_eq_some_iff.mp hvalue
  have hmem : rows ∈ bodies.filterMap (·.usage) := List.mem_filterMap.mpr ⟨body, hbody, hrows⟩
  have hsum := lookup_foldl_usages bodies [] key
  have hsome := isSome_foldl_plus (bodies.map (·.whole key)) none
  have htotal := getD_foldl_plus (bodies.map (·.whole key)) none
  unfold embeddingUsage
  cases husages : bodies.filterMap (·.usage) with
  | nil =>
    rw [husages] at hmem
    cases hmem
  | cons usage usages =>
    by_cases hone : bodies.length = 1
    · obtain ⟨only, rfl⟩ := List.length_eq_one_iff.mp hone
      obtain rfl := List.mem_singleton.mp hbody
      rw [List.filterMap_cons_some hrows, List.cons.injEq] at husages
      refine ⟨usage, if_pos hone, ?_⟩
      rw [← husages.1, hlookup, List.map_singleton, hn, knownSum_some, knownSum_nil, add_zero]
      cases value with
      | int m => exact congrArg some (congrArg Json.int (Option.some.inj hint))
      | _ => cases hint
    · refine ⟨_, if_neg hone, ?_⟩
      have hany : (bodies.map (·.whole key)).any Option.isSome = true :=
        List.any_eq_true.mpr ⟨_, List.mem_map_of_mem hbody, Option.isSome_iff_ne_none.mpr hwhole⟩
      rw [hany, Bool.or_true] at hsome
      obtain ⟨total, htotal'⟩ := Option.isSome_iff_exists.mp hsome
      rw [htotal', Option.getD_some, Option.getD_none, zero_add] at htotal
      rw [lookup_map_int, ← husages, hsum, List.lookup_nil, htotal', ← htotal]
      rfl

/-! ### The run -/

variable {server : ℕ → Json → Except Text (EmbeddingBody V)}

theorem send_of_answers
    {answers : ℕ → EmbeddingBody V} {vectors : ℕ → List V} (batches : List (List Text)) (number : ℕ)
    (h : ∀ entry ∈ batches.zipIdx number,
      server entry.2 (createEmbeddingPayload config entry.1) = .ok (answers entry.2) ∧
        extractEmbeddings (answers entry.2) entry.1.length = .ok (vectors entry.2)) :
    send server config number batches = (batches.map (createEmbeddingPayload config),
      .ok ((batches.zipIdx number).flatMap fun entry => vectors entry.2,
        (batches.zipIdx number).map fun entry => answers entry.2)) := by
  induction batches generalizing number with
  | nil => rfl
  | cons batch rest ih =>
    obtain ⟨⟨hserver, hextract⟩, hrest⟩ := List.forall_mem_cons.mp h
    simp only [send, hserver, hextract, ih (number + 1) hrest, List.zipIdx_cons, List.flatMap_cons, List.map_cons]
    rfl

/-- The requests sent are those of the first slices, and each one but the last was answered in full. -/
theorem send_spec (batches : List (List Text)) (number : ℕ) :
    (send server config number batches).1 <+: batches.map (createEmbeddingPayload config) ∧
      ∀ collected, (send server config number batches).2 = .ok collected →
        ∀ entry ∈ batches.zipIdx number, ∀ parsed,
          server entry.2 (createEmbeddingPayload config entry.1) = .ok parsed → Complete parsed entry.1.length := by
  induction batches generalizing number with
  | nil => exact ⟨List.prefix_rfl, fun _ _ => nofun⟩
  | cons batch rest ih =>
    unfold send
    dsimp only
    have hfirst : [createEmbeddingPayload config batch] <+: (batch :: rest).map (createEmbeddingPayload config) :=
      List.prefix_append _ _
    cases hserver : server number (createEmbeddingPayload config batch) with
    | error err => exact ⟨hfirst, fun _ h => nomatch h⟩
    | ok parsed =>
      dsimp only
      cases hextract : extractEmbeddings parsed batch.length with
      | error err => exact ⟨hfirst, fun _ h => nomatch h⟩
      | ok vectors =>
        obtain ⟨hsent, hcomplete⟩ := ih (number + 1)
        refine ⟨List.cons_prefix_cons.mpr ⟨rfl, hsent⟩, fun collected h => ?_⟩
        cases hresult : (send server config (number + 1) rest).2 with
        | error err =>
          rw [hresult] at h
          cases h
        | ok embeddings =>
          refine List.forall_mem_cons.mpr ⟨fun parsed' hparsed => ?_, hcomplete _ hresult⟩
          rw [hserver] at hparsed
          cases hparsed
          exact complete_of_extractEmbeddings hextract

theorem zip_flatMap (batches : List (List Text)) (vectors : ℕ → List V) (number : ℕ)
    (h : ∀ entry ∈ batches.zipIdx number, (vectors entry.2).length = entry.1.length) :
    batches.flatten.zip ((batches.zipIdx number).flatMap fun entry => vectors entry.2) =
      (batches.zipIdx number).flatMap fun entry => entry.1.zip (vectors entry.2) := by
  induction batches generalizing number with
  | nil => rfl
  | cons batch rest ih =>
    obtain ⟨hfirst, hrest⟩ := List.forall_mem_cons.mp h
    rw [List.zipIdx_cons, List.flatMap_cons, List.flatMap_cons, List.flatten_cons, List.zip_append hfirst.symm,
      ih (number + 1) hrest]

theorem length_flatMap (batches : List (List Text)) (vectors : ℕ → List V) (number : ℕ)
    (h : ∀ entry ∈ batches.zipIdx number, (vectors entry.2).length = entry.1.length) :
    ((batches.zipIdx number).flatMap fun entry => vectors entry.2).length = batches.flatten.length := by
  induction batches generalizing number with
  | nil => rfl
  | cons batch rest ih =>
    obtain ⟨hfirst, hrest⟩ := List.forall_mem_cons.mp h
    rw [List.zipIdx_cons, List.flatMap_cons, List.flatten_cons, List.length_append, List.length_append, hfirst,
      ih (number + 1) hrest]

/-- The texts go out in slices under the caps; where each answer labels one vector for each text of its request, each
text gets its own vector and the usage adds up; and an answer without exactly one vector for each text raises. -/
theorem runEmbedding_batches (config : EmbeddingModelConfig) (hextra : ∀ row ∈ config.extraBody, row.1 ≠ lit "input")
    (texts : List Text) (hutf8 : ∀ text ∈ texts, Text.isUtf8 text = true)
    (server : ℕ → Json → Except Text (EmbeddingBody V)) :
    ∃ batches : List (List Text), batches.flatten = texts ∧
      (∀ batch ∈ batches, Fits batch ∧ (batch = [] → texts = []) ∧
        (createEmbeddingPayload config batch).get? (lit "input") = some (.arr (batch.map .str))) ∧
      (runEmbedding server config texts).1 <+: batches.map (createEmbeddingPayload config) ∧
      (∀ (answers : ℕ → EmbeddingBody V) (vectors : ℕ → List V), (∀ entry ∈ batches.zipIdx,
          server entry.2 (createEmbeddingPayload config entry.1) = .ok (answers entry.2) ∧
            (vectors entry.2).length = entry.1.length ∧
            ∃ items, (answers entry.2).data = some items ∧ items.Perm (labelled (vectors entry.2))) →
        (runEmbedding server config texts).1 = batches.map (createEmbeddingPayload config) ∧
        ∃ response, (runEmbedding server config texts).2 = .ok response ∧
          response.embeddings.length = texts.length ∧
          texts.zip response.embeddings = batches.zipIdx.flatMap (fun entry => entry.1.zip (vectors entry.2)) ∧
          ∀ key, (∃ entry ∈ batches.zipIdx, (answers entry.2).whole key ≠ none) →
            ∃ usage, response.usage = some usage ∧ usage.lookup key =
              some (.int (knownSum (batches.zipIdx.map fun entry => (answers entry.2).whole key)))) ∧
      ∀ entry ∈ batches.zipIdx, ∀ parsed, server entry.2 (createEmbeddingPayload config entry.1) = .ok parsed →
        ¬ Complete parsed entry.1.length → ∃ err, (runEmbedding server config texts).2 = .error err := by
  have hrun : embeddingBatches texts = .ok (batchesFrom [] _OPENAI_EMBEDDING_MAX_BYTES texts) :=
    if_pos (List.all_eq_true.mpr hutf8)
  have hflatten := flatten_batchesFrom [] _OPENAI_EMBEDDING_MAX_BYTES texts
  have hfits : Fits [] := ⟨Nat.zero_le _, .inl (Nat.zero_le _)⟩
  obtain ⟨hsent, hcomplete⟩ := @send_spec config V server
    (batchesFrom [] _OPENAI_EMBEDDING_MAX_BYTES texts) 0
  unfold runEmbedding
  rw [hrun]
  dsimp only
  refine ⟨_, hflatten, fun batch hbatch => ⟨?_, ?_, get?_createEmbeddingPayload hextra batch⟩, hsent, ?_, ?_⟩
  · exact fits_of_mem_batchesFrom texts hfits (sub_zero _).symm batch hbatch
  · intro hnil
    by_contra hne
    exact ne_nil_of_mem_batchesFrom (.inr hne) batch hbatch hnil
  · intro answers vectors h
    have hanswers := send_of_answers _ 0 fun entry hentry => by
      obtain ⟨hserver, hlength, items, hdata, hperm⟩ := h entry hentry
      exact ⟨hserver, hlength ▸ extractEmbeddings_of_perm hdata hperm⟩
    rw [hanswers]
    refine ⟨rfl, _, rfl, ?_, ?_, fun key hkey => ?_⟩
    · exact (length_flatMap _ vectors 0 fun entry hentry => (h entry hentry).2.1).trans (congrArg List.length hflatten)
    · refine (congrArg (List.zip · _) hflatten.symm).trans ?_
      exact zip_flatMap _ vectors 0 fun entry hentry => (h entry hentry).2.1
    · obtain ⟨entry, hentry, hwhole⟩ := hkey
      obtain ⟨usage, husage, hlookup⟩ := lookup_embeddingUsage
        ⟨answers entry.2, List.mem_map_of_mem (f := fun entry => answers entry.2) hentry, hwhole⟩
      refine ⟨usage, husage, hlookup.trans ?_⟩
      rw [List.map_map]
      rfl
  · intro entry hentry parsed hparsed hbad
    cases hresult : (send server config 0 (batchesFrom [] _OPENAI_EMBEDDING_MAX_BYTES texts)).2 with
    | error err => exact ⟨err, rfl⟩
    | ok collected => exact absurd (hcomplete collected hresult entry hentry parsed hparsed) hbad

def oneVector (_ : ℕ) (_ : Json) : Except Text (EmbeddingBody ℕ) := .ok ⟨some [⟨some 0, some 7⟩], none, nofun⟩

theorem runEmbedding_batches_one : ∃ batches : List (List Text), batches.flatten = [lit "a"] ∧
    (runEmbedding oneVector { model := lit "m" } [lit "a"]).1 <+:
      batches.map (createEmbeddingPayload { model := lit "m" }) := by
  have hutf8 : ∀ text ∈ [lit "a"], Text.isUtf8 text = true := List.forall_mem_singleton.mpr (by decide)
  obtain ⟨batches, hflatten, -, hsent, -⟩ := runEmbedding_batches { model := lit "m" } nofun [lit "a"] hutf8 oneVector
  exact ⟨batches, hflatten, hsent⟩

/-- The extra fields of a configuration can put another input in the place of the texts. -/
theorem runEmbedding_extraInput :
    (runEmbedding oneVector { model := lit "m", extraBody := [(lit "input", .str (lit "b"))] } [lit "a"]).1.map
      (·.get? (lit "input")) ≠ [some (.arr [.str (lit "a")])] := by
  intro h
  have hsent : [some (Json.str (lit "b"))] = [some (.arr [.str (lit "a")])] := h
  cases hsent

end

end VidbyteSdk.Providers
