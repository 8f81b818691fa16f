import VidbyteSdk.Sessions.Intact

/-!
# Bundle import

`SessionBundleImporter` of `sessions/portable.py`. A bundle is given by what its members parse to: a
member that is missing, corrupt or of another schema version is the exception its parser raises.
-/

namespace VidbyteSdk.Sessions

open VidbyteSdk.Lib

variable {J : Type}

/-- `manifest.json`. A number is `none` when absent or null, and `some none` where `int` raises. -/
structure Manifest where
  schemaVersion : Option (Option Int)
  sessionId : Option String
  checkpointCount : Option (Option Int)
  deriving DecidableEq

/-- A zip bundle, its checkpoint members in archive-name order. -/
structure Bundle (J : Type) where
  manifest : Except SessionException Manifest
  sessionMeta : Except SessionException SessionMeta
  checkpoints : List (Except SessionException (Checkpoint J))

def SESSION_SCHEMA_VERSION : Int := 1

/-- `_read_manifest_int`. -/
def readManifestInt (field : String) : Option (Option Int) → Except SessionException Int
  | none => .error (.serialization s!"Session bundle manifest missing {field}.")
  | some none =>
    .error (.serialization s!"Session bundle manifest field must be an integer: {field}.")
  | some (some value) => .ok value

/-- `_assert_manifest_matches_records`. -/
def assertManifestMatchesRecords (manifest : Manifest) (m : SessionMeta)
    (checkpoints : List (Checkpoint J)) : Except SessionException Unit :=
  if manifest.sessionId ≠ some m.sessionId then
    .error (.serialization "Session bundle manifest session_id does not match meta.json.")
  else
    match readManifestInt "checkpoint_count" manifest.checkpointCount with
    | .error e => .error e
    | .ok count =>
      if count ≠ checkpoints.length then
        .error (.serialization "Session bundle checkpoint_count does not match checkpoint files.")
      else .ok ()

/-- `_read_manifest`: the manifest, of the supported schema version. -/
def readManifest (bundle : Bundle J) : Except SessionException Manifest := do
  let manifest ← bundle.manifest
  let version ← readManifestInt "schema_version" manifest.schemaVersion
  if version = SESSION_SCHEMA_VERSION then pure manifest
  else throw (.version s!"Unsupported session schema version: {version}.")

/-- `_read_bundle`. -/
def readBundle (bundle : Bundle J) : Except SessionException (SessionMeta × List (Checkpoint J)) := do
  let manifest ← readManifest bundle
  let m ← bundle.sessionMeta
  let checkpoints ← bundle.checkpoints.mapM id
  assertManifestMatchesRecords manifest m checkpoints
  pure (m, checkpoints)

/-- `_rewrite_session_id`, of one checkpoint; without a new id the record stays as it is. -/
def rewriteCheckpoint (newId : Option String) (c : Checkpoint J) : Checkpoint J :=
  { c with sessionId := newId.getD c.sessionId }

def rewriteMeta (newId : Option String) (m : SessionMeta) : SessionMeta :=
  { m with sessionId := newId.getD m.sessionId }

/-- `_any_checkpoint_exists`. -/
def anyCheckpointExists (st : Store J) (checkpoints : List (Checkpoint J)) : Bool :=
  checkpoints.any fun c => (st.readCheckpoint c.id).isSome

/-- The dictionary `_mint_checkpoint_ids` builds at reading `n` of the clock, in insertion order. -/
def freshIds (env : Environment) (n : Nat) (checkpoints : List (Checkpoint J)) :
    List (String × String) :=
  (checkpoints.zipIdx n).map fun (c, k) => (c.id, mintedId env k)

/-- `fresh.get(id, id)`: a later entry of an id replaces an earlier one. -/
def remap (fresh : List (String × String)) (id : String) : String :=
  ((fresh.reverse.find? (·.1 = id)).map (·.2)).getD id

def remapCheckpoint (fresh : List (String × String)) (c : Checkpoint J) : Checkpoint J :=
  { c with id := remap fresh c.id, parentId := c.parentId.map (remap fresh) }

def remapMeta (fresh : List (String × String)) (m : SessionMeta) : SessionMeta :=
  { m with headId := m.headId.map (remap fresh) }

namespace StoreM

variable (env : Environment)

/-- `_assert_session_absent`. -/
def assertSessionAbsent (sessionId : String) : StoreM J Unit := do
  let h ← Prog.get
  Prog.throwIf (h.store.readMeta sessionId).isSome
    (.store "Session already exists; pass new_id= with an unused session id to import as a copy.")

/-- `_mint_checkpoint_ids`: one reading of `uuid4` for each checkpoint. -/
def mintCheckpointIds (m : SessionMeta) (checkpoints : List (Checkpoint J)) :
    StoreM J (SessionMeta × List (Checkpoint J)) := do
  let h ← Prog.get
  let fresh := freshIds env h.clock checkpoints
  Prog.modify fun h => { h with clock := h.clock + checkpoints.length }
  pure (remapMeta fresh m, checkpoints.map (remapCheckpoint fresh))

def reIdOnCollision (m : SessionMeta) (checkpoints : List (Checkpoint J)) :
    StoreM J (SessionMeta × List (Checkpoint J)) := do
  let h ← Prog.get
  if anyCheckpointExists h.store checkpoints then mintCheckpointIds env m checkpoints
  else pure (m, checkpoints)

def importBundle (bundle : Bundle J) (newId : Option String) : StoreM J String := do
  let (m, checkpoints) ← Prog.ofExcept (readBundle bundle)
  assertSessionAbsent (newId.getD m.sessionId)
  let (m, checkpoints) ← reIdOnCollision env (rewriteMeta newId m)
    (checkpoints.map (rewriteCheckpoint newId))
  ingest m checkpoints
  pure m.sessionId

end StoreM

end VidbyteSdk.Sessions
