import VidbyteSdk.Lib.Dicts
import VidbyteSdk.Lib.Prog
import Mathlib.Data.Set.Finite.List

/-!
# The context manager

`ContextManager` of `context/manager.py`: the registry of managed primitives, their placements and the id counters. A
method is a program over these three dictionaries, so that a call that raises leaves behind what it has written. A
primitive is what the manager reads of an item; what else an item holds, what its class refuses and how it renders are
parameters.
-/

namespace VidbyteSdk.Context

open Lib

inductive ContextWindowPlacement
  | topOfContext
  | endOfContext
  | topOfConversation
  | endOfConversation
  deriving DecidableEq

/-- An item as the manager sees it: `primitiveId` is empty where the attribute is missing, `None` or empty, and
`hasTitle` says whether `title` is one of its dataclass fields. -/
structure Primitive (B : Type) where
  primitiveId : Text
  primitiveFrozen : Bool
  kind : Text
  title : Text
  isDataclass : Bool
  hasTitle : Bool
  body : B

inductive ManagerError
  | missingPrimitiveId
  | frozenPrimitive (primitiveId : Text)
  | unknownPrimitive (primitiveId : Text)
  | invalidPlacement
  | notADataclass
  | slotIsSource (primitiveId : Text)
  /-- What `dataclasses.replace` raises. -/
  | refused (typeName : Text)
  deriving DecidableEq

abbrev Dict (A : Type) := List (Text × A)

/-- `d[key] = value` -/
def Dict.set {A : Type} (dict : Dict A) (key : Text) (value : A) : Dict A := upsert Prod.fst (key, value) dict

/-- `d.pop(key, None)` -/
def Dict.pop {A : Type} (dict : Dict A) (key : Text) : Dict A := dict.filter fun entry => entry.1 ≠ key

structure Registry (B : Type) where
  registry : Dict (Primitive B)
  placements : Dict ContextWindowPlacement
  idCounters : Dict ℕ

namespace ContextManager

variable {B : Type} (refuses : Primitive B → Option ManagerError)

abbrev Method (B α : Type) := Prog (Registry B) ManagerError α

/-- `dataclasses.replace(item, ...)`: the new record, unless its class refuses it. -/
def replace (item : Primitive B) : Method B (Primitive B) :=
  match refuses item with
  | some error => Prog.throw error
  | none => pure item

/-- `upsert`; a placement is `none` where it is no value of the enum. -/
def upsert (item : Primitive B) (placement : Option ContextWindowPlacement) : Method B Unit := do
  Prog.throwIf (item.primitiveId = []) .missingPrimitiveId
  let self ← Prog.get
  Prog.throwIf ((self.registry.lookup item.primitiveId).any (·.primitiveFrozen)) (.frozenPrimitive item.primitiveId)
  match placement with
  | none => Prog.throw .invalidPlacement
  | some placement => do
    Prog.modify fun self => { self with registry := self.registry.set item.primitiveId item }
    Prog.modify fun self => { self with placements := self.placements.set item.primitiveId placement }

/-- `f"{kind}:{n}"` -/
def numberedId (kind : Text) (n : ℕ) : Text := kind ++ Json.lit ":" ++ Json.digitsOf n

theorem numberedId_injective (kind : Text) : Function.Injective (numberedId kind) := by
  intro n m h
  have hdigits : Json.digitsOf n = Json.digitsOf m := List.append_cancel_left h
  rw [← Json.ofDigits_digitsOf n, hdigits, Json.ofDigits_digitsOf]

theorem exists_unregistered (registry : Dict (Primitive B)) (kind : Text) (start : ℕ) :
    ∃ k, numberedId kind (start + k) ∉ registry.map Prod.fst := by
  by_contra hall
  rw [not_exists] at hall
  have hinjective : Function.Injective fun k => numberedId kind (start + k) :=
    (numberedId_injective kind).comp (add_right_injective start)
  refine Set.infinite_range_of_injective hinjective ((List.finite_toSet (registry.map Prod.fst)).subset ?_)
  rintro id ⟨k, rfl⟩
  exact not_not.mp (hall k)

/-- Where the loop of `_generate_primitive_id` stops: at the first number whose id is not registered. -/
def firstUnregistered (registry : Dict (Primitive B)) (kind : Text) (start : ℕ) : ℕ :=
  start + Nat.find (exists_unregistered registry kind start)

/-- `_generate_primitive_id` -/
def generatePrimitiveId (item : Primitive B) : Method B Text := do
  let self ← Prog.get
  let nextValue := firstUnregistered self.registry item.kind ((self.idCounters.lookup item.kind).getD 0 + 1)
  Prog.modify fun self => { self with idCounters := self.idCounters.set item.kind nextValue }
  pure (numberedId item.kind nextValue)

/-- `_with_primitive_id` -/
def withPrimitiveId (item : Primitive B) (primitiveId : Text) : Method B (Primitive B) :=
  if item.isDataclass then replace refuses { item with primitiveId := primitiveId } else Prog.throw .notADataclass

/-- `_place` -/
def place (item : Primitive B) (placement : ContextWindowPlacement) : Method B Text :=
  if Json.strip item.primitiveId = [] then do
    let primitiveId ← generatePrimitiveId item
    let item ← withPrimitiveId refuses item primitiveId
    upsert item (some placement)
    pure primitiveId
  else do
    upsert item (some placement)
    pure item.primitiveId

def placeAfterSystemPrompt (item : Primitive B) : Method B Text := place refuses item .topOfContext

def placeAfterTools (item : Primitive B) : Method B Text := place refuses item .endOfContext

def setPlacement (primitiveId : Text) (placement : Option ContextWindowPlacement) : Method B Unit := do
  let self ← Prog.get
  Prog.throwIf ((self.registry.lookup primitiveId).isNone) (.unknownPrimitive primitiveId)
  match placement with
  | none => Prog.throw .invalidPlacement
  | some placement => Prog.modify fun self => { self with placements := self.placements.set primitiveId placement }

def setFrozen (primitiveId : Text) (frozen : Bool) : Method B Unit := do
  let self ← Prog.get
  match self.registry.lookup primitiveId with
  | none => Prog.throw (.unknownPrimitive primitiveId)
  | some item => do
    Prog.throwIf (!item.isDataclass) .notADataclass
    let item ← replace refuses { item with primitiveFrozen := frozen }
    Prog.modify fun self => { self with registry := self.registry.set primitiveId item }

def removeById (primitiveId : Text) : Method B Unit := do
  Prog.modify fun self => { self with registry := self.registry.pop primitiveId }
  Prog.modify fun self => { self with placements := self.placements.pop primitiveId }

def clearRegistry : Method B Unit := do
  Prog.modify fun self => { self with registry := [] }
  Prog.modify fun self => { self with placements := [] }
  Prog.modify fun self => { self with idCounters := [] }

def upsertPreservingPlacement (item : Primitive B) : Method B Unit := do
  Prog.throwIf (item.primitiveId = []) .missingPrimitiveId
  let self ← Prog.get
  upsert item (some ((self.placements.lookup item.primitiveId).getD .endOfContext))

def recitedTitle (title : Text) : Text :=
  if (Json.lit "Recite: ").isPrefixOf title then title else Json.lit "Recite: " ++ title

def recite (primitiveId : Text) (slotId : Option Text) : Method B Text := do
  let self ← Prog.get
  match self.registry.lookup primitiveId with
  | none => Prog.throw (.unknownPrimitive primitiveId)
  | some source => do
    Prog.throwIf (!source.isDataclass) .notADataclass
    let slot := Json.strip (slotId.getD [])
    let targetId := if slot = [] then Json.lit "recite:" ++ primitiveId else slot
    Prog.throwIf (targetId = primitiveId) (.slotIsSource primitiveId)
    let title := if source.hasTitle then recitedTitle source.title else source.title
    let copy ← replace refuses { source with primitiveId := targetId, primitiveFrozen := false, title := title }
    upsert copy (some .endOfConversation)
    pure targetId

inductive Call (B : Type)
  | upsert (item : Primitive B) (placement : Option ContextWindowPlacement)
  | upsertPreservingPlacement (item : Primitive B)
  | placeAfterSystemPrompt (item : Primitive B)
  | placeAfterTools (item : Primitive B)
  | recite (primitiveId : Text) (slotId : Option Text)
  | setPlacement (primitiveId : Text) (placement : Option ContextWindowPlacement)
  | setFrozen (primitiveId : Text) (frozen : Bool)
  | removeById (primitiveId : Text)
  | clearRegistry

/-- A call returns the id it has placed something under, if it does. -/
def Call.run : Call B → Method B (Option Text)
  | .upsert item placement => do ContextManager.upsert item placement; pure none
  | .upsertPreservingPlacement item => do ContextManager.upsertPreservingPlacement item; pure none
  | .placeAfterSystemPrompt item => some <$> ContextManager.placeAfterSystemPrompt refuses item
  | .placeAfterTools item => some <$> ContextManager.placeAfterTools refuses item
  | .recite primitiveId slotId => some <$> ContextManager.recite refuses primitiveId slotId
  | .setPlacement primitiveId placement => do ContextManager.setPlacement primitiveId placement; pure none
  | .setFrozen primitiveId frozen => do ContextManager.setFrozen refuses primitiveId frozen; pure none
  | .removeById primitiveId => do ContextManager.removeById primitiveId; pure none
  | .clearRegistry => do ContextManager.clearRegistry; pure none

end ContextManager

/-! ### Rendering -/

namespace Registry

variable {B : Type} (self : Registry B) (toContextText : Primitive B → Text)

/-- The primitives at a placement, by registry order; one without a placement is at the end of the context. -/
def itemsAt (placement : ContextWindowPlacement) : Dict (Primitive B) :=
  self.registry.filter fun entry => (self.placements.lookup entry.1).getD .endOfContext = placement

/-- `_items_for_context_zone` -/
def itemsForContextZone : Dict (Primitive B) := self.itemsAt .topOfContext ++ self.itemsAt .endOfContext

def renderedSection (entry : Text × Primitive B) : Text :=
  Json.lit "### [" ++ entry.1 ++ Json.lit "] " ++ entry.2.title ++ Json.lit "\n" ++ toContextText entry.2

def renderPrimitivesZone : Text :=
  match self.itemsForContextZone with
  | [] => []
  | visible =>
    (Json.lit "\n\n").intercalate
      (Json.lit "## Context Window Primitives" :: visible.map (renderedSection toContextText))

def renderConversationMessages (placement : ContextWindowPlacement) : List Text :=
  (self.itemsAt placement).map fun entry => toContextText entry.2

end Registry

/-! ### Managers and their dictionaries -/

/-- A manager holds its dictionaries by reference. -/
structure ManagerRefs where
  registry : ℕ
  placements : ℕ
  idCounters : ℕ

structure World (B : Type) where
  registries : List (Dict (Primitive B))
  placements : List (Dict ContextWindowPlacement)
  idCounters : List (Dict ℕ)
  managers : List ManagerRefs

inductive Event (B : Type)
  | new
  | copy (manager : ℕ)
  | call (manager : ℕ) (call : ContextManager.Call B)

namespace World

variable {B : Type} (refuses : Primitive B → Option ManagerError) (world : World B)

def empty : World B := ⟨[], [], [], []⟩

def gather (registry : Option (Dict (Primitive B))) (placements : Option (Dict ContextWindowPlacement))
    (idCounters : Option (Dict ℕ)) : Option (Registry B) :=
  registry.bind fun registry => placements.bind fun placements => idCounters.map fun idCounters =>
    ⟨registry, placements, idCounters⟩

def read (manager : ℕ) : Option (Registry B) :=
  world.managers[manager]?.bind fun refs =>
    gather world.registries[refs.registry]? world.placements[refs.placements]? world.idCounters[refs.idCounters]?

def rendered (toContextText : Primitive B → Text) (manager : ℕ) : Option (Text × List Text × List Text) :=
  (world.read manager).map fun self =>
    (self.renderPrimitivesZone toContextText, self.renderConversationMessages toContextText .topOfConversation,
      self.renderConversationMessages toContextText .endOfConversation)

def write (refs : ManagerRefs) (self : Registry B) : World B :=
  { world with
    registries := world.registries.set refs.registry self.registry
    placements := world.placements.set refs.placements self.placements
    idCounters := world.idCounters.set refs.idCounters self.idCounters }

/-- A new manager, with new dictionaries that hold some entries. -/
def add (self : Registry B) : World B where
  registries := world.registries ++ [self.registry]
  placements := world.placements ++ [self.placements]
  idCounters := world.idCounters ++ [self.idCounters]
  managers := world.managers ++ [⟨world.registries.length, world.placements.length, world.idCounters.length⟩]

def result : Event B → Option (Except ManagerError (Option Text))
  | .call manager call => (world.read manager).map fun self => (call.run refuses self).result
  | _ => none

def step : Event B → World B
  | .new => world.add ⟨[], [], []⟩
  | .copy manager =>
    match world.read manager with
    | some self => world.add self
    | none => world
  | .call manager call =>
    match world.managers[manager]?, world.read manager with
    | some refs, some self => world.write refs (call.run refuses self).final
    | _, _ => world

def run (events : List (Event B)) : World B := events.foldl (fun world event => world.step refuses event) empty

end World

end VidbyteSdk.Context
