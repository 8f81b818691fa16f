import VidbyteSdk.Context.Manager
import VidbyteSdk.Lib.Places

/-!
# What holds of context managers in every run

One lemma says what a call can do to the two maps of a manager; the invariant of the maps, the rule for frozen
primitives and the rule for calls that raise are read off it. Managers never share a dictionary, so a call on one leaves
every other as it is.
-/

namespace VidbyteSdk.Context

open Lib

variable {B : Type} {refuses : Primitive B → Option ManagerError}

/-! ### The effect of a call -/

def Registry.frozenAt (self : Registry B) (primitiveId : Text) : Bool :=
  (self.registry.lookup primitiveId).any (·.primitiveFrozen)

/-- The two maps that the managed primitives are in. -/
structure SameMaps (before after : Registry B) : Prop where
  registry : after.registry = before.registry
  placements : after.placements = before.placements

/-- What a call that returns can have done to the maps. -/
inductive Effect (self self' : Registry B) : ContextManager.Call B → Prop
  /-- A primitive is stored under its own id, which is not frozen. -/
  | stored {call : ContextManager.Call B} (item : Primitive B) (placement : ContextWindowPlacement)
      (hid : item.primitiveId ≠ []) (hfrozen : self.frozenAt item.primitiveId = false)
      (hregistry : self'.registry = self.registry.set item.primitiveId item)
      (hplacements : self'.placements = self.placements.set item.primitiveId placement) : Effect self self' call
  | moved {primitiveId : Text} {value : Option ContextWindowPlacement} (placement : ContextWindowPlacement)
      (hknown : (self.registry.lookup primitiveId).isSome) (hregistry : self'.registry = self.registry)
      (hplacements : self'.placements = self.placements.set primitiveId placement) :
      Effect self self' (.setPlacement primitiveId value)
  | flagged {primitiveId : Text} {frozen : Bool} (item : Primitive B)
      (hknown : self.registry.lookup primitiveId = some item)
      (hregistry : self'.registry = self.registry.set primitiveId { item with primitiveFrozen := frozen })
      (hplacements : self'.placements = self.placements) : Effect self self' (.setFrozen primitiveId frozen)
  | removed {primitiveId : Text} (hregistry : self'.registry = self.registry.pop primitiveId)
      (hplacements : self'.placements = self.placements.pop primitiveId) : Effect self self' (.removeById primitiveId)
  | cleared (hregistry : self'.registry = []) (hplacements : self'.placements = []) :
      Effect self self' .clearRegistry

namespace ContextManager

/-- The states in between are not looked at. -/
abbrev Any : Registry B → Prop := fun _ => True

/-- `upsert` raises before it writes, or stores the primitive. -/
theorem wp_upsert (item : Primitive B) (placement : Option ContextWindowPlacement) (self : Registry B) (call : Call B) :
    Prog.wp Any (upsert item placement) (fun _ self' => Effect self self' call) (fun _ self' => self' = self) self := by
  unfold upsert
  rw [Prog.wp_bind, Prog.wp_throwIf]
  refine ⟨fun _ => rfl, fun hid => ?_⟩
  rw [Prog.wp_bind, Prog.wp_get, Prog.wp_bind, Prog.wp_throwIf]
  refine ⟨fun _ => rfl, fun hfrozen => ?_⟩
  cases placement with
  | none =>
    rw [Prog.wp_throw]
  | some placement =>
    rw [Prog.wp_bind, Prog.wp_modify]
    refine ⟨trivial, ?_⟩
    rw [Prog.wp_modify]
    exact ⟨trivial, .stored item placement hid (Bool.eq_false_of_not_eq_true hfrozen) rfl rfl⟩

theorem wp_replace (item : Primitive B) (self : Registry B) {Q : Primitive B → Registry B → Prop}
    {E : ManagerError → Registry B → Prop} (hvalue : Q item self) (herror : ∀ error, E error self) :
    Prog.wp Any (replace refuses item) Q E self := by
  unfold replace
  split
  · rw [Prog.wp_throw]
    exact herror _
  · rw [Prog.wp_pure]
    exact hvalue

theorem firstUnregistered_spec (registry : Dict (Primitive B)) (kind : Text) (start : ℕ) :
    numberedId kind (firstUnregistered registry kind start) ∉ registry.map Prod.fst :=
  Nat.find_spec (exists_unregistered registry kind start)

theorem Effect.of_sameMaps {self self₁ self' : Registry B} {call : Call B} (hsame : SameMaps self self₁)
    (h : Effect self₁ self' call) : Effect self self' call := by
  have hfrozen (id : Text) : self₁.frozenAt id = self.frozenAt id := by
    rw [Registry.frozenAt, Registry.frozenAt, hsame.registry]
  cases h with
  | stored item placement hid hfree hregistry hplacements =>
    exact .stored item placement hid (hfrozen _ ▸ hfree) (hsame.registry ▸ hregistry) (hsame.placements ▸ hplacements)
  | moved placement hknown hregistry hplacements =>
    exact .moved placement (hsame.registry ▸ hknown) (hregistry.trans hsame.registry)
      (hsame.placements ▸ hplacements)
  | flagged item hknown hregistry hplacements =>
    exact .flagged item (hsame.registry ▸ hknown) (hsame.registry ▸ hregistry) (hplacements.trans hsame.placements)
  | removed hregistry hplacements => exact .removed (hsame.registry ▸ hregistry) (hsame.placements ▸ hplacements)
  | cleared hregistry hplacements => exact .cleared hregistry hplacements

theorem wp_place (item : Primitive B) (placement : ContextWindowPlacement) (self : Registry B) (call : Call B) :
    Prog.wp Any (place refuses item placement)
      (fun id self' => Effect self self' call ∧
        (Json.strip item.primitiveId = [] → id ∉ self.registry.map Prod.fst))
      (fun _ self' => SameMaps self self') self := by
  unfold place
  rw [Prog.wp_ite]
  constructor
  · intro _
    rw [Prog.wp_bind, generatePrimitiveId, Prog.wp_bind, Prog.wp_get, Prog.wp_bind, Prog.wp_modify]
    refine ⟨trivial, ?_⟩
    rw [Prog.wp_pure, Prog.wp_bind, withPrimitiveId, Prog.wp_ite]
    have hsame : SameMaps self { self with
        idCounters := self.idCounters.set item.kind
          (firstUnregistered self.registry item.kind ((self.idCounters.lookup item.kind).getD 0 + 1)) } := ⟨rfl, rfl⟩
    refine ⟨fun _ => wp_replace _ _ ?_ fun _ => hsame, fun _ => ?_⟩
    · rw [Prog.wp_bind]
      refine Prog.wp_post (wp_upsert _ _ _ call) ?_ fun _ self' hself' => hself' ▸ hsame
      intro _ self' heffect
      rw [Prog.wp_pure]
      exact ⟨Effect.of_sameMaps hsame heffect, fun _ => firstUnregistered_spec _ _ _⟩
    · rw [Prog.wp_throw]
      exact hsame
  · intro hid
    rw [Prog.wp_bind]
    refine Prog.wp_post (wp_upsert _ _ _ call) ?_ fun _ self' hself' => hself' ▸ ⟨rfl, rfl⟩
    intro _ self' heffect
    rw [Prog.wp_pure]
    exact ⟨heffect, fun hblank => absurd hblank hid⟩

theorem wp_recite (primitiveId : Text) (slotId : Option Text) (self : Registry B) (call : Call B) :
    Prog.wp Any (recite refuses primitiveId slotId) (fun _ self' => Effect self self' call)
      (fun _ self' => self' = self) self := by
  unfold recite
  rw [Prog.wp_bind, Prog.wp_get]
  cases self.registry.lookup primitiveId with
  | none =>
    rw [Prog.wp_throw]
  | some source =>
    rw [Prog.wp_bind, Prog.wp_throwIf]
    refine ⟨fun _ => rfl, fun _ => ?_⟩
    rw [Prog.wp_bind, Prog.wp_throwIf]
    refine ⟨fun _ => rfl, fun _ => ?_⟩
    rw [Prog.wp_bind]
    refine wp_replace _ _ ?_ fun _ => rfl
    rw [Prog.wp_bind]
    refine Prog.wp_post (wp_upsert _ _ _ call) ?_ fun _ _ h => h
    intro _ self' heffect
    rw [Prog.wp_pure]
    exact heffect

theorem wp_setPlacement (primitiveId : Text) (placement : Option ContextWindowPlacement) (self : Registry B) :
    Prog.wp Any (setPlacement primitiveId placement)
      (fun _ self' => Effect self self' (.setPlacement primitiveId placement)) (fun _ self' => self' = self) self := by
  unfold setPlacement
  rw [Prog.wp_bind, Prog.wp_get, Prog.wp_bind, Prog.wp_throwIf]
  refine ⟨fun _ => rfl, fun hknown => ?_⟩
  cases placement with
  | none =>
    rw [Prog.wp_throw]
  | some placement =>
    rw [Prog.wp_modify]
    refine ⟨trivial, .moved placement ?_ rfl rfl⟩
    rwa [Bool.not_eq_true, Option.isNone_eq_false_iff] at hknown

theorem wp_setFrozen (primitiveId : Text) (frozen : Bool) (self : Registry B) :
    Prog.wp Any (setFrozen refuses primitiveId frozen)
      (fun _ self' => Effect self self' (.setFrozen primitiveId frozen)) (fun _ self' => self' = self) self := by
  unfold setFrozen
  rw [Prog.wp_bind, Prog.wp_get]
  cases hitem : self.registry.lookup primitiveId with
  | none =>
    rw [Prog.wp_throw]
  | some item =>
    rw [Prog.wp_bind, Prog.wp_throwIf]
    refine ⟨fun _ => rfl, fun _ => ?_⟩
    rw [Prog.wp_bind]
    refine wp_replace _ _ ?_ fun _ => rfl
    rw [Prog.wp_modify]
    exact ⟨trivial, .flagged item hitem rfl rfl⟩

def Call.unnamed : Call B → Option (Primitive B)
  | .placeAfterSystemPrompt item | .placeAfterTools item => if Json.strip item.primitiveId = [] then some item else none
  | _ => none

theorem wp_run (call : Call B) (self : Registry B) :
    Prog.wp Any (call.run refuses)
      (fun id self' => Effect self self' call ∧
        (call.unnamed.isSome → ∃ made, id = some made ∧ made ∉ self.registry.map Prod.fst))
      (fun _ self' => SameMaps self self') self := by
  cases call with
  | upsert item placement =>
    rw [Call.run, Prog.wp_bind]
    refine Prog.wp_post (wp_upsert _ _ _ (.upsert item placement)) ?_ fun _ self' hself' => hself' ▸ ⟨rfl, rfl⟩
    intro _ self' heffect
    rw [Prog.wp_pure]
    exact ⟨heffect, fun h => (nomatch h)⟩
  | upsertPreservingPlacement item =>
    rw [Call.run, Prog.wp_bind, ContextManager.upsertPreservingPlacement, Prog.wp_bind, Prog.wp_throwIf]
    refine ⟨fun _ => ⟨rfl, rfl⟩, fun _ => ?_⟩
    rw [Prog.wp_bind, Prog.wp_get]
    refine Prog.wp_post (wp_upsert _ _ _ (.upsertPreservingPlacement item)) ?_ fun _ self' hself' => hself' ▸ ⟨rfl, rfl⟩
    intro _ self' heffect
    rw [Prog.wp_pure]
    exact ⟨heffect, fun h => (nomatch h)⟩
  | placeAfterSystemPrompt item =>
    rw [Call.run, Prog.wp_map]
    refine Prog.wp_post (wp_place _ _ _ (.placeAfterSystemPrompt item)) ?_ fun _ _ h => h
    rintro id self' ⟨heffect, hmade⟩
    refine ⟨heffect, fun h => ⟨id, rfl, hmade ?_⟩⟩
    by_contra hid
    rw [Call.unnamed, if_neg hid] at h
    cases h
  | placeAfterTools item =>
    rw [Call.run, Prog.wp_map]
    refine Prog.wp_post (wp_place _ _ _ (.placeAfterTools item)) ?_ fun _ _ h => h
    rintro id self' ⟨heffect, hmade⟩
    refine ⟨heffect, fun h => ⟨id, rfl, hmade ?_⟩⟩
    by_contra hid
    rw [Call.unnamed, if_neg hid] at h
    cases h
  | recite primitiveId slotId =>
    rw [Call.run, Prog.wp_map]
    refine Prog.wp_post (wp_recite _ _ _ (.recite primitiveId slotId)) ?_ fun _ self' hself' => hself' ▸ ⟨rfl, rfl⟩
    exact fun _ self' heffect => ⟨heffect, fun h => (nomatch h)⟩
  | setPlacement primitiveId placement =>
    rw [Call.run, Prog.wp_bind]
    refine Prog.wp_post (wp_setPlacement _ _ _) ?_ fun _ self' hself' => hself' ▸ ⟨rfl, rfl⟩
    intro _ self' heffect
    rw [Prog.wp_pure]
    exact ⟨heffect, fun h => (nomatch h)⟩
  | setFrozen primitiveId frozen =>
    rw [Call.run, Prog.wp_bind]
    refine Prog.wp_post (wp_setFrozen _ _ _) ?_ fun _ self' hself' => hself' ▸ ⟨rfl, rfl⟩
    intro _ self' heffect
    rw [Prog.wp_pure]
    exact ⟨heffect, fun h => (nomatch h)⟩
  | removeById primitiveId =>
    rw [Call.run, Prog.wp_bind, ContextManager.removeById, Prog.wp_bind, Prog.wp_modify]
    refine ⟨trivial, ?_⟩
    rw [Prog.wp_modify, Prog.wp_pure]
    exact ⟨trivial, .removed rfl rfl, fun h => (nomatch h)⟩
  | clearRegistry =>
    rw [Call.run, Prog.wp_bind, ContextManager.clearRegistry, Prog.wp_bind, Prog.wp_modify]
    refine ⟨trivial, ?_⟩
    rw [Prog.wp_bind, Prog.wp_modify]
    refine ⟨trivial, ?_⟩
    rw [Prog.wp_modify, Prog.wp_pure]
    exact ⟨trivial, .cleared rfl rfl, fun h => (nomatch h)⟩

end ContextManager

/-! ### The invariant of the maps -/

section Dicts

variable {A : Type} {dict : Dict A} {key k : Text} {value : A}

theorem mem_keys_set : k ∈ (dict.set key value).map Prod.fst ↔ k = key ∨ k ∈ dict.map Prod.fst := by
  rw [List.mem_map, List.mem_map]
  constructor
  · rintro ⟨entry, hentry, rfl⟩
    rcases mem_upsert.mp hentry with rfl | ⟨hentry, -⟩
    · exact Or.inl rfl
    · exact Or.inr ⟨entry, hentry, rfl⟩
  · rintro (rfl | ⟨entry, hentry, rfl⟩)
    · exact ⟨(k, value), mem_upsert_self, rfl⟩
    · by_cases hsame : entry.1 = key
      · exact ⟨(key, value), mem_upsert_self, hsame.symm⟩
      · exact ⟨entry, mem_upsert.mpr (Or.inr ⟨hentry, hsame⟩), rfl⟩

theorem mem_keys_pop : k ∈ (dict.pop key).map Prod.fst ↔ k ∈ dict.map Prod.fst ∧ k ≠ key := by
  rw [List.mem_map, List.mem_map]
  constructor
  · rintro ⟨entry, hentry, rfl⟩
    obtain ⟨hentry, hne⟩ := List.mem_filter.mp hentry
    exact ⟨⟨entry, hentry, rfl⟩, of_decide_eq_true hne⟩
  · rintro ⟨⟨entry, hentry, rfl⟩, hne⟩
    exact ⟨entry, List.mem_filter.mpr ⟨hentry, decide_eq_true hne⟩, rfl⟩

theorem nodup_keys_pop (h : (dict.map Prod.fst).Nodup) : ((dict.pop key).map Prod.fst).Nodup :=
  h.sublist (List.filter_sublist.map _)

theorem lookup_set : (dict.set key value).lookup k = if k = key then some value else dict.lookup k :=
  Json.lookup_upsert dict key k value

end Dicts

/-- The ids with a placement are the registered ones, and every primitive is stored under its own. -/
structure Registered (maps : Registry B) : Prop where
  same : ∀ id, id ∈ maps.placements.map Prod.fst ↔ id ∈ maps.registry.map Prod.fst
  registered : (maps.registry.map Prod.fst).Nodup
  placed : (maps.placements.map Prod.fst).Nodup
  own : ∀ entry ∈ maps.registry, entry.2.primitiveId = entry.1

theorem Registered.of_sameMaps {self self' : Registry B} (h : Registered self) (hsame : SameMaps self self') :
    Registered self' := by
  obtain ⟨hregistry, hplacements⟩ := hsame
  exact ⟨fun id => by rw [hregistry, hplacements, h.same], by rw [hregistry]; exact h.registered,
    by rw [hplacements]; exact h.placed, by rw [hregistry]; exact h.own⟩

variable {self : Registry B}

theorem own_set (h : Registered self) {item : Primitive B} :
    ∀ entry ∈ self.registry.set item.primitiveId item, entry.2.primitiveId = entry.1 := by
  intro entry hentry
  rcases mem_upsert.mp hentry with rfl | ⟨hentry, -⟩
  · rfl
  · exact h.own entry hentry

theorem Effect.registered {self self' : Registry B} {call : ContextManager.Call B} (h : Registered self)
    (heffect : Effect self self' call) : Registered self' := by
  cases heffect with
  | stored item placement hid hfrozen hregistry hplacements =>
    refine ⟨fun id => ?_, ?_, ?_, ?_⟩
    · rw [hregistry, hplacements, mem_keys_set, mem_keys_set, h.same]
    · exact hregistry ▸ nodup_map_key_upsert h.registered
    · exact hplacements ▸ nodup_map_key_upsert h.placed
    · exact hregistry ▸ own_set h
  | @moved primitiveId _ placement hknown hregistry hplacements =>
    obtain ⟨item, hitem⟩ := Option.isSome_iff_exists.mp hknown
    have hmem : primitiveId ∈ self.registry.map Prod.fst := List.mem_map_of_mem (f := Prod.fst) (mem_of_lookup hitem)
    refine ⟨fun id => ?_, ?_, ?_, ?_⟩
    · rw [hregistry, hplacements, mem_keys_set, h.same]
      exact ⟨fun hor => hor.elim (fun heq => heq ▸ hmem) fun hin => hin, Or.inr⟩
    · exact hregistry ▸ h.registered
    · exact hplacements ▸ nodup_map_key_upsert h.placed
    · exact hregistry ▸ h.own
  | @flagged primitiveId frozen item hknown hregistry hplacements =>
    have hmem : primitiveId ∈ self.registry.map Prod.fst := List.mem_map_of_mem (f := Prod.fst) (mem_of_lookup hknown)
    have hown : item.primitiveId = primitiveId := h.own _ (mem_of_lookup hknown)
    refine ⟨fun id => ?_, ?_, ?_, ?_⟩
    · rw [hregistry, hplacements, mem_keys_set, h.same]
      exact ⟨Or.inr, fun hor => hor.elim (fun heq => heq ▸ hmem) fun hin => hin⟩
    · exact hregistry ▸ nodup_map_key_upsert h.registered
    · exact hplacements ▸ h.placed
    · intro entry hentry
      rw [hregistry] at hentry
      rcases mem_upsert.mp hentry with rfl | ⟨hentry, -⟩
      · exact hown
      · exact h.own entry hentry
  | removed hregistry hplacements =>
    refine ⟨fun id => ?_, ?_, ?_, ?_⟩
    · rw [hregistry, hplacements, mem_keys_pop, mem_keys_pop, h.same]
    · exact hregistry ▸ nodup_keys_pop h.registered
    · exact hplacements ▸ nodup_keys_pop h.placed
    · intro entry hentry
      rw [hregistry] at hentry
      exact h.own entry (List.mem_of_mem_filter hentry)
  | cleared hregistry hplacements =>
    refine ⟨fun id => ?_, ?_, ?_, ?_⟩
    · rw [hregistry, hplacements]
      exact Iff.rfl
    · exact hregistry ▸ List.nodup_nil
    · exact hplacements ▸ List.nodup_nil
    · intro entry hentry
      rw [hregistry] at hentry
      cases hentry

def ContextManager.Call.changesFrozen (call : ContextManager.Call B) (primitiveId : Text) : Prop :=
  match call with
  | .setFrozen id _ | .removeById id => id = primitiveId
  | .clearRegistry => True
  | _ => False

theorem Effect.frozen {self self' : Registry B} {call : ContextManager.Call B} (heffect : Effect self self' call)
    {id : Text} {item : Primitive B} (hitem : self.registry.lookup id = some item) (hfrozen : item.primitiveFrozen = true)
    (hcall : ¬ call.changesFrozen id) : self'.registry.lookup id = some item := by
  cases heffect with
  | stored stored placement hid hfree hregistry hplacements =>
    have hne : id ≠ stored.primitiveId := by
      rintro rfl
      rw [Registry.frozenAt, hitem, Option.any_some, hfrozen] at hfree
      cases hfree
    rw [hregistry, lookup_set, if_neg hne, hitem]
  | moved placement hknown hregistry hplacements => rw [hregistry, hitem]
  | flagged other hknown hregistry hplacements => rw [hregistry, lookup_set, if_neg (Ne.symm hcall), hitem]
  | removed hregistry hplacements =>
    rw [hregistry, Dict.pop, lookup_filter_ne, if_neg (Ne.symm hcall), hitem]
  | cleared hregistry hplacements => exact absurd trivial hcall

theorem rendered_once (self : Registry B) :
    (self.itemsForContextZone ++ self.itemsAt .topOfConversation ++ self.itemsAt .endOfConversation).Perm
      self.registry := by
  unfold Registry.itemsForContextZone Registry.itemsAt
  induction self.registry with
  | nil => exact List.Perm.nil
  | cons entry entries ih =>
    cases hplacement : (self.placements.lookup entry.1).getD .endOfContext with
    | topOfContext =>
      simp only [List.filter_cons, hplacement, decide_true, reduceCtorEq, decide_false, if_true,
        List.cons_append]
      exact ih.cons entry
    | endOfContext =>
      simp only [List.filter_cons, hplacement, decide_true, reduceCtorEq, decide_false, if_true,
        List.append_assoc, List.cons_append] at ih ⊢
      exact List.perm_middle.trans (ih.cons entry)
    | topOfConversation =>
      simp only [List.filter_cons, hplacement, decide_true, reduceCtorEq, decide_false, if_true,
        List.append_assoc, List.cons_append] at ih ⊢
      rw [← List.append_assoc] at ih ⊢
      exact List.perm_middle.trans (ih.cons entry)
    | endOfConversation =>
      simp only [List.filter_cons, hplacement, decide_true, reduceCtorEq, decide_false, if_true] at ih ⊢
      exact List.perm_middle.trans (ih.cons entry)

/-! ### Managers apart -/

namespace World

variable (world : World B)

/-- Every manager has dictionaries of its own: those made with it. -/
structure Apart : Prop where
  refs : ∀ manager (refs : ManagerRefs), world.managers[manager]? = some refs → refs = ⟨manager, manager, manager⟩
  registries : world.registries.length = world.managers.length
  placements : world.placements.length = world.managers.length
  idCounters : world.idCounters.length = world.managers.length

variable {world}

theorem apart_empty : (empty : World B).Apart := ⟨fun _ _ h => (nomatch h), rfl, rfl, rfl⟩

theorem Apart.read (h : world.Apart) (manager : ℕ) :
    world.read manager =
      gather world.registries[manager]? world.placements[manager]? world.idCounters[manager]? := by
  unfold World.read
  cases hrefs : world.managers[manager]? with
  | none =>
    have hle := List.getElem?_eq_none_iff.mp hrefs
    rw [List.getElem?_eq_none (h.registries ▸ hle)]
    rfl
  | some refs =>
    rw [h.refs manager refs hrefs]
    rfl

theorem Apart.add (h : world.Apart) (self : Registry B) : (world.add self).Apart := by
  refine ⟨fun manager refs hrefs => ?_, ?_, ?_, ?_⟩
  · change (world.managers ++ [_])[manager]? = some refs at hrefs
    rw [getElem?_concat] at hrefs
    split at hrefs
    · next hnew =>
      rw [h.registries, h.placements, h.idCounters, ← hnew] at hrefs
      exact (Option.some.inj hrefs).symm
    · exact h.refs manager refs hrefs
  · change (world.registries ++ [_]).length = (world.managers ++ [_]).length
    rw [List.length_append, List.length_append, h.registries]
    rfl
  · change (world.placements ++ [_]).length = (world.managers ++ [_]).length
    rw [List.length_append, List.length_append, h.placements]
    rfl
  · change (world.idCounters ++ [_]).length = (world.managers ++ [_]).length
    rw [List.length_append, List.length_append, h.idCounters]
    rfl

theorem Apart.write (h : world.Apart) (refs : ManagerRefs) (self : Registry B) : (world.write refs self).Apart :=
  ⟨h.refs, List.length_set.trans h.registries, List.length_set.trans h.placements,
    List.length_set.trans h.idCounters⟩

theorem read_add (h : world.Apart) (self : Registry B) (manager : ℕ) :
    (world.add self).read manager = if manager = world.managers.length then some self else world.read manager := by
  rw [(h.add self).read, h.read]
  change gather (world.registries ++ [self.registry])[manager]? (world.placements ++ [self.placements])[manager]?
    (world.idCounters ++ [self.idCounters])[manager]? = _
  rw [getElem?_concat, getElem?_concat, getElem?_concat, h.registries, h.placements, h.idCounters]
  split <;> rfl

theorem read_write (h : world.Apart) {manager : ℕ} {refs : ManagerRefs} (hrefs : world.managers[manager]? = some refs)
    (self : Registry B) (other : ℕ) :
    (world.write refs self).read other = if manager = other then some self else world.read other := by
  obtain ⟨hlt, -⟩ := List.getElem?_eq_some_iff.mp hrefs
  rw [(h.write refs self).read, h.read, h.refs manager refs hrefs]
  change gather (world.registries.set manager self.registry)[other]? (world.placements.set manager self.placements)[other]?
    (world.idCounters.set manager self.idCounters)[other]? = _
  rw [List.getElem?_set, List.getElem?_set, List.getElem?_set]
  by_cases hother : manager = other
  · rw [if_pos hother, if_pos hother, if_pos hother, if_pos hother, if_pos (h.registries ▸ hlt),
      if_pos (h.placements ▸ hlt), if_pos (h.idCounters ▸ hlt)]
    rfl
  · rw [if_neg hother, if_neg hother, if_neg hother, if_neg hother]

def manager? : Event B → Option ℕ
  | .call manager _ => some manager
  | _ => none

variable (refuses)

theorem step_cases (world : World B) (event : Event B) :
    (world.step refuses event = world ∧ ∀ manager, manager? event = some manager → world.read manager = none) ∨
      (∃ self, world.step refuses event = world.add self ∧ manager? event = none ∧
        (self = ⟨[], [], []⟩ ∨ ∃ manager, world.read manager = some self)) ∨
      ∃ manager call refs self, event = .call manager call ∧ world.managers[manager]? = some refs ∧
        world.read manager = some self ∧ world.step refuses event = world.write refs (call.run refuses self).final := by
  cases event with
  | new => exact Or.inr (Or.inl ⟨_, rfl, rfl, Or.inl rfl⟩)
  | copy manager =>
    dsimp only [World.step]
    cases hread : world.read manager with
    | none => exact Or.inl ⟨rfl, fun _ h => nomatch h⟩
    | some self => exact Or.inr (Or.inl ⟨self, rfl, rfl, Or.inr ⟨manager, hread⟩⟩)
  | call manager call =>
    dsimp only [World.step]
    cases hrefs : world.managers[manager]? with
    | none =>
      refine Or.inl ⟨rfl, fun other hother => ?_⟩
      rw [← Option.some.inj hother, World.read, hrefs]
      rfl
    | some refs =>
      cases hread : world.read manager with
      | none => exact Or.inl ⟨rfl, fun other hother => Option.some.inj hother ▸ hread⟩
      | some self => exact Or.inr (Or.inr ⟨manager, call, refs, self, rfl, hrefs, hread, rfl⟩)

theorem lt_of_read {manager : ℕ} (hself : world.read manager = some self) :
    manager < world.managers.length := by
  by_contra hge
  rw [World.read, List.getElem?_eq_none (Nat.not_lt.mp hge)] at hself
  cases hself

theorem read_step (h : world.Apart) (event : Event B) {other : ℕ}
    (hself : world.read other = some self) :
    (world.step refuses event).read other =
      match event with
      | .call manager call => some (if manager = other then (call.run refuses self).final else self)
      | _ => some self := by
  rcases step_cases refuses world event with
    ⟨hstep, hnone⟩ | ⟨added, hstep, hevent, -⟩ | ⟨manager, call, refs, called, rfl, hrefs, hcalled, hstep⟩
  · rw [hstep, hself]
    cases event with
    | call manager call =>
      dsimp only
      rw [if_neg]
      rintro rfl
      rw [hnone _ rfl] at hself
      cases hself
    | _ => rfl
  · rw [hstep, read_add h, if_neg (Nat.ne_of_lt (lt_of_read hself)), hself]
    cases event with
    | call => cases hevent
    | _ => rfl
  · rw [hstep, read_write h hrefs]
    dsimp only
    by_cases hsame : manager = other
    · rw [hsame, hself] at hcalled
      rw [if_pos hsame, if_pos hsame, Option.some.inj hcalled]
    · rw [if_neg hsame, if_neg hsame, hself]

theorem read_copy (h : world.Apart) {manager : ℕ} (hself : world.read manager = some self) :
    (world.step refuses (.copy manager)).read world.managers.length = some self := by
  rw [World.step, hself]
  dsimp only
  rw [read_add h, if_pos rfl]

theorem call_ends (call : ContextManager.Call B) (self : Registry B) :
    (∀ id, (call.run refuses self).result = .ok id → Effect self (call.run refuses self).final call ∧
      (call.unnamed.isSome → ∃ made, id = some made ∧ made ∉ self.registry.map Prod.fst)) ∧
      ∀ error, (call.run refuses self).result = .error error → SameMaps self (call.run refuses self).final :=
  Prog.wp_ends (ContextManager.wp_run call self)

theorem registered_call (h : Registered self) (call : ContextManager.Call B) :
    Registered (call.run refuses self).final := by
  obtain ⟨hok, herror⟩ := call_ends refuses call self
  cases hresult : (call.run refuses self).result with
  | ok id => exact Effect.registered h (hok id hresult).1
  | error error => exact h.of_sameMaps (herror error hresult)

structure Kept (world : World B) : Prop where
  apart : world.Apart
  registered : ∀ manager self, world.read manager = some self → Registered self

theorem registered_nothing : Registered (⟨[], [], []⟩ : Registry B) :=
  ⟨fun _ => Iff.rfl, List.nodup_nil, List.nodup_nil, fun _ h => nomatch h⟩

theorem kept_step {world : World B} (h : Kept world) (event : Event B) : Kept (world.step refuses event) := by
  rcases step_cases refuses world event with
    ⟨hstep, -⟩ | ⟨added, hstep, -, hadded⟩ | ⟨manager, call, refs, called, rfl, hrefs, hcalled, hstep⟩
  · rw [hstep]
    exact h
  · rw [hstep]
    refine ⟨h.apart.add added, fun other after hafter => ?_⟩
    rw [read_add h.apart] at hafter
    split at hafter
    · obtain rfl := Option.some.inj hafter
      rcases hadded with rfl | ⟨manager, hmanager⟩
      · exact registered_nothing
      · exact h.registered manager _ hmanager
    · exact h.registered other after hafter
  · rw [hstep]
    refine ⟨h.apart.write refs _, fun other after hafter => ?_⟩
    rw [read_write h.apart hrefs] at hafter
    split at hafter
    · exact Option.some.inj hafter ▸ registered_call refuses (h.registered manager called hcalled) call
    · exact h.registered other after hafter

theorem kept_run (events : List (Event B)) : Kept (run refuses events) := by
  have hfold (world : World B) (h : Kept world) :
      Kept (events.foldl (fun world event => world.step refuses event) world) := by
    induction events generalizing world with
    | nil => exact h
    | cons event events ih => exact ih _ (kept_step refuses h event)
  exact hfold empty ⟨apart_empty, fun _ _ h => nomatch h⟩

end World

/-- **The context registry**, in every run: the maps of every manager agree and every primitive is stored under its own
id and rendered once; and of whatever comes next, a call that raises changes no map, an id that is made up was not
registered, what is frozen changes under no other calls than the three, and only its own calls change what a manager
holds and renders. A copy starts with what it was copied from. -/
theorem context_registry (refuses : Primitive B → Option ManagerError) (events : List (Event B)) :
    let world := World.run refuses events
    (∀ manager self, world.read manager = some self → Registered self ∧
      (self.itemsForContextZone ++ self.itemsAt .topOfConversation ++ self.itemsAt .endOfConversation).Perm
        self.registry) ∧
    ∀ event : Event B, let next := world.step refuses event
      (∀ error, world.result refuses event = some (.error error) → ∀ manager self, world.read manager = some self →
        ∃ after, next.read manager = some after ∧ SameMaps self after) ∧
      (∀ manager call self, event = .call manager call → world.read manager = some self → call.unnamed.isSome →
        ∀ id, (call.run refuses self).result = .ok id → ∃ made, id = some made ∧ made ∉ self.registry.map Prod.fst) ∧
      (∀ manager self id item, world.read manager = some self → self.registry.lookup id = some item →
        item.primitiveFrozen = true →
          (∃ after, next.read manager = some after ∧ after.registry.lookup id = some item) ∨
            ∃ call, event = .call manager call ∧ call.changesFrozen id) ∧
      (∀ manager self, world.read manager = some self → World.manager? event ≠ some manager →
        next.read manager = some self ∧
          ∀ toContextText, next.rendered toContextText manager = world.rendered toContextText manager) ∧
      ∀ manager self, event = .copy manager → world.read manager = some self →
        next.read world.managers.length = some self := by
  have hkept := World.kept_run refuses events
  refine ⟨fun manager self hself => ⟨hkept.registered manager self hself, rendered_once self⟩, fun event => ?_⟩
  refine ⟨?_, ?_, ?_, ?_, ?_⟩
  · intro error herror manager self hself
    rw [World.read_step refuses hkept.apart event hself]
    cases event with
    | new => exact ⟨self, rfl, rfl, rfl⟩
    | copy => exact ⟨self, rfl, rfl, rfl⟩
    | call called call =>
      refine ⟨_, rfl, ?_⟩
      split
      · next hsame =>
        rw [World.result, hsame, hself] at herror
        exact (World.call_ends refuses call self).2 error (Option.some.inj herror)
      · exact ⟨rfl, rfl⟩
  · intro manager call self _ _ hunnamed id hid
    exact ((World.call_ends refuses call self).1 id hid).2 hunnamed
  · intro manager self id item hself hitem hfrozen
    by_cases hchanges : ∃ call, event = .call manager call ∧ call.changesFrozen id
    · exact Or.inr hchanges
    · refine Or.inl ?_
      rw [World.read_step refuses hkept.apart event hself]
      cases event with
      | new => exact ⟨self, rfl, hitem⟩
      | copy => exact ⟨self, rfl, hitem⟩
      | call called call =>
        refine ⟨_, rfl, ?_⟩
        split
        · next hsame =>
          obtain ⟨hok, herror⟩ := World.call_ends refuses call self
          cases hresult : (call.run refuses self).result with
          | ok id => exact (hok id hresult).1.frozen hitem hfrozen fun h => hchanges ⟨call, hsame ▸ rfl, h⟩
          | error error => rw [(herror error hresult).registry, hitem]
        · exact hitem
  · intro manager self hself hother
    have hnext : (World.step refuses (World.run refuses events) event).read manager = some self := by
      rw [World.read_step refuses hkept.apart event hself]
      cases event with
      | new => rfl
      | copy => rfl
      | call called call =>
        dsimp only
        rw [if_neg]
        rintro rfl
        exact hother rfl
    refine ⟨hnext, fun toContextText => ?_⟩
    rw [World.rendered, World.rendered, hnext, hself]
  · rintro manager self rfl hself
    exact World.read_copy refuses hkept.apart hself

end VidbyteSdk.Context
