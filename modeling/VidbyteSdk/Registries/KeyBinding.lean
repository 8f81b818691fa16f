import VidbyteSdk.Lib.Assignments
import VidbyteSdk.Lib.Upsert
import VidbyteSdk.Registries.ProviderKeys

/-!
# Keys are bound where they must be

What `ProviderKeyMatcher.match` makes of a list does not depend on the order of its keys: `Binds` says
which key each provider gets from the set of usable keys alone. A key that proves its provider goes
there; the others go where the only assignment of them puts them, but for a lone key, which goes to the
one keyless primary that takes it.
-/

namespace VidbyteSdk.Registries

open VidbyteSdk.Lib

/-! ### Prefixes -/

theorem startsWith_iff {key text : String} : startsWith key text = true ↔ text.toList <+: key.toList :=
  List.isPrefixOf_iff_prefix

theorem startsWith_of_isTextAnd {text key : String} {rule : List Char → Bool}
    (h : isTextAnd text rule key = true) : startsWith key text = true := by
  rw [isTextAnd, Bool.and_eq_true] at h
  exact h.1

theorem exists_prefix_of_fullmatch {format : KeyFormat} (hformat : format ∈ KEY_FORMATS) {key : String}
    (h : format.fullmatch key = true) : ∃ text ∈ format.prefixes, startsWith key text = true := by
  simp only [KEY_FORMATS, List.mem_cons, List.not_mem_nil, or_false] at hformat
  rcases hformat with rfl | rfl | rfl | rfl | rfl | rfl
  · exact ⟨"sk-ant-", by simp, startsWith_of_isTextAnd h⟩
  · exact ⟨"sk-or-", by simp, startsWith_of_isTextAnd h⟩
  · simp only [Bool.or_eq_true] at h
    rcases h with (h | h) | h
    · exact ⟨"sk-proj-", by simp, startsWith_of_isTextAnd h⟩
    · exact ⟨"sk-svcacct-", by simp, startsWith_of_isTextAnd h⟩
    · exact ⟨"sk-admin-", by simp, startsWith_of_isTextAnd h⟩
  · exact ⟨"xai-", by simp, startsWith_of_isTextAnd h⟩
  · simp only [Bool.or_eq_true] at h
    rcases h with h | h
    · exact ⟨"AIza", by simp, startsWith_of_isTextAnd h⟩
    · exact ⟨"AQ.", by simp, startsWith_of_isTextAnd h⟩
  · simp only [Bool.or_eq_true] at h
    rcases h with h | h
    · exact ⟨"LLM|", by simp, startsWith_of_isTextAnd h⟩
    · exact ⟨"LLM_", by simp, startsWith_of_isTextAnd h⟩

theorem exists_reserved_of_providerOf {key : String} {provider : ModelProvider}
    (h : providerOf key = some provider) :
    ∃ text, (text, provider) ∈ reserved ∧ startsWith key text = true := by
  rw [providerOf, Option.map_eq_some_iff] at h
  obtain ⟨format, hfind, rfl⟩ := h
  have hmem := List.mem_of_find?_eq_some hfind
  obtain ⟨text, htext, hstarts⟩ := exists_prefix_of_fullmatch hmem
    (by simpa using List.find?_some hfind)
  refine ⟨text, List.mem_append_left _ (List.mem_flatMap.mpr ⟨format, hmem, ?_⟩), hstarts⟩
  exact List.mem_map.mpr ⟨text, htext, rfl⟩

theorem reserved_disjoint : (reserved.all fun a => reserved.all fun b =>
    decide (a.1.toList.isPrefixOf b.1.toList = true → a.2 = b.2)) = true := by
  decide +kernel

theorem reserved_vidbyte : (reserved.all fun a =>
    !a.1.toList.isPrefixOf VIDBYTE_API_KEY_PREFIX.toList &&
      !VIDBYTE_API_KEY_PREFIX.toList.isPrefixOf a.1.toList) = true := by
  decide +kernel

theorem owner_unique {key text text' : String} {owner owner' : ModelProvider}
    (h : (text, owner) ∈ reserved) (h' : (text', owner') ∈ reserved)
    (hstarts : startsWith key text = true) (hstarts' : startsWith key text' = true) :
    owner = owner' := by
  have hdisjoint : ∀ a ∈ reserved, ∀ b ∈ reserved, a.1.toList.isPrefixOf b.1.toList = true → a.2 = b.2 :=
    fun a ha => forall_mem_of_all (List.all_eq_true.mp reserved_disjoint a ha)
  rcases List.prefix_or_prefix_of_prefix (startsWith_iff.mp hstarts) (startsWith_iff.mp hstarts')
    with hpre | hpre
  · exact hdisjoint _ h _ h' (List.isPrefixOf_iff_prefix.mpr hpre)
  · exact (hdisjoint _ h' _ h (List.isPrefixOf_iff_prefix.mpr hpre)).symm

theorem not_vidbyte_of_providerOf {key : String} {provider : ModelProvider}
    (h : providerOf key = some provider) : startsWith key VIDBYTE_API_KEY_PREFIX = false := by
  obtain ⟨text, hmem, hstarts⟩ := exists_reserved_of_providerOf h
  have hapart := List.all_eq_true.mp reserved_vidbyte _ hmem
  rw [Bool.and_eq_true, Bool.not_eq_true', Bool.not_eq_true'] at hapart
  by_contra hvidbyte
  rw [Bool.not_eq_false] at hvidbyte
  rcases List.prefix_or_prefix_of_prefix (startsWith_iff.mp hstarts) (startsWith_iff.mp hvidbyte)
    with hpre | hpre
  · rw [List.isPrefixOf_iff_prefix.mpr hpre] at hapart
    exact Bool.noConfusion hapart.1
  · rw [List.isPrefixOf_iff_prefix.mpr hpre] at hapart
    exact Bool.noConfusion hapart.2

theorem owner_of_acceptsUnproven {key text : String} {owner provider : ModelProvider}
    (h : (text, owner) ∈ reserved) (hstarts : startsWith key text = true)
    (haccepts : acceptsUnproven provider key = true) : provider = owner := by
  by_contra hne
  have hreserved : (reserved.any fun entry => startsWith key entry.1 && entry.2 != provider) = true := by
    refine List.any_eq_true.mpr ⟨_, h, ?_⟩
    simp only [hstarts, Bool.true_and, bne_iff_ne]
    exact fun heq => hne heq.symm
  rw [acceptsUnproven, if_pos hreserved] at haccepts
  cases haccepts

/-! ### The usable keys of a list -/

/-- The entry is skipped, or holds a key that can be sent. -/
def ListEntry.IsUsable : ListEntry → Prop
  | .none => True
  | .text s => isBlank s = true ∨ isPrintable (strip s) = true
  | .other _ => False

def ListEntry.key? : ListEntry → Option String
  | .text s => if isBlank s then Option.none else some (strip s)
  | _ => Option.none

def UsableKey (api_keys : List ListEntry) (key : String) : Prop :=
  ∃ entry ∈ api_keys, entry.key? = some key

def KeyOf (keys : List IndexedKey) (key : String) : Prop := ∃ entry ∈ keys, entry.key = key

variable {entry : IndexedKey}

variable {rest : List IndexedKey}

theorem keyOf_cons {key : String} :
    KeyOf (entry :: rest) key ↔ entry.key = key ∨ KeyOf rest key := by
  simp [KeyOf]

theorem usableKey_cons {entry : ListEntry} {rest : List ListEntry} {key : String} :
    UsableKey (entry :: rest) key ↔ entry.key? = some key ∨ UsableKey rest key :=
  List.exists_mem_cons_iff _ _ _

def ReadsEntries (api_keys : List ListEntry) : Except KeyError (List IndexedKey) → Prop
  | .ok keys => (∀ entry ∈ api_keys, entry.IsUsable) ∧ ∀ key, KeyOf keys key ↔ UsableKey api_keys key
  | .error _ => ¬ ∀ entry ∈ api_keys, entry.IsUsable

theorem ReadsEntries.skip {entry : ListEntry} {rest : List ListEntry} {read : Except KeyError (List IndexedKey)}
    (husable : entry.IsUsable) (hkey : entry.key? = none) (h : ReadsEntries rest read) :
    ReadsEntries (entry :: rest) read := by
  cases read with
  | ok keys =>
    refine ⟨List.forall_mem_cons.mpr ⟨husable, h.1⟩, fun key => ?_⟩
    rw [usableKey_cons, hkey, h.2 key]
    exact (or_iff_right nofun).symm
  | error e => exact fun hall => h (List.forall_mem_cons.mp hall).2

theorem entries_spec (index : Nat) (api_keys : List ListEntry) : ReadsEntries api_keys (entries index api_keys) := by
  induction api_keys generalizing index with
  | nil =>
    refine ⟨List.forall_mem_nil _, fun key => ?_⟩
    simp [KeyOf, UsableKey]
  | cons entry rest ih =>
    have hrest := ih (index + 1)
    cases entry with
    | none => exact hrest.skip trivial rfl
    | other typeName => exact fun hall => (List.forall_mem_cons.mp hall).1
    | text text =>
      rw [entries]
      by_cases hblank : isBlank text = true
      · rw [if_pos hblank]
        exact hrest.skip (Or.inl hblank) (if_pos hblank)
      have hkey : (ListEntry.text text).key? = some (strip text) := if_neg hblank
      rw [if_neg hblank]
      by_cases hprint : isPrintable (strip text) = true
      · rw [if_pos hprint]
        cases hkeys : entries (index + 1) rest with
        | ok keys =>
          rw [hkeys] at hrest
          refine ⟨List.forall_mem_cons.mpr ⟨Or.inr hprint, hrest.1⟩, fun key => ?_⟩
          rw [keyOf_cons, usableKey_cons, hkey, hrest.2 key, Option.some.injEq]
        | error e =>
          rw [hkeys] at hrest
          exact fun hall => hrest (List.forall_mem_cons.mp hall).2
      · rw [if_neg hprint]
        exact fun hall => (List.forall_mem_cons.mp hall).1.elim hblank hprint

theorem not_isSpace_of_printable {c : Char} (h : 0x21 ≤ c.toNat ∧ c.toNat ≤ 0x7E) : isSpace c = false := by
  simp only [isSpace, Bool.or_eq_false_iff, Bool.and_eq_false_iff, decide_eq_false_iff_not,
    beq_eq_false_iff_ne]
  omega

theorem isStripped_of_isPrintable {key : String} (h : isPrintable key = true) : IsStripped key := by
  simp only [isPrintable, Bool.and_eq_true, Bool.not_eq_true', List.all_eq_true,
    decide_eq_true_eq] at h
  obtain ⟨hne, hall⟩ := h
  have hdrop : ∀ cs : List Char, (∀ c ∈ cs, c ∈ key.toList) → cs.dropWhile isSpace = cs := by
    intro cs hcs
    cases cs with
    | nil => rfl
    | cons c cs =>
      have hc := not_isSpace_of_printable (hall c (hcs c (List.mem_cons_self ..)))
      rw [List.dropWhile_cons_of_neg (by rw [hc]; nofun)]
  have hstrip : strip key = key := by
    rw [strip, hdrop _ (fun _ => id), hdrop _ (fun c hc => List.mem_reverse.mp hc), List.reverse_reverse,
      String.ofList_toList]
  refine ⟨?_, hstrip⟩
  rw [isBlank, hstrip]
  exact hne

variable {api_keys : List ListEntry}

theorem isPrintable_of_usable {key : String}
    (hall : ∀ entry ∈ api_keys, entry.IsUsable) (h : UsableKey api_keys key) : isPrintable key = true := by
  obtain ⟨entry, hmem, hkey⟩ := h
  have husable := hall entry hmem
  cases entry with
  | none => cases hkey
  | other typeName => cases hkey
  | text s =>
    simp only [ListEntry.key?] at hkey
    split at hkey
    · cases hkey
    · next hblank =>
      obtain rfl := Option.some.inj hkey
      exact husable.resolve_left hblank

/-! ### The Vidbyte key -/

def IsVidbyteKeyOf (explicit : Option String) (keys : String → Prop) (vidbyte : Option String) : Prop :=
  ∀ key, explicit = some key ∨ keys key ∧ startsWith key VIDBYTE_API_KEY_PREFIX = true ↔ vidbyte = some key

theorem vidbyteKey_spec (found : Option String) (foundIndex : Option Nat) (keys : List IndexedKey)
    (vidbyte : Option String) :
    vidbyteKey found foundIndex keys = .ok vidbyte ↔ IsVidbyteKeyOf found (KeyOf keys) vidbyte := by
  induction keys generalizing found foundIndex with
  | nil =>
    simp only [vidbyteKey, Except.ok.injEq, IsVidbyteKeyOf, KeyOf, List.not_mem_nil, false_and,
      exists_false, or_false]
    exact ⟨fun h key => by rw [h], fun h => Option.ext h⟩
  | cons entry rest ih =>
    unfold vidbyteKey
    by_cases hstarts : startsWith entry.key VIDBYTE_API_KEY_PREFIX = true
    · rw [if_pos hstarts]
      cases found with
      | none =>
        simp only [ih]
        refine forall_congr' fun key => iff_congr ?_ Iff.rfl
        rw [keyOf_cons]
        constructor
        · rintro (heq | h)
          · obtain rfl := Option.some.inj heq
            exact .inr ⟨.inl rfl, hstarts⟩
          · exact .inr ⟨.inr h.1, h.2⟩
        · rintro (heq | ⟨rfl | h, hs⟩)
          · cases heq
          · exact .inl rfl
          · exact .inr ⟨h, hs⟩
      | some key =>
        by_cases heq : entry.key = key
        · simp only [if_pos heq, ih]
          refine forall_congr' fun key' => iff_congr ?_ Iff.rfl
          rw [keyOf_cons]
          constructor
          · rintro (h | h)
            · exact .inl h
            · exact .inr ⟨.inr h.1, h.2⟩
          · rintro (h | ⟨rfl | h, hs⟩)
            · exact .inl h
            · exact .inl (by rw [heq])
            · exact .inr ⟨h, hs⟩
        · simp only [if_neg heq]
          refine iff_of_false nofun fun h => heq ?_
          have hfound := (h key).mp (.inl rfl)
          have hentry := (h entry.key).mp (.inr ⟨keyOf_cons.mpr (.inl rfl), hstarts⟩)
          exact Option.some.inj (hentry.symm.trans hfound)
    · rw [if_neg hstarts, ih]
      refine forall_congr' fun key => iff_congr ?_ Iff.rfl
      rw [keyOf_cons]
      constructor
      · rintro (h | h)
        · exact .inl h
        · exact .inr ⟨.inr h.1, h.2⟩
      · rintro (h | ⟨rfl | h, hs⟩)
        · exact .inl h
        · exact absurd hs hstarts
        · exact .inr ⟨h, hs⟩

/-! ### The proven keys -/

def Holds (held : List Held) (provider : ModelProvider) (key : String) : Prop :=
  ∃ index, (⟨provider, ⟨index, key⟩⟩ : Held) ∈ held

/-- No provider holds two keys. -/
def OneEach (held : List Held) : Prop := (held.map (·.provider)).Nodup

section

variable {held : List Held} {provider : ModelProvider} {key key' : String}

theorem OneEach.unique (h : OneEach held) (hk : Holds held provider key) (hk' : Holds held provider key') :
    key = key' := by
  obtain ⟨index, hmem⟩ := hk
  obtain ⟨index', hmem'⟩ := hk'
  have hrow := List.inj_on_of_nodup_map h hmem hmem' rfl
  injection hrow with _ hbound
  injection hbound

theorem holds_iff : holds held provider = true ↔ ∃ key, Holds held provider key := by
  simp only [holds, List.any_eq_true, decide_eq_true_eq, Holds]
  constructor
  · rintro ⟨⟨provider, index, key⟩, hmem, rfl⟩
    exact ⟨key, index, hmem⟩
  · rintro ⟨key, index, hmem⟩
    exact ⟨_, hmem, rfl⟩

theorem holds_append_single {index : Nat} {p : ModelProvider} {k : String} :
    Holds (held ++ [⟨p, ⟨index, k⟩⟩]) provider key ↔
      Holds held provider key ∨ provider = p ∧ key = k := by
  simp only [Holds, List.mem_append, List.mem_singleton]
  constructor
  · rintro ⟨i, h | h⟩
    · exact .inl ⟨i, h⟩
    · injection h with hp hb
      injection hb with _ hk
      exact .inr ⟨hp, hk⟩
  · rintro (⟨i, h⟩ | ⟨rfl, rfl⟩)
    · exact ⟨i, .inl h⟩
    · exact ⟨index, .inr rfl⟩

theorem OneEach.concat (h : OneEach held) (hfree : holds held provider = false) :
    OneEach (held ++ [⟨provider, entry⟩]) := by
  rw [OneEach, List.map_append, List.nodup_append]
  refine ⟨h, List.nodup_singleton _, ?_⟩
  intro p hp q hq heq
  obtain ⟨⟨p, index, key⟩, hmem, rfl⟩ := List.mem_map.mp hp
  obtain rfl := List.mem_singleton.mp hq
  have hholds : holds held p = true := holds_iff.mpr ⟨key, index, hmem⟩
  obtain rfl : p = q := heq
  rw [hfree] at hholds
  cases hholds

theorem heldAt_eq_some (h : heldAt held provider = some entry) :
    Holds held provider entry.key := by
  rw [heldAt, Option.map_eq_some_iff] at h
  obtain ⟨⟨p, entry⟩, hfind, rfl⟩ := h
  obtain rfl : p = provider := by simpa using List.find?_some hfind
  exact ⟨entry.index, List.mem_of_find?_eq_some hfind⟩

theorem heldAt_eq_none (h : heldAt held provider = none) : holds held provider = false := by
  rw [heldAt, Option.map_eq_none_iff, List.find?_eq_none] at h
  rw [holds, List.any_eq_false]
  exact h

end

def ProvenOnce (keys : String → Prop) : Prop :=
  ∀ key key' provider, keys key → keys key' → providerOf key = some provider →
    providerOf key' = some provider → key = key'

theorem bindProven_spec (held : List Held) (keys : List IndexedKey) (hone : OneEach held)
    (hproven : ∀ provider key, Holds held provider key → providerOf key = some provider) :
    match bindProven held keys with
    | .ok held' => OneEach held' ∧ ∀ provider key,
        Holds held' provider key ↔ Holds held provider key ∨ KeyOf keys key ∧ providerOf key = some provider
    | .error _ => ¬ ProvenOnce fun key => (∃ provider, Holds held provider key) ∨ KeyOf keys key := by
  induction keys generalizing held with
  | nil =>
    refine ⟨hone, fun provider key => ?_⟩
    simp [KeyOf]
  | cons entry rest ih =>
    rw [bindProven]
    cases hprovider : providerOf entry.key with
    | none =>
      have hrest := ih held hone hproven
      simp only
      cases hbind : bindProven held rest with
      | ok held' =>
        rw [hbind] at hrest
        refine ⟨hrest.1, fun provider key => ?_⟩
        rw [hrest.2, keyOf_cons]
        refine or_congr Iff.rfl ⟨fun h => ⟨.inr h.1, h.2⟩, ?_⟩
        rintro ⟨rfl | h, hp⟩
        · rw [hprovider] at hp
          cases hp
        · exact ⟨h, hp⟩
      | error e =>
        rw [hbind] at hrest
        refine fun honce => hrest fun k k' p hk hk' => honce k k' p ?_ ?_
        · exact hk.imp_right fun h => keyOf_cons.mpr (.inr h)
        · exact hk'.imp_right fun h => keyOf_cons.mpr (.inr h)
    | some provider =>
      simp only
      cases hat : heldAt held provider with
      | none =>
        have hrest := ih (held ++ [⟨provider, entry⟩]) (hone.concat (heldAt_eq_none hat)) <| by
          intro p k h
          rcases holds_append_single.mp h with h | ⟨rfl, rfl⟩
          · exact hproven p k h
          · exact hprovider
        simp only
        cases hbind : bindProven (held ++ [⟨provider, entry⟩]) rest with
        | ok held' =>
          rw [hbind] at hrest
          refine ⟨hrest.1, fun p k => ?_⟩
          rw [hrest.2, keyOf_cons, holds_append_single, or_assoc]
          refine or_congr Iff.rfl ⟨?_, ?_⟩
          · rintro (⟨rfl, rfl⟩ | h)
            · exact ⟨.inl rfl, hprovider⟩
            · exact ⟨.inr h.1, h.2⟩
          · rintro ⟨rfl | h, hp⟩
            · exact .inl ⟨Option.some.inj (hp.symm.trans hprovider), rfl⟩
            · exact .inr ⟨h, hp⟩
        | error e =>
          rw [hbind] at hrest
          refine fun honce => hrest fun k k' p hk hk' => honce k k' p ?_ ?_
          · rcases hk with ⟨q, hq⟩ | hk
            · rcases holds_append_single.mp hq with hq | ⟨-, rfl⟩
              · exact .inl ⟨q, hq⟩
              · exact .inr (keyOf_cons.mpr (.inl rfl))
            · exact .inr (keyOf_cons.mpr (.inr hk))
          · rcases hk' with ⟨q, hq⟩ | hk'
            · rcases holds_append_single.mp hq with hq | ⟨-, rfl⟩
              · exact .inl ⟨q, hq⟩
              · exact .inr (keyOf_cons.mpr (.inl rfl))
            · exact .inr (keyOf_cons.mpr (.inr hk'))
      | some first =>
        have hfirst := heldAt_eq_some hat
        simp only
        by_cases heq : first.key = entry.key
        · rw [if_pos heq]
          have hrest := ih held hone hproven
          cases hbind : bindProven held rest with
          | ok held' =>
            rw [hbind] at hrest
            refine ⟨hrest.1, fun p k => ?_⟩
            rw [hrest.2, keyOf_cons]
            constructor
            · rintro (h | h)
              · exact .inl h
              · exact .inr ⟨.inr h.1, h.2⟩
            · rintro (h | ⟨rfl | h, hp⟩)
              · exact .inl h
              · obtain rfl := Option.some.inj (hp.symm.trans hprovider)
                exact .inl (heq ▸ hfirst)
              · exact .inr ⟨h, hp⟩
          | error e =>
            rw [hbind] at hrest
            refine fun honce => hrest fun k k' p hk hk' => honce k k' p ?_ ?_
            · exact hk.imp_right fun h => keyOf_cons.mpr (.inr h)
            · exact hk'.imp_right fun h => keyOf_cons.mpr (.inr h)
        · rw [if_neg heq]
          refine fun honce => heq ?_
          exact honce _ _ provider (.inl ⟨_, hfirst⟩) (.inr (keyOf_cons.mpr (.inl rfl)))
            (hproven _ _ hfirst) hprovider

/-! ### Lists without repeats -/

theorem nodup_eraseDups {α : Type*} [DecidableEq α] (l : List α) : l.eraseDups.Nodup := by
  induction hlength : l.length using Nat.strong_induction_on generalizing l with
  | _ n ih =>
    cases l with
    | nil => exact List.nodup_nil
    | cons a l =>
      rw [List.eraseDups_cons, List.nodup_cons, List.mem_eraseDups]
      refine ⟨fun hmem => ?_, ih _ ?_ _ rfl⟩
      · simpa using (List.mem_filter.mp hmem).2
      · rw [← hlength, List.length_cons]
        exact Nat.lt_succ_of_le (List.length_filter_le _ _)

theorem eq_singleton_iff {α : Type*} {l : List α} (h : l.Nodup) {a : α} :
    l = [a] ↔ a ∈ l ∧ ∀ b ∈ l, b = a := by
  constructor
  · rintro rfl
    simp
  · rintro ⟨hmem, hall⟩
    have hle := (h.subperm fun b hb => List.mem_singleton.mpr (hall b hb)).length_le
    have hpos := List.length_pos_of_mem hmem
    obtain ⟨b, rfl⟩ := List.length_eq_one_iff.mp (Nat.le_antisymm hle hpos)
    rw [hall b (List.mem_singleton_self b)]

/-! ### The other keys -/

def IsUnproven (key : String) : Prop :=
  providerOf key = none ∧ startsWith key VIDBYTE_API_KEY_PREFIX = false

theorem unprovenKeys_spec (unproven keys : List IndexedKey) (hnodup : (unproven.map (·.key)).Nodup) :
    ((unprovenKeys unproven keys).map (·.key)).Nodup ∧ ∀ key,
      KeyOf (unprovenKeys unproven keys) key ↔ KeyOf unproven key ∨ KeyOf keys key ∧ IsUnproven key := by
  induction keys generalizing unproven with
  | nil =>
    refine ⟨hnodup, fun key => ?_⟩
    simp [unprovenKeys, KeyOf]
  | cons entry rest ih =>
    rw [unprovenKeys]
    split
    · next hadd =>
      obtain ⟨hnone, hvidbyte, hnew⟩ := hadd
      rw [Option.isNone_iff_eq_none] at hnone
      rw [Bool.not_eq_true] at hvidbyte
      have hnodup' : ((unproven ++ [entry]).map (·.key)).Nodup := by
        rw [List.map_append, List.map_singleton]
        refine List.nodup_append.mpr ⟨hnodup, List.nodup_singleton _, ?_⟩
        rintro key hkey _ hentry rfl
        rw [List.mem_singleton.mp hentry] at hkey
        exact hnew hkey
      obtain ⟨hdistinct, hmem⟩ := ih _ hnodup'
      refine ⟨hdistinct, fun key => ?_⟩
      have hconcat : KeyOf (unproven ++ [entry]) key ↔ KeyOf unproven key ∨ entry.key = key := by
        simp [KeyOf, or_and_right, exists_or]
      rw [hmem, keyOf_cons, hconcat, or_assoc]
      refine or_congr Iff.rfl ⟨?_, ?_⟩
      · rintro (rfl | h)
        · exact ⟨.inl rfl, hnone, hvidbyte⟩
        · exact ⟨.inr h.1, h.2⟩
      · rintro ⟨rfl | h, hp⟩
        · exact .inl rfl
        · exact .inr ⟨h, hp⟩
    · next hskip =>
      obtain ⟨hdistinct, hmem⟩ := ih unproven hnodup
      refine ⟨hdistinct, fun key => ?_⟩
      rw [hmem, keyOf_cons]
      constructor
      · rintro (h | h)
        · exact .inl h
        · exact .inr ⟨.inr h.1, h.2⟩
      · rintro (h | ⟨rfl | h, hp⟩)
        · exact .inl h
        · by_cases hold : entry.key ∈ unproven.map (·.key)
          · obtain ⟨e, he, heq⟩ := List.mem_map.mp hold
            exact .inl ⟨e, he, heq⟩
          · refine absurd ⟨Option.isNone_iff_eq_none.mpr hp.1, ?_, hold⟩ hskip
            rw [hp.2]
            nofun
        · exact .inr ⟨h, hp⟩

section

variable {accepting : String → List ModelProvider} {bound : List Held}

def Free (accepting : String → List ModelProvider) (bound : List Held) (key : String)
    (provider : ModelProvider) : Prop :=
  provider ∈ accepting key ∧ holds bound provider = false

theorem mem_candidates {key : String} {provider : ModelProvider} :
    provider ∈ candidates accepting bound key ↔ Free accepting bound key provider := by
  simp [candidates, Free]

theorem free_bind {owner : ModelProvider} {key : String} {provider : ModelProvider} :
    Free accepting (bound ++ [⟨owner, entry⟩]) key provider ↔
      Without (Free accepting bound) owner key provider := by
  simp only [Free, Without, holds, List.any_append, List.any_cons, List.any_nil, Bool.or_false,
    Bool.or_eq_false_iff, decide_eq_false_iff_not, and_assoc]
  refine and_congr Iff.rfl (and_congr Iff.rfl (not_congr eq_comm))

theorem keyOf_erase {waiting : List IndexedKey} (hnodup : (waiting.map (·.key)).Nodup)
    (hmem : entry ∈ waiting) :
    {key | KeyOf (waiting.erase entry) key} = {key | KeyOf waiting key} \ {entry.key} := by
  have hentries : waiting.Nodup := hnodup.of_map
  ext key
  simp only [Set.mem_ofPred_eq, KeyOf, hentries.mem_erase_iff, Set.mem_sdiff, Set.mem_singleton_iff]
  constructor
  · rintro ⟨e, ⟨hne, he⟩, rfl⟩
    exact ⟨⟨e, he, rfl⟩, fun heq => hne (List.inj_on_of_nodup_map hnodup he hmem heq)⟩
  · rintro ⟨⟨e, he, rfl⟩, hne⟩
    exact ⟨e, ⟨fun heq => hne (by rw [heq]), he⟩, rfl⟩

theorem bindUnproven_of_ambiguous {first : IndexedKey}
    (hnone : (first :: rest).find? (fun entry => (candidates accepting bound entry.key).isEmpty) = none)
    (hforced : (first :: rest).find? (fun entry =>
      (candidates accepting bound entry.key).length = 1) = none) :
    ∃ e, bindUnproven accepting (first :: rest) bound = .error e := by
  rw [bindUnproven, hnone]
  simp only
  split
  · exact ⟨_, rfl⟩
  · next heq =>
    rw [hforced] at heq
    cases heq

theorem bindUnproven_of_forced {first forced : IndexedKey}
    {owner : ModelProvider}
    (hnone : (first :: rest).find? (fun entry => (candidates accepting bound entry.key).isEmpty) = none)
    (hforced : (first :: rest).find? (fun entry =>
      (candidates accepting bound entry.key).length = 1) = some forced)
    (howner : candidates accepting bound forced.key = [owner]) :
    bindUnproven accepting (first :: rest) bound
      = bindUnproven accepting ((first :: rest).erase forced) (bound ++ [⟨owner, forced⟩]) := by
  rw [bindUnproven, hnone]
  simp only
  split
  · next heq =>
    rw [hforced] at heq
    cases heq
  · next heq =>
    rw [hforced] at heq
    obtain rfl := Option.some.inj heq
    rw [howner, List.map_singleton]

/-- The loop binds the other keys where they have exactly one assignment, and as it says. -/
theorem bindUnproven_spec (haccepting : ∀ key, (accepting key).Nodup) (waiting : List IndexedKey)
    (bound : List Held) (hone : OneEach bound) (hnodup : (waiting.map (·.key)).Nodup) :
    match bindUnproven accepting waiting bound with
    | .ok held => ∃ f, AssignsOnly (Free accepting bound) {key | KeyOf waiting key} f ∧ OneEach held ∧
        ∀ provider key, Holds held provider key ↔
          Holds bound provider key ∨ KeyOf waiting key ∧ f key = provider
    | .error _ => ¬ HasUniqueAssignment (Free accepting bound) {key | KeyOf waiting key} := by
  induction waiting, bound using bindUnproven.induct accepting with
  | case1 bound =>
    rw [bindUnproven]
    refine ⟨fun _ => .openai, ⟨⟨?_, ?_⟩, ?_⟩, hone, fun provider key => ?_⟩
    · rintro key ⟨entry, hmem, -⟩
      cases hmem
    · rintro key ⟨entry, hmem, -⟩
      cases hmem
    · rintro g - key ⟨entry, hmem, -⟩
      cases hmem
    · simp [KeyOf]
  | case2 bound first rest entry hstuck =>
    rw [bindUnproven, hstuck]
    refine not_hasUniqueAssignment_of_stuck (k := entry.key)
      ⟨entry, List.mem_of_find?_eq_some hstuck, rfl⟩ fun provider hfree => ?_
    have hempty : (candidates accepting bound entry.key).isEmpty = true := by
      simpa only using List.find?_some hstuck
    rw [List.isEmpty_iff] at hempty
    have hmem := mem_candidates.mpr hfree
    rw [hempty] at hmem
    cases hmem
  | case3 bound first rest hnone hforced =>
    obtain ⟨e, he⟩ := bindUnproven_of_ambiguous hnone hforced
    rw [he]
    rintro ⟨f, hf⟩
    have hfinite : {key | KeyOf (first :: rest) key}.Finite :=
      ((first :: rest).map (·.key)).finite_toSet.subset fun key hkey => by
        obtain ⟨entry, hmem, rfl⟩ := hkey
        exact List.mem_map.mpr ⟨entry, hmem, rfl⟩
    obtain ⟨key, ⟨entry, hmem, rfl⟩, honly⟩ :=
      hf.exists_forced hfinite ⟨first.key, first, List.mem_cons_self, rfl⟩
    have hplace := mem_candidates.mpr (hf.assigns.accepted entry.key ⟨entry, hmem, rfl⟩)
    have hsingle : candidates accepting bound entry.key = [f entry.key] :=
      (eq_singleton_iff ((haccepting entry.key).filter _)).mpr
        ⟨hplace, fun provider hprovider => honly provider (mem_candidates.mp hprovider)⟩
    refine List.find?_eq_none.mp hforced entry hmem (decide_eq_true ?_)
    rw [hsingle, List.length_singleton]
  | case4 bound first rest hnone forced hforced hlt ih =>
    have hmem := List.mem_of_find?_eq_some hforced
    have hlength : (candidates accepting bound forced.key).length = 1 := by
      simpa using List.find?_some hforced
    obtain ⟨owner, howner⟩ := List.length_eq_one_iff.mp hlength
    rw [bindUnproven_of_forced hnone hforced howner]
    have honly : ∀ provider, Free accepting bound forced.key provider ↔ provider = owner := by
      intro provider
      rw [← mem_candidates, howner, List.mem_singleton]
    have hkey : forced.key ∈ {key | KeyOf (first :: rest) key} := ⟨forced, hmem, rfl⟩
    have hfree : holds bound owner = false := ((honly owner).mpr rfl).2
    have hleft := keyOf_erase hnodup hmem
    have hbind : Free accepting (bound ++ [⟨owner, forced⟩]) = Without (Free accepting bound) owner := by
      funext key provider
      exact propext free_bind
    rw [howner, List.map_singleton] at ih
    have hrest := ih (hone.concat hfree) (hnodup.sublist (List.erase_sublist.map _))
    rw [hleft, hbind] at hrest
    cases hresult : bindUnproven accepting ((first :: rest).erase forced) (bound ++ [⟨owner, forced⟩]) with
    | error e =>
      rw [hresult] at hrest
      exact fun hunique => hrest ((hasUniqueAssignment_iff_of_forced hkey honly).mp hunique)
    | ok held =>
      rw [hresult] at hrest
      obtain ⟨f, hf, honeEach, hholds⟩ := hrest
      refine ⟨Function.update f forced.key owner, ?_, honeEach, fun provider key => ?_⟩
      · refine (assignsOnly_iff_of_forced hkey honly).mpr ⟨Function.update_self .., ?_⟩
        exact hf.congr fun key hne => Function.update_of_ne hne.2 _ _
      · have herase : KeyOf ((first :: rest).erase forced) key
            ↔ KeyOf (first :: rest) key ∧ key ≠ forced.key := by
          have := Set.ext_iff.mp hleft key
          exact this
        rw [hholds, holds_append_single, herase, or_assoc]
        refine or_congr Iff.rfl ?_
        by_cases heq : key = forced.key
        · subst heq
          simp only [Function.update_self, ne_eq, not_true, and_false, false_and, or_false, and_true]
          exact ⟨fun h => ⟨hkey, h.symm⟩, fun h => h.2.symm⟩
        · simp only [heq, and_false, false_or, Function.update_of_ne heq, ne_eq, not_false_eq_true,
            and_true]

end

/-! ### The binding of a set of keys -/

section

variable (casefold : String → String) (request : MatchRequest) (keys : String → Prop)

def unprovenIn : Set String := {key | keys key ∧ IsUnproven key}

def Open (key : String) (provider : ModelProvider) : Prop :=
  provider ∈ request.accepting casefold key ∧
    ¬ ∃ proven, keys proven ∧ providerOf proven = some provider

/-- The key is the only one that proves no provider, and one keyless primary accepts it. -/
structure IsLone (key : String) (owner : ModelProvider) : Prop where
  alone : unprovenIn keys = {key}
  primary : owner ∈ request.primaries casefold
  isOpen : Open casefold request keys key owner
  only : ∀ provider ∈ request.primaries casefold, Open casefold request keys key provider →
    provider = owner

def Binds (provider : ModelProvider) (key : String) : Prop :=
  (keys key ∧ providerOf key = some provider) ∨ IsLone casefold request keys key provider ∨
    (¬ ∃ lone owner, IsLone casefold request keys lone owner) ∧ key ∈ unprovenIn keys ∧
      ∃ f, AssignsOnly (Open casefold request keys) (unprovenIn keys) f ∧ f key = provider

structure Bindable : Prop where
  once : ProvenOnce keys
  accepted : ∀ key ∈ unprovenIn keys, request.accepting casefold key ≠ []
  unique : (∃ key owner, IsLone casefold request keys key owner) ∨
    HasUniqueAssignment (Open casefold request keys) (unprovenIn keys)
  primaries : request.requirePrimaryKey = true →
    (∃ provider key, Binds casefold request keys provider key) →
      ∀ primary ∈ request.primaries casefold, ∃ key, Binds casefold request keys primary key

end

section

variable {casefold : String → String} {request : MatchRequest} {keys : List IndexedKey}
  {proven : List Held} {unproven : List IndexedKey}

theorem primaries_nodup : (request.primaries casefold).Nodup := nodup_eraseDups _

theorem configured_nodup : (request.configured casefold).Nodup := by
  refine List.nodup_append.mpr ⟨primaries_nodup, (nodup_eraseDups _).filter _, ?_⟩
  rintro provider hprimary _ hother rfl
  simpa [hprimary] using (List.mem_filter.mp hother).2

theorem accepting_nodup (casefold : String → String) (request : MatchRequest) (key : String) : (request.accepting casefold key).Nodup :=
  configured_nodup.filter _

theorem open_iff_free (hproven : ∀ provider key,
      Holds proven provider key ↔ KeyOf keys key ∧ providerOf key = some provider)
    (key : String) (provider : ModelProvider) :
    Open casefold request (KeyOf keys) key provider
      ↔ Free (request.accepting casefold) proven key provider := by
  refine and_congr Iff.rfl ?_
  rw [← Bool.not_eq_true, holds_iff]
  exact not_congr (exists_congr fun key' => (hproven provider key').symm)

theorem mem_lonePrimaries {key : String} {provider : ModelProvider} :
    provider ∈ lonePrimaries (request.primaries casefold) proven (request.accepting casefold) key ↔
      provider ∈ request.primaries casefold ∧ Free (request.accepting casefold) proven key provider := by
  simp [lonePrimaries, Free, and_comm]

theorem bindLone_spec (casefold : String → String) (request : MatchRequest) (hproven : ∀ provider key,
      Holds proven provider key ↔ KeyOf keys key ∧ providerOf key = some provider)
    (hnodup : (unproven.map (·.key)).Nodup)
    (hunproven : {key | KeyOf unproven key} = unprovenIn (KeyOf keys)) :
    (∃ entry owner, unproven = [entry] ∧ IsLone casefold request (KeyOf keys) entry.key owner ∧
        bindLone casefold request unproven proven = (proven ++ [⟨owner, entry⟩], [])) ∨
      (¬ ∃ key owner, IsLone casefold request (KeyOf keys) key owner) ∧
        bindLone casefold request unproven proven = (proven, unproven) := by
  by_cases hlone : ∃ key owner, IsLone casefold request (KeyOf keys) key owner
  · obtain ⟨key, owner, h⟩ := hlone
    have hkeys : {k | KeyOf unproven k} = {key} := hunproven.trans h.alone
    have hmap : unproven.map (·.key) = [key] := by
      refine (eq_singleton_iff hnodup).mpr ⟨?_, fun k hk => ?_⟩
      · exact List.mem_map.mpr (hkeys.symm ▸ Set.mem_singleton key : key ∈ {k | KeyOf unproven k})
      · exact (hkeys ▸ List.mem_map.mp hk : k ∈ ({key} : Set String))
    obtain ⟨entry, rfl, rfl⟩ := List.map_eq_singleton_iff.mp hmap
    have howners : lonePrimaries (request.primaries casefold) proven (request.accepting casefold)
        entry.key = [owner] := by
      refine (eq_singleton_iff (primaries_nodup.filter _)).mpr ⟨?_, fun provider hprovider => ?_⟩
      · exact mem_lonePrimaries.mpr ⟨h.primary, (open_iff_free hproven _ _).mp h.isOpen⟩
      · obtain ⟨hprimary, hfree⟩ := mem_lonePrimaries.mp hprovider
        exact h.only provider hprimary ((open_iff_free hproven _ _).mpr hfree)
    refine .inl ⟨entry, owner, rfl, h, ?_⟩
    simp only [bindLone, howners]
  · refine .inr ⟨hlone, ?_⟩
    unfold bindLone
    split
    · next entry =>
      split
      · next owner howners =>
        refine absurd ⟨entry.key, owner, ?_⟩ hlone
        obtain ⟨hmem, honly⟩ := (eq_singleton_iff (primaries_nodup.filter _)).mp howners
        obtain ⟨hprimary, hfree⟩ := mem_lonePrimaries.mp hmem
        refine ⟨?_, hprimary, (open_iff_free hproven _ _).mpr hfree, fun provider hprovider hopen => ?_⟩
        · rw [← hunproven]
          ext k
          simp [KeyOf, eq_comm]
        · exact honly provider (mem_lonePrimaries.mpr
            ⟨hprovider, (open_iff_free hproven _ _).mp hopen⟩)
      · rfl
    · rfl

theorem refuseUnaccepted_spec (unproven : List IndexedKey) (accepting : String → List ModelProvider)
    (configured : List ModelProvider) :
    refuseUnaccepted unproven accepting configured = .ok () ↔
      ∀ key, KeyOf unproven key → accepting key ≠ [] := by
  unfold refuseUnaccepted
  cases hfind : unproven.find? fun entry => (accepting entry.key).isEmpty with
  | none =>
    refine iff_of_true rfl ?_
    rintro _ ⟨entry, hmem, rfl⟩ hempty
    exact List.find?_eq_none.mp hfind entry hmem (List.isEmpty_iff.mpr hempty)
  | some entry =>
    refine iff_of_false nofun fun h => h entry.key ⟨entry, List.mem_of_find?_eq_some hfind, rfl⟩ ?_
    simpa using List.find?_some hfind

theorem requirePrimaryKeys_spec {primaries : List ModelProvider} {held : List Held} :
    requirePrimaryKeys primaries held = .ok () ↔
      ∀ primary ∈ primaries, ∃ key, Holds held primary key := by
  unfold requirePrimaryKeys
  cases hfind : primaries.find? fun provider => !holds held provider with
  | none =>
    refine iff_of_true rfl fun primary hmem => ?_
    rw [← holds_iff]
    simpa using List.find?_eq_none.mp hfind primary hmem
  | some missing =>
    refine iff_of_false nofun fun h => ?_
    have hholds := holds_iff.mpr (h missing (List.mem_of_find?_eq_some hfind))
    have hmissing := List.find?_some hfind
    simp [hholds] at hmissing

theorem isEmpty_eq_false_iff {held : List Held} :
    held.isEmpty = false ↔ ∃ provider key, Holds held provider key := by
  cases held with
  | nil => simp [Holds]
  | cons row rest => simpa [Holds] using ⟨row.provider, row.bound.key, row.bound.index, .inl rfl⟩

theorem require_spec {held : List Held}
    (hholds : ∀ provider key, Holds held provider key ↔ Binds casefold request (KeyOf keys) provider key) :
    (if request.requirePrimaryKey && !held.isEmpty then
        requirePrimaryKeys (request.primaries casefold) held else pure ()) = .ok () ↔
      (request.requirePrimaryKey = true →
        (∃ provider key, Binds casefold request (KeyOf keys) provider key) →
          ∀ primary ∈ request.primaries casefold,
            ∃ key, Binds casefold request (KeyOf keys) primary key) := by
  simp only [← hholds, ← isEmpty_eq_false_iff]
  by_cases hcond : request.requirePrimaryKey = true ∧ held.isEmpty = false
  · rw [if_pos (by simpa using hcond), requirePrimaryKeys_spec]
    exact ⟨fun h _ _ => h, fun h => h hcond.1 hcond.2⟩
  · rw [if_neg (by simpa using hcond)]
    exact iff_of_true rfl fun hrequire hheld => absurd ⟨hrequire, hheld⟩ hcond

theorem IsLone.unique {keys : String → Prop} {key key' : String} {owner owner' : ModelProvider}
    (h : IsLone casefold request keys key owner) (h' : IsLone casefold request keys key' owner') :
    key = key' ∧ owner = owner' := by
  obtain rfl : key = key' := Set.singleton_injective (h.alone.symm.trans h'.alone)
  exact ⟨rfl, h'.only owner h.primary h.isOpen⟩

theorem IsLone.mem {keys : String → Prop} {key : String} {owner : ModelProvider}
    (h : IsLone casefold request keys key owner) : key ∈ unprovenIn keys := by
  rw [h.alone]
  rfl

theorem key_of_binds {keys : String → Prop} {provider : ModelProvider} {key : String}
    (h : Binds casefold request keys provider key) : keys key := by
  rcases h with h | h | h
  · exact h.1
  · exact h.mem.1
  · exact h.2.1.1

theorem bindOthers_spec (casefold : String → String) (request : MatchRequest)
    (hone : OneEach proven) (hproven : ∀ provider key,
      Holds proven provider key ↔ KeyOf keys key ∧ providerOf key = some provider)
    (hnodup : (unproven.map (·.key)).Nodup)
    (hunproven : {key | KeyOf unproven key} = unprovenIn (KeyOf keys)) :
    match bindUnproven (request.accepting casefold) (bindLone casefold request unproven proven).2
      (bindLone casefold request unproven proven).1 with
    | .ok held => ((∃ key owner, IsLone casefold request (KeyOf keys) key owner) ∨
          HasUniqueAssignment (Open casefold request (KeyOf keys)) (unprovenIn (KeyOf keys))) ∧
        OneEach held ∧ ∀ provider key,
          Holds held provider key ↔ Binds casefold request (KeyOf keys) provider key
    | .error _ => ¬ ((∃ key owner, IsLone casefold request (KeyOf keys) key owner) ∨
        HasUniqueAssignment (Open casefold request (KeyOf keys)) (unprovenIn (KeyOf keys))) := by
  have hopen : Free (request.accepting casefold) proven = Open casefold request (KeyOf keys) := by
    funext key provider
    exact propext (open_iff_free hproven key provider).symm
  rcases bindLone_spec casefold request hproven hnodup hunproven with
    ⟨entry, owner, -, hlone, heq⟩ | ⟨hlone, heq⟩
  · rw [heq, bindUnproven]
    have hfree := ((open_iff_free hproven _ _).mp hlone.isOpen).2
    refine ⟨.inl ⟨_, _, hlone⟩, hone.concat hfree, fun provider key => ?_⟩
    rw [holds_append_single, hproven, Binds]
    refine or_congr Iff.rfl ?_
    constructor
    · rintro ⟨rfl, rfl⟩
      exact .inl hlone
    · rintro (h | ⟨hnot, -⟩)
      · exact ⟨(h.unique hlone).2, (h.unique hlone).1⟩
      · exact absurd ⟨_, _, hlone⟩ hnot
  · have hspec := bindUnproven_spec (accepting_nodup casefold request) unproven proven hone hnodup
    rw [hopen, hunproven] at hspec
    rw [heq]
    cases hbind : bindUnproven (request.accepting casefold) unproven proven with
    | error e =>
      rw [hbind] at hspec
      exact fun h => hspec (h.resolve_left hlone)
    | ok held =>
      rw [hbind] at hspec
      obtain ⟨f, hf, honeEach, hholds⟩ := hspec
      refine ⟨.inr ⟨f, hf⟩, honeEach, fun provider key => ?_⟩
      have hkey : KeyOf unproven key ↔ key ∈ unprovenIn (KeyOf keys) := by
        rw [← hunproven]
        rfl
      rw [hholds, hproven, hkey, Binds]
      refine or_congr Iff.rfl ?_
      constructor
      · rintro ⟨hmem, rfl⟩
        exact .inr ⟨hlone, hmem, f, hf, rfl⟩
      · rintro (h | ⟨-, hmem, g, hg, rfl⟩)
        · exact absurd ⟨_, _, h⟩ hlone
        · exact ⟨hmem, hg.eqOn f hf.assigns hmem⟩

/-- What `bindKeys` does is what the set of its keys says. -/
theorem bindKeys_spec (casefold : String → String) (request : MatchRequest) (keys : List IndexedKey) :
    match bindKeys casefold request keys with
    | .ok held => Bindable casefold request (KeyOf keys) ∧ OneEach held ∧ ∀ provider key,
        Holds held provider key ↔ Binds casefold request (KeyOf keys) provider key
    | .error _ => ¬ Bindable casefold request (KeyOf keys) := by
  have hbind := bindProven_spec [] keys List.nodup_nil (by rintro provider key ⟨index, hmem⟩; cases hmem)
  unfold bindKeys
  cases hproven : bindProven [] keys with
  | error e =>
    rw [hproven] at hbind
    refine fun h => hbind fun key key' provider hkey hkey' => h.once key key' provider ?_ ?_
    · exact hkey.resolve_left (by rintro ⟨provider, index, hmem⟩; cases hmem)
    · exact hkey'.resolve_left (by rintro ⟨provider, index, hmem⟩; cases hmem)
  | ok proven =>
    rw [hproven] at hbind
    obtain ⟨hone, hheld⟩ := hbind
    have hholds : ∀ provider key,
        Holds proven provider key ↔ KeyOf keys key ∧ providerOf key = some provider := by
      intro provider key
      rw [hheld]
      exact or_iff_right (by rintro ⟨index, hmem⟩; cases hmem)
    have honce : ProvenOnce (KeyOf keys) := by
      intro key key' provider hkey hkey' hp hp'
      exact hone.unique ((hholds provider key).mpr ⟨hkey, hp⟩) ((hholds provider key').mpr ⟨hkey', hp'⟩)
    obtain ⟨hnodup, hmem⟩ := unprovenKeys_spec [] keys List.nodup_nil
    have hunproven : {key | KeyOf (unprovenKeys [] keys) key} = unprovenIn (KeyOf keys) := by
      ext key
      refine (hmem key).trans (or_iff_right ?_)
      rintro ⟨entry, hentry, -⟩
      cases hentry
    have hothers := bindOthers_spec casefold request hone hholds hnodup hunproven
    have haccepted := refuseUnaccepted_spec (unprovenKeys [] keys) (request.accepting casefold)
      (request.configured casefold)
    have haccepted' : (∀ key, KeyOf (unprovenKeys [] keys) key → request.accepting casefold key ≠ []) ↔
        ∀ key ∈ unprovenIn (KeyOf keys), request.accepting casefold key ≠ [] := by
      rw [← hunproven]
      rfl
    rw [haccepted'] at haccepted
    cases hrefuse : refuseUnaccepted (unprovenKeys [] keys) (request.accepting casefold)
        (request.configured casefold) with
    | error e =>
      rw [hrefuse] at haccepted
      simp only [bind, Except.bind, hrefuse]
      exact fun h => absurd (haccepted.mpr h.accepted) nofun
    | ok _ =>
      simp only [bind, Except.bind, hrefuse]
      cases hbound : bindUnproven (request.accepting casefold)
          (bindLone casefold request (unprovenKeys [] keys) proven).2
          (bindLone casefold request (unprovenKeys [] keys) proven).1 with
      | error e =>
        rw [hbound] at hothers
        exact fun h => hothers h.unique
      | ok held =>
        rw [hbound] at hothers
        obtain ⟨hunique, honeEach, hbinds⟩ := hothers
        have hrequire := require_spec hbinds
        have hbindable := fun hprimaries =>
          (⟨honce, haccepted.mp hrefuse, hunique, hprimaries⟩ : Bindable casefold request (KeyOf keys))
        simp only
        by_cases hcond : (request.requirePrimaryKey && !held.isEmpty) = true
        · rw [if_pos hcond] at hrequire ⊢
          cases hprimaries : requirePrimaryKeys (request.primaries casefold) held with
          | error e =>
            rw [hprimaries] at hrequire
            exact fun h => absurd (hrequire.mpr h.primaries) nofun
          | ok _ => exact ⟨hbindable (hrequire.mp hprimaries), honeEach, hbinds⟩
        · rw [if_neg hcond] at hrequire ⊢
          exact ⟨hbindable (hrequire.mp rfl), honeEach, hbinds⟩

end

/-! ### The match -/

section

variable (casefold : String → String) (request : MatchRequest)

/-- Every entry is usable, the keys can be bound without a guess, and they name at most one Vidbyte key,
a live one. -/
structure Matchable (api_keys : List ListEntry) : Prop where
  usable : ∀ entry ∈ api_keys, entry.IsUsable
  bindable : Bindable casefold request (UsableKey api_keys)
  vidbyte : ∃ vidbyte, IsVidbyteKeyOf request.explicit (UsableKey api_keys) vidbyte ∧
    ∀ key ∈ vidbyte, isVidbyteKey key = true

theorem IsVidbyteKeyOf.unique {explicit vidbyte vidbyte' : Option String} {keys : String → Prop}
    (h : IsVidbyteKeyOf explicit keys vidbyte) (h' : IsVidbyteKeyOf explicit keys vidbyte') :
    vidbyte = vidbyte' :=
  Option.ext fun key => (h key).symm.trans (h' key)

theorem create_spec {held : List Held} (vidbyte : Option String) (primary others : List ModelProvider)
    (hone : OneEach held) (hstripped : ∀ provider key, Holds held provider key → IsStripped key) :
    match ProviderKeys.create ((inOrder held).map (·.provider)) ((inOrder held).map (·.bound.key)) vidbyte
      primary others with
    | .ok record => (∀ key ∈ vidbyte, isVidbyteKey key = true) ∧ record.vidbyteApiKey = vidbyte ∧
        ∀ provider key, (provider, key) ∈ record.rows ↔ Holds held provider key
    | .error _ => ¬ ∀ key ∈ vidbyte, isVidbyteKey key = true := by
  have hperm : (inOrder held).Perm held := List.mergeSort_perm _ _
  have hnodup : ((inOrder held).map (·.provider)).Nodup := (hperm.map _).nodup_iff.mpr hone
  have hlength : ((inOrder held).map (·.bound.key)).length = ((inOrder held).map (·.provider)).length := by
    rw [List.length_map, List.length_map]
  have hkeys : ∀ key ∈ (inOrder held).map (·.bound.key), IsStripped key := by
    intro key hkey
    obtain ⟨row, hrow, rfl⟩ := List.mem_map.mp hkey
    exact hstripped row.provider row.bound.key ⟨row.bound.index, hperm.mem_iff.mp hrow⟩
  unfold ProviderKeys.create
  rw [dif_pos hnodup, dif_pos hlength, dif_pos hkeys]
  by_cases hvidbyte : ∀ key ∈ vidbyte, isVidbyteKey key = true
  · rw [dif_pos hvidbyte]
    refine ⟨hvidbyte, rfl, fun provider key => ?_⟩
    simp only [ProviderKeys.rows, List.zip_map', List.mem_map, Prod.mk.injEq, Holds, hperm.mem_iff]
    constructor
    · rintro ⟨row, hmem, rfl, rfl⟩
      exact ⟨row.bound.index, hmem⟩
    · rintro ⟨index, hmem⟩
      exact ⟨_, hmem, rfl, rfl⟩
  · rw [dif_neg hvidbyte]
    exact hvidbyte

theorem matchList_spec (api_keys : List ListEntry) :
    match matchList casefold request api_keys with
    | .ok record => Matchable casefold request api_keys ∧
        IsVidbyteKeyOf request.explicit (UsableKey api_keys) record.vidbyteApiKey ∧
        ∀ provider key, (provider, key) ∈ record.rows ↔
          Binds casefold request (UsableKey api_keys) provider key
    | .error _ => ¬ Matchable casefold request api_keys := by
  have hentries := entries_spec 0 api_keys
  cases hkeys : entries 0 api_keys with
  | error e =>
    rw [hkeys] at hentries
    simp only [matchList, hkeys, bind, Except.bind]
    exact fun h => hentries h.usable
  | ok keys =>
    rw [hkeys] at hentries
    obtain ⟨husable, hkeyOf⟩ := hentries
    have hset : KeyOf keys = UsableKey api_keys := funext fun key => propext (hkeyOf key)
    have hvidbyte := vidbyteKey_spec request.explicit none keys
    have hbind := bindKeys_spec casefold request keys
    rw [hset] at hvidbyte hbind
    cases hfound : vidbyteKey request.explicit none keys with
    | error e =>
      simp only [matchList, hkeys, hfound, bind, Except.bind]
      rintro ⟨-, -, vidbyte, hv, -⟩
      exact absurd ((hvidbyte vidbyte).mpr hv) (by rw [hfound]; nofun)
    | ok vidbyte =>
      have hv := (hvidbyte vidbyte).mp hfound
      cases hheld : bindKeys casefold request keys with
      | error e =>
        rw [hheld] at hbind
        simp only [matchList, hkeys, hfound, hheld, bind, Except.bind]
        exact fun h => hbind h.bindable
      | ok held =>
        rw [hheld] at hbind
        obtain ⟨hbindable, hone, hholds⟩ := hbind
        have hstripped : ∀ provider key, Holds held provider key → IsStripped key := by
          intro provider key hkey
          exact isStripped_of_isPrintable
            (isPrintable_of_usable husable (key_of_binds ((hholds provider key).mp hkey)))
        have hcreate := create_spec vidbyte (request.primaries casefold) (request.otherNames casefold)
          hone hstripped
        simp only [matchList, hkeys, hfound, hheld, bind, Except.bind]
        split at hcreate
        · next record hrecord =>
          obtain ⟨hformat, hsame, hrows⟩ := hcreate
          refine ⟨⟨husable, hbindable, vidbyte, hv, hformat⟩, ?_, fun provider key => ?_⟩
          · rw [hsame]
            exact hv
          · rw [hrows, hholds]
        · next e he =>
          rintro ⟨-, -, vidbyte', hv', hformat⟩
          rw [hv'.unique hv] at hformat
          exact hcreate hformat

/-- The record binds the keys where they must be: a key that proves its provider to that one, and the
others as the only assignment of them says, or, a lone one, to the one keyless primary that takes it. -/
structure BoundAsForced (keys : String → Prop) (record : ProviderKeys) : Prop where
  only : ∀ row ∈ record.rows, keys row.2
  proven : ∀ key provider, keys key → providerOf key = some provider → (provider, key) ∈ record.rows
  unproven : ∀ key ∈ unprovenIn keys, ∃ provider ∈ request.configured casefold,
    acceptsUnproven provider key = true ∧ (provider, key) ∈ record.rows
  forced : (∃ key owner, IsLone casefold request keys key owner ∧ (owner, key) ∈ record.rows) ∨
    ∃ f, AssignsOnly (Open casefold request keys) (unprovenIn keys) f ∧
      ∀ key ∈ unprovenIn keys, (f key, key) ∈ record.rows
  owned : ∀ row ∈ record.rows, ∀ rule ∈ reserved, startsWith row.2 rule.1 = true → row.1 = rule.2

variable {casefold request}

theorem fits_of_binds (husable : ∀ entry ∈ api_keys, entry.IsUsable)
    {provider : ModelProvider} {key : String}
    (h : Binds casefold request (UsableKey api_keys) provider key) : fits provider key = true := by
  have hprintable := isPrintable_of_usable husable (key_of_binds h)
  have hopen : Open casefold request (UsableKey api_keys) key provider →
      acceptsUnproven provider key = true := fun hopen => (List.mem_filter.mp hopen.1).2
  have hunproven : key ∈ unprovenIn (UsableKey api_keys) → acceptsUnproven provider key = true →
      fits provider key = true := by
    intro hmem haccepts
    simp [fits, hprintable, hmem.2.1, hmem.2.2, haccepts]
  rcases h with ⟨-, hproven⟩ | hlone | ⟨-, hmem, f, hf, rfl⟩
  · simp [fits, hprintable, not_vidbyte_of_providerOf hproven, hproven]
  · exact hunproven hlone.mem (hopen hlone.isOpen)
  · exact hunproven hmem (hopen (hf.assigns.accepted key hmem))

theorem owned_of_fits {provider owner : ModelProvider} {key text : String} (h : fits provider key = true)
    (hreserved : (text, owner) ∈ reserved) (hstarts : startsWith key text = true) : provider = owner := by
  rw [fits, Bool.and_eq_true] at h
  obtain ⟨-, h⟩ := h
  cases hproven : providerOf key with
  | none =>
    rw [hproven] at h
    exact owner_of_acceptsUnproven hreserved hstarts h
  | some proven =>
    rw [hproven] at h
    obtain rfl : proven = provider := by simpa using h
    obtain ⟨text', hmem, hstarts'⟩ := exists_reserved_of_providerOf hproven
    exact owner_unique hmem hreserved hstarts' hstarts

variable {record : ProviderKeys}

theorem boundAsForced (hmatch : Matchable casefold request api_keys)
    (hrows : ∀ provider key, (provider, key) ∈ record.rows ↔
      Binds casefold request (UsableKey api_keys) provider key) :
    BoundAsForced casefold request (UsableKey api_keys) record := by
  have hlone : ∀ key owner, IsLone casefold request (UsableKey api_keys) key owner →
      (owner, key) ∈ record.rows := fun key owner h => (hrows owner key).mpr (.inr (.inl h))
  have hforced : ∀ f, (¬ ∃ key owner, IsLone casefold request (UsableKey api_keys) key owner) →
      AssignsOnly (Open casefold request (UsableKey api_keys)) (unprovenIn (UsableKey api_keys)) f →
      ∀ key ∈ unprovenIn (UsableKey api_keys), (f key, key) ∈ record.rows :=
    fun f hno hf key hmem => (hrows _ key).mpr (.inr (.inr ⟨hno, hmem, f, hf, rfl⟩))
  have hconfigured : ∀ key provider, Open casefold request (UsableKey api_keys) key provider →
      provider ∈ request.configured casefold ∧ acceptsUnproven provider key = true :=
    fun key provider h => List.mem_filter.mp h.1
  constructor
  · exact fun row hrow => key_of_binds ((hrows _ _).mp hrow)
  · exact fun key provider hkey hproven => (hrows _ _).mpr (.inl ⟨hkey, hproven⟩)
  · intro key hmem
    by_cases hno : ∃ key owner, IsLone casefold request (UsableKey api_keys) key owner
    · obtain ⟨lone, owner, h⟩ := hno
      obtain rfl : key = lone := by
        rw [h.alone] at hmem
        exact hmem
      obtain ⟨hconf, haccepts⟩ := hconfigured key owner h.isOpen
      exact ⟨owner, hconf, haccepts, hlone key owner h⟩
    · obtain ⟨f, hf⟩ := hmatch.bindable.unique.resolve_left hno
      obtain ⟨hconf, haccepts⟩ := hconfigured key (f key) (hf.assigns.accepted key hmem)
      exact ⟨f key, hconf, haccepts, hforced f hno hf key hmem⟩
  · by_cases hno : ∃ key owner, IsLone casefold request (UsableKey api_keys) key owner
    · obtain ⟨lone, owner, h⟩ := hno
      exact .inl ⟨lone, owner, h, hlone lone owner h⟩
    · obtain ⟨f, hf⟩ := hmatch.bindable.unique.resolve_left hno
      exact .inr ⟨f, hf, hforced f hno hf⟩
  · intro row hrow rule hrule hstarts
    exact owned_of_fits (fits_of_binds hmatch.usable ((hrows _ _).mp hrow)) hrule hstarts

theorem matchRecord_eq (again : MatchRequest)
    (hfits : ∀ row ∈ record.rows, fits row.1 row.2 = true)
    (hvidbyte : again.explicit = none ∨ again.explicit = record.vidbyteApiKey) :
    matchRecord again record = .ok record := by
  have hcheck : checkRecord record = .ok () := by
    unfold checkRecord
    cases hfind : record.rows.findIdx? fun row => !fits row.1 row.2 with
    | none => rfl
    | some index =>
      obtain ⟨hlt, hmisfit, -⟩ := List.findIdx?_eq_some_iff_getElem.mp hfind
      rw [hfits _ (List.getElem_mem hlt)] at hmisfit
      cases hmisfit
  simp only [matchRecord, hcheck, bind, Except.bind]
  rcases hvidbyte with hnone | hsame
  · rw [hnone]
    rfl
  · rw [hsame]
    cases record.vidbyteApiKey with
    | none => rfl
    | some key =>
      simp only [if_true]
      rfl

theorem keyFor_eq_some {provider : ModelProvider} {key : String} :
    record.keyFor provider = some key ↔ (provider, key) ∈ record.rows := by
  have hnodup : (record.rows.map Prod.fst).Nodup := by
    rw [ProviderKeys.rows, List.map_fst_zip record.length_eq.ge]
    exact record.nodup
  rw [ProviderKeys.keyFor, List.lookup_eq_some_iff]
  constructor
  · rintro ⟨before, after, heq, -⟩
    rw [heq]
    exact List.mem_append_right _ List.mem_cons_self
  · intro hmem
    obtain ⟨before, after, heq⟩ := List.append_of_mem hmem
    refine ⟨before, after, heq, fun row hrow => ?_⟩
    rw [heq, List.map_append, List.nodup_append] at hnodup
    have hne := hnodup.2.2 row.1 (List.mem_map_of_mem hrow) provider (by simp)
    simpa [bne_iff_ne] using hne.symm

/-- Two matches give every provider the same key, or both refuse. -/
def SameBinding : Except KeyError ProviderKeys → Except KeyError ProviderKeys → Prop
  | .ok record, .ok record' =>
    (∀ provider, record.keyFor provider = record'.keyFor provider) ∧
      record.vidbyteApiKey = record'.vidbyteApiKey
  | .error _, .error _ => True
  | _, _ => False

theorem sameBinding_of_perm {api_keys permuted : List ListEntry} (hperm : permuted.Perm api_keys) :
    SameBinding (matchList casefold request api_keys) (matchList casefold request permuted) := by
  have hkeys : UsableKey permuted = UsableKey api_keys := by
    funext key
    exact propext (exists_congr fun entry => and_congr hperm.mem_iff Iff.rfl)
  have hmatchable : Matchable casefold request permuted ↔ Matchable casefold request api_keys := by
    constructor
    · rintro ⟨husable, hbindable, hvidbyte⟩
      rw [hkeys] at hbindable hvidbyte
      exact ⟨fun entry hmem => husable entry (hperm.mem_iff.mpr hmem), hbindable, hvidbyte⟩
    · rintro ⟨husable, hbindable, hvidbyte⟩
      rw [← hkeys] at hbindable hvidbyte
      exact ⟨fun entry hmem => husable entry (hperm.mem_iff.mp hmem), hbindable, hvidbyte⟩
  have hspec := matchList_spec casefold request api_keys
  have hspec' := matchList_spec casefold request permuted
  cases hmatch : matchList casefold request api_keys with
  | error e =>
    rw [hmatch] at hspec
    cases hmatch' : matchList casefold request permuted with
    | error e' => trivial
    | ok record' =>
      rw [hmatch'] at hspec'
      exact hspec (hmatchable.mp hspec'.1)
  | ok record =>
    rw [hmatch] at hspec
    cases hmatch' : matchList casefold request permuted with
    | error e' =>
      rw [hmatch'] at hspec'
      exact hspec' (hmatchable.mpr hspec.1)
    | ok record' =>
      rw [hmatch'] at hspec'
      obtain ⟨-, hvidbyte, hrows⟩ := hspec
      obtain ⟨-, hvidbyte', hrows'⟩ := hspec'
      rw [hkeys] at hvidbyte' hrows'
      refine ⟨fun provider => Option.ext fun key => ?_, hvidbyte.unique hvidbyte'⟩
      rw [keyFor_eq_some, keyFor_eq_some, hrows, hrows']

/-- **A key is bound only where it must be.** A match that returns puts every key where its prefix or the
only assignment puts it, whatever the order of the list, and the record it returns passes through a match
again; where there is not exactly one assignment, and no lone key for a keyless primary, it raises. -/
theorem keys_bound_where_forced (casefold : String → String) (request : MatchRequest)
    (api_keys : List ListEntry) :
    (∀ record, matchList casefold request api_keys = .ok record →
      BoundAsForced casefold request (UsableKey api_keys) record ∧
        matchRecord request record = .ok record ∧
        ∀ again : MatchRequest, again.explicit = none ∨ again.explicit = record.vidbyteApiKey →
          matchRecord again record = .ok record) ∧
    ((¬ ∃ key owner, IsLone casefold request (UsableKey api_keys) key owner) →
      ¬ HasUniqueAssignment (Open casefold request (UsableKey api_keys)) (unprovenIn (UsableKey api_keys)) →
        ∃ e, matchList casefold request api_keys = .error e) ∧
    ∀ permuted : List ListEntry, permuted.Perm api_keys →
      SameBinding (matchList casefold request api_keys) (matchList casefold request permuted) := by
  have hspec := matchList_spec casefold request api_keys
  refine ⟨fun record hrecord => ?_, fun hlone hunique => ?_, fun permuted => sameBinding_of_perm⟩
  · rw [hrecord] at hspec
    obtain ⟨hmatchable, hvidbyte, hrows⟩ := hspec
    have hfits : ∀ row ∈ record.rows, fits row.1 row.2 = true := fun row hrow =>
      fits_of_binds hmatchable.usable ((hrows _ _).mp hrow)
    have hsame : request.explicit = none ∨ request.explicit = record.vidbyteApiKey := by
      cases hexplicit : request.explicit with
      | none => exact .inl rfl
      | some key => exact .inr ((hvidbyte key).mp (.inl hexplicit)).symm
    exact ⟨boundAsForced hmatchable hrows, matchRecord_eq request hfits hsame,
      fun again => matchRecord_eq again hfits⟩
  · cases hmatch : matchList casefold request api_keys with
    | error e => exact ⟨e, rfl⟩
    | ok record =>
      rw [hmatch] at hspec
      exact absurd hspec.1.bindable.unique (not_or.mpr ⟨hlone, hunique⟩)

end

end VidbyteSdk.Registries
