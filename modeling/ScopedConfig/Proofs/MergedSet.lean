import ScopedConfig.Proofs.Canonical
import ScopedConfig.Proofs.Distinct
import ScopedConfig.Proofs.KeyedMerge
import ScopedConfig.Proofs.Unmixed

/-!
# Keys of a merged set

The items of a merged set have the keys under which they were merged, and no key comes twice. There
are two exceptions, and both are about items that both sides have. A strategy may give another text
than the one that both sides have as the identity. And an item that is told apart by its whole
content is another whole once it has taken a property from the parent's item.
-/

namespace ScopedConfig

namespace Merge

open Schema Node Stamp ScopedConfig.Except

variable {rules : Rules} {place : String} {p : Property}

/-! ## When a key changes -/

/-- The child is told apart by its whole content, and lacks a property of the parent. -/
def Outgrows (s : Schema) (p : Property) (parent child : Node) : Prop :=
  child.kind = .complex ∧ identityOf? s p child = some .content ∧
    ∃ name, child.property? name = none ∧ parent.property? name ≠ none

/-- What the two sides have at a key comes to an item with another key. -/
def MovesKey (rules : Rules) (p : Property) : ItemPolicy → Option Node → Option Node → Prop
  | .useChild, some parent, some child => Outgrows rules.schema p parent child
  | .merge, some parent, some child =>
    ∃ type, rules.schema.find? p.typeName = some type ∧ RewritesIdentity rules type parent child
  | _, _, _ => False

def Moves (rules : Rules) (p : Property) (parent : Node) (above own : List (String × Node))
    (key : String) : Prop :=
  MovesKey rules p (effectiveItemPolicy p parent) (above.lookup key) (own.lookup key)

/-! ## Completed items -/

theorem fieldParts_of_same_lookup {own others : List (String × Node)} (hown : Keyed.Sorted own)
    (hothers : Keyed.Sorted others) (h : ∀ name, own.lookup name = others.lookup name) :
    fieldParts own = fieldParts others := by
  refine fieldParts_of_lookup hown hothers (fun name => ?_) fun name m n hm hn => ?_
  · rw [← Keyed.lookup_isSome_iff, ← Keyed.lookup_isSome_iff, h]
  · rw [Option.some.inj ((hm.symm.trans (h name)).trans hn)]

theorem fingerprint_completed {parent node : Node} {info : Info} {own : List (String × Node)}
    {declared : List String} (hown : Keyed.Sorted own)
    (h : IsCompleted parent (.complex info own declared) node) :
    node.fingerprint = (Node.complex info own declared).fingerprint ↔
      ¬ ∃ name, own.lookup name = none ∧ parent.property? name ≠ none := by
  obtain ⟨filled, rfl, hfilled, hlookup⟩ := h
  constructor
  · rintro hsame ⟨name, hnone, hsome⟩
    obtain ⟨_, _, _, heq, -, hparts⟩ := eq_of_fingerprint_complex hsame
    cases heq
    have hname : (filled.lookup name).map fingerprint = (own.lookup name).map fingerprint :=
      lookup_of_fieldParts hparts
    rw [hlookup, hnone, Option.none_or, Option.map_none, Option.map_eq_none_iff] at hname
    exact hsome hname
  · intro hnone
    have hsame : fieldParts filled = fieldParts own := by
      refine fieldParts_of_same_lookup hfilled hown fun name => ?_
      rw [hlookup]
      cases hname : own.lookup name with
      | some n => rfl
      | none => exact by_contra fun hsome => hnone ⟨name, hname, hsome⟩
    rw [fingerprint_inj, fingerprintChars, fingerprintChars, fieldChars_congr hsame]

theorem completed_key {parent child node : Node} {key : String}
    (hchild : child.isOrdered = true) (hkey : rules.schema.itemKey p place child = .ok key)
    (h : IsCompleted parent child node) :
    ∃ k, rules.schema.itemKey p place node = .ok k ∧
      (k = key ↔ ¬ Outgrows rules.schema p parent child) := by
  cases child with
  | simple | list | set | map =>
    cases h
    exact ⟨key, hkey, iff_of_true rfl fun hgrows => by cases hgrows.1⟩
  | complex info own declared =>
    have hcompleted := fingerprint_completed (complex_ordered_iff.1 hchild).1 h
    obtain ⟨filled, rfl, -, hlookup⟩ := h
    have hsame : identityOf? rules.schema p (.complex info filled declared) =
        identityOf? rules.schema p (.complex info own declared) := rfl
    rw [itemKey_eq_ok] at hkey
    cases hidentity : identityOf? rules.schema p (.complex info own declared) with
    | none => simp [hidentity] at hkey
    | some identity =>
      rw [hidentity, Option.bind_some] at hkey
      cases identity with
      | property name =>
        -- The identity is not lacking, so it stays.
        obtain ⟨value, hvalue, hfingerprint⟩ := Option.map_eq_some_iff.1 hkey
        have hstays : filled.lookup name = some value := by
          rw [hlookup, show own.lookup name = some value from hvalue, Option.some_or]
        refine ⟨key, itemKey_eq_ok.2 ?_, iff_of_true rfl fun hgrows => ?_⟩
        · rw [hsame, hidentity, Option.bind_some]
          simp [Identity.key?, property?, properties?, hstays, hfingerprint]
        · cases hidentity.symm.trans hgrows.2.1
      | content =>
        obtain rfl : (Node.complex info own declared).fingerprint = key := Option.some.inj hkey
        refine ⟨_, itemKey_eq_ok.2 (by rw [hsame, hidentity]; rfl), hcompleted.trans ?_⟩
        exact not_congr ⟨fun hlacks => ⟨rfl, hidentity, hlacks⟩, fun hgrows => hgrows.2.2⟩

/-! ## All items -/

theorem item_of_entries {n item : Node} {entries : List (String × Node)} {key : String}
    (hkind : n.kind = .set) (h : HasEntries rules.schema p place n entries)
    (hitem : entries.lookup key = some item) :
    item ∈ n.items?.getD [] ∧ rules.schema.itemKey p place item = .ok key := by
  have hmem := Keyed.mem_of_lookup hitem
  cases n with
  | set info own =>
    obtain ⟨rfl, hkeys⟩ := h
    exact ⟨List.mem_map_of_mem hmem, hkeys _ hmem⟩
  | simple | complex | list | map => cases hkind

theorem merged_items_concrete (hchecked : Checked rules.schema rules.strategies p)
    (hkind : p.kind = .set) (hmerge : p.policy.item = .merge) :
    p.polymorphic = false ∧ p.itemKind = .complex := by
  have hpolicy := hchecked.policy
  simp only [Property.misuse?, hkind, if_pos hmerge] at hpolicy
  split at hpolicy
  · cases hpolicy
  · split at hpolicy
    · cases hpolicy
    · cases hitem : p.itemKind <;> simp_all

theorem standsFor_key (hvalid : rules.schema.validate rules.strategies = .ok ())
    (hchecked : Checked rules.schema rules.strategies p) (hkind : p.kind = .set)
    {policy : ItemPolicy} (hpolicy : policy = .merge → p.policy.item = .merge)
    {above own : Option Node} {key : String} {node : Node}
    (habove : ∀ a, above = some a → rules.schema.itemKey p place a = .ok key)
    (hown : ∀ c, own = some c → c.isOrdered = true ∧ rules.schema.itemKey p place c = .ok key)
    (h : StandsFor rules place p policy key above own node) :
    ∃ k, rules.schema.itemKey p place node = .ok k ∧
      (k = key ↔ ¬ MovesKey rules p policy above own) := by
  -- An item that is taken whole keeps its key; only completing or merging it can move it.
  have unmoved {n : Node} (hn : rules.schema.itemKey p place n = .ok key)
      (hstays : ¬ MovesKey rules p policy above own) :
      ∃ k, rules.schema.itemKey p place n = .ok k ∧
        (k = key ↔ ¬ MovesKey rules p policy above own) := ⟨key, hn, iff_of_true rfl hstays⟩
  match above, own with
  | none, none => cases h
  | none, some child =>
    obtain rfl : node = child := h
    exact unmoved (hown _ rfl).2 (by cases policy <;> simp [MovesKey])
  | some parent, none =>
    obtain rfl : node = parent := h
    exact unmoved (habove _ rfl) (by cases policy <;> simp [MovesKey])
  | some parent, some child =>
    obtain ⟨hordered, hchild⟩ := hown child rfl
    cases policy with
    | useParent =>
      obtain rfl : node = parent := h
      exact unmoved (habove _ rfl) (by simp [MovesKey])
    | useChild => exact completed_key hordered hchild h
    | merge =>
      obtain ⟨type, stale, htype, hmerged⟩ := h
      obtain ⟨hmono, hitem⟩ := merged_items_concrete hchecked hkind (hpolicy rfl)
      obtain ⟨-, info, own, declared, merged, rfl, hproperties, rfl⟩ := complex_ok hmerged
      obtain ⟨k, hk, hmoves⟩ :=
        joined_identity hvalid hmono hitem htype (habove parent rfl) hchild hproperties
      refine ⟨k, hk, hmoves.trans (not_congr ⟨fun hrewrites => ⟨type, htype, hrewrites⟩, ?_⟩)⟩
      rintro ⟨type', htype', hrewrites⟩
      cases htype.symm.trans htype'
      exact hrewrites

/-- Each item of the merged set stands for a key, and has this key unless it moves to another one.
Two items that do not move have different keys. -/
def HasMergedKeys (rules : Rules) (place : String) (p : Property) (parent child node : Node) :
    Prop :=
  ∃ above own merged : List (String × Node),
    HasEntries rules.schema p place parent above ∧ HasEntries rules.schema p place child own ∧
    merged.map Prod.fst = mergedKeys p.policy (above.map Prod.fst) (own.map Prod.fst) ∧
    node.items? = some (merged.map Prod.snd) ∧
    (∀ e ∈ merged,
      StandsFor rules place p (effectiveItemPolicy p parent) e.1 (above.lookup e.1)
        (own.lookup e.1) e.2 ∧
      ∃ key, rules.schema.itemKey p place e.2 = .ok key ∧
        (key = e.1 ↔ ¬ Moves rules p parent above own e.1)) ∧
    merged.Pairwise fun e f =>
      ¬ Moves rules p parent above own e.1 → ¬ Moves rules p parent above own f.1 →
        rules.schema.itemKey p place e.2 ≠ rules.schema.itemKey p place f.2

/-- The items of a merged set keep the keys under which they were merged, which are all different,
except where an identity is rewritten or an item outgrows its content. -/
theorem merged_set_keys (hvalid : rules.schema.validate rules.strategies = .ok ())
    (hkind : p.kind = .set) {owner : String} {parent child node : Node} {stale : Totals}
    (hparent : parent.isOrdered = true) (hchild : child.isOrdered = true)
    (hpresent : parent.isAbsent = false) (hpresent' : child.isAbsent = false)
    (hkept : (judge p.policy.stale parent child).1 = false)
    (h : property rules owner place p parent child = .ok (node, stale)) :
    HasMergedKeys rules place p parent child node := by
  obtain ⟨hcheck, ⟨hparentKind, hchildKind⟩, inner, hvalues⟩ :=
    values_of_kept hpresent hpresent' hkept h
  rw [hkind] at hparentKind hchildKind
  cases child with
  | simple | complex | list | map => cases hchildKind
  | set info items =>
    cases items with
    | none => cases hpresent'
    | some items =>
      have hordered := set_ordered_iff.1 hchild
      obtain ⟨above, own, merged, habove, hown, hkeys, hstands, rfl⟩ :=
        set_by_keys hparentKind hpresent hparent hordered hvalues
      have hkeyed : ∀ e ∈ merged, ∃ key, rules.schema.itemKey p place e.2 = .ok key ∧
          (key = e.1 ↔ ¬ Moves rules p parent above own e.1) := by
        intro e he
        refine standsFor_key hvalid (checked_of_check hcheck) hkind effectiveItemPolicy_merge
          (fun a ha => (item_of_entries hparentKind habove ha).2) (fun c hc => ?_) (hstands e he)
        obtain ⟨hmem, hkey⟩ := item_of_entries rfl hown hc
        exact ⟨hordered c hmem, hkey⟩
      have hstays : ∀ e ∈ merged, ¬ Moves rules p parent above own e.1 →
          rules.schema.itemKey p place e.2 = .ok e.1 := by
        intro e he hstay
        obtain ⟨key, hkey, hmoves⟩ := hkeyed e he
        rwa [hmoves.2 hstay] at hkey
      -- The items were merged under different keys, so those that did not move still differ.
      have hdistinct : merged.Pairwise fun e f => e.1 ≠ f.1 := by
        rw [← List.pairwise_map, hkeys]
        exact mergedKeys_nodup _ _ _
      refine ⟨above, own, merged, habove, hown, hkeys, rfl,
        fun e he => ⟨hstands e he, hkeyed e he⟩, hdistinct.imp_of_mem ?_⟩
      intro e f he hf hne hstay hstay'
      rw [hstays e he hstay, hstays f hf hstay']
      exact fun hsame => hne (Except.ok.inj hsame)

end Merge

/-! ## A small example

Servers that are told apart by their ports, saved below the global scope.
-/

namespace Sample

open Merge Schema

/-- The user's node was saved when nothing had been saved for all users. -/
def belowGlobal (n : Node) : Node := n.mapInfo fun i => { i with parentScope := some "global" }

def itemsAt (place : Scope.Path) (p : Property) (items : List Node) : Node :=
  .set { definedAt := place, typeName := p.typeName } (some items)

def onPort (place : Scope.Path) (port : String) : Node :=
  typed place "Server" [("port", wordAt place port)]

def globalPorts : Node := itemsAt global portServers [onPort global " 1", onPort global "1"]

/-- One of the two ports has a blank. -/
def alicePorts : Node :=
  belowGlobal (itemsAt alice portServers [onPort alice " 1", onPort alice "1"])

/-- Nothing moves as long as the child's port is used. -/
theorem ports_stay_apart :
    (handledRules .useChild).schema.validate (handledRules .useChild).strategies = .ok () ∧
      globalPorts.isOrdered = true ∧ alicePorts.isOrdered = true ∧
      (judge portServers.policy.stale globalPorts alicePorts).1 = false ∧
      property (handledRules .useChild) "App" "App.servers" portServers globalPorts alicePorts =
        .ok (alicePorts, .zero) ∧
      HasMergedKeys (handledRules .useChild) "App.servers" portServers globalPorts alicePorts
        alicePorts := by
  have habove : globalPorts.isOrdered = true := by decide
  have hbelow : alicePorts.isOrdered = true := by decide
  have hmerged : property (handledRules .useChild) "App" "App.servers" portServers globalPorts
      alicePorts = .ok (alicePorts, .zero) := rfl
  exact ⟨rfl, habove, hbelow, rfl, hmerged,
    merged_set_keys rfl rfl habove hbelow rfl rfl rfl hmerged⟩

def keysIn (rules : Merge.Rules) (p : Property) (n : Node) : List String :=
  rules.schema.itemKeys p (n.items?.getD [])

def greatestPort : Merge.Rules := handledRules (.strategy "max-int")

def marker (place : Scope.Path) : Node := typed place "Marker" [("name", wordAt place "a")]

/-- The identity of this hook is a marker. -/
def globalHooks : Node :=
  itemsAt global hooks
    [typed global "Shell" [("command", wordAt global "ls"), ("id", marker global)]]

def aliceHooks : Node := belowGlobal (itemsAt alice hooks [marker alice])

/-- A greatest port has no blanks, so two servers come to have one key. And a marker that takes the
command of a hook with its key has another key. -/
theorem merged_keys_move :
    (greatestPort.schema.validate greatestPort.strategies = .ok () ∧
      isStale globalPorts alicePorts = false ∧
      ∃ node, property greatestPort "App" "App.servers" portServers globalPorts alicePorts =
          .ok (node, .zero) ∧
        ¬ (keysIn greatestPort portServers node).Nodup) ∧
    (handledRules .useChild).schema.validate (handledRules .useChild).strategies = .ok () ∧
      isStale globalHooks aliceHooks = false ∧
      ∃ node, property (handledRules .useChild) "App" "App.hooks" hooks globalHooks aliceHooks =
          .ok (node, .zero) ∧
        keysIn (handledRules .useChild) hooks globalHooks =
          keysIn (handledRules .useChild) hooks aliceHooks ∧
        keysIn (handledRules .useChild) hooks node ≠
          keysIn (handledRules .useChild) hooks aliceHooks := by
  have hports : ¬ ["\"1\"", "\"1\""].Nodup := by decide
  refine ⟨⟨rfl, rfl, _, rfl, hports⟩, rfl, rfl, _, rfl, rfl, ?_⟩
  decide

end Sample

end ScopedConfig
