import ScopedConfig.Proofs.Checked
import ScopedConfig.Proofs.Conformity
import ScopedConfig.Proofs.Run

/-!
# Merges that fail

A merge fails for one of two reasons: the check of a declared property refuses it, or a value is
not of the kind that its property declares. With an accepted schema the first cannot happen, and
with levels that conform to the type the second cannot.
-/

namespace ScopedConfig.Merge

open Schema ScopedConfig.Except

/-- Why a merge fails: the schema is at fault, or the data is and does not fit it. -/
inductive Blames (rules : Rules) (fit : Prop) (e : Error) : Prop where
  | schema {type : Record} {p : Property} (htype : type ∈ rules.schema.records)
    (hp : p ∈ type.properties) (h : p.check type.name rules.schema rules.strategies = .error e)
  | data {place : String} {corruption : Corruption} (h : e = .corrupt place corruption)
    (hfit : ¬ fit)

variable {rules : Rules} {e : Error}

theorem Blames.mono {fit fit' : Prop} (h : Blames rules fit e) (hfit : fit' → fit) :
    Blames rules fit' e := by
  cases h with
  | schema htype hp h => exact .schema htype hp h
  | data h hn => exact .data h fun hf => hn (hfit hf)

/-! ## Single checks -/

section
variable {place : String} {p : Property} {parent child item : Node}

theorem checkItemKind_error (h : checkItemKind place p item = .error e) :
    Blames rules (rules.schema.fits p p.itemKind.kind item = true) e := by
  unfold checkItemKind at h
  split at h
  case isTrue => cases h
  case isFalse hkind =>
    cases h
    exact .data rfl fun hfits => hkind (kind_of_fits hfits)

theorem itemKey_blames (hchecked : Checked rules.schema rules.strategies p) (hkind : p.kind = .set)
    (h : rules.schema.itemKey p place item = .error e) :
    Blames rules (rules.schema.isKeyed p item = true) e := by
  -- What tells set items apart is known, so only the item itself can lack it.
  obtain hnone | ⟨name, hidentity, habsent, rfl⟩ := itemKey_error h
  · have hknown := identityOf_checked hchecked hkind item
    rw [hnone] at hknown
    cases hknown
  · refine .data rfl ?_
    simp [isKeyed, recordFor_identity hkind hidentity, habsent]

theorem keyItems_error (hchecked : Checked rules.schema rules.strategies p) (hkind : p.kind = .set)
    {own : List Node} (h : keyItems rules place p own = .error e) :
    Blames rules (rules.schema.itemsFit p own = true) e := by
  induction own with
  | nil => cases h
  | cons item rest ih =>
    rw [itemsFit_iff, List.forall_mem_cons, ← itemsFit_iff]
    rcases bind_eq_error.1 h with h | ⟨_, -, h⟩
    · exact (checkItemKind_error h).mono fun hfit => hfit.1.1
    rcases bind_eq_error.1 h with h | ⟨key, -, h⟩
    · exact (itemKey_blames hchecked hkind h).mono fun hfit => hfit.1.2
    rcases bind_eq_error.1 h with h | ⟨keyed, -, h⟩
    · exact (ih h).mono And.right
    · cases h

theorem checkEntries_error {own : List (String × Node)} (h : checkEntries place p own = .error e) :
    Blames rules (rules.schema.entriesFit p own = true) e := by
  obtain ⟨entry, hentry, h⟩ := forM_eq_error h
  exact (checkItemKind_error h).mono fun hfit => entriesFit_iff.1 hfit entry hentry

theorem checkComplex_error (h : checkComplex place parent child = .error e) :
    Blames rules (parent.kind = .complex ∧ child.kind = .complex) e := by
  unfold checkComplex at h
  split at h
  case isTrue => cases h
  case isFalse hkinds =>
    cases h
    exact .data rfl hkinds

theorem checkKinds_error (h : checkKinds place p parent child = .error e) :
    Blames rules (parent.kind = p.kind ∧ child.kind = p.kind) e := by
  unfold checkKinds at h
  split at h
  case isTrue hparent =>
    cases h
    exact .data rfl fun hkinds => hparent hkinds.1
  case isFalse =>
    split at h
    case isTrue hchild =>
      cases h
      exact .data rfl fun hkinds => hchild hkinds.2
    case isFalse => cases h

end

/-! ## One pair -/

/-- Both values of a property fit it. -/
def PairFits (s : Schema) (p : Property) (parent child : Node) : Prop :=
  s.fits p p.kind parent = true ∧ s.fits p p.kind child = true

theorem set_pair_fits {s : Schema} {p : Property} {parent : Node} {info : Info} {own : List Node}
    (hkind : p.kind = .set) (h : PairFits s p parent (.set info (some own))) :
    s.itemsFit p (parent.items?.getD []) = true ∧ s.itemsFit p own = true := by
  obtain ⟨hparent, hchild⟩ := h
  rw [hkind] at hparent
  exact ⟨items_fit hparent, (set_fits_iff.1 hchild).2⟩

theorem map_pair_fits {s : Schema} {p : Property} {parent : Node} {info : Info}
    {own : List (String × Node)} (hkind : p.kind = .map)
    (h : PairFits s p parent (.map info (some own))) :
    s.entriesFit p (parent.entries?.getD []) = true ∧ s.entriesFit p own = true := by
  obtain ⟨hparent, hchild⟩ := h
  rw [hkind] at hparent
  exact ⟨entries_fit hparent, (map_fits_iff.1 hchild).2⟩

theorem settle_error {type : Record} {p : Property} (htype : type ∈ rules.schema.records)
    (hp : p ∈ type.properties) {place : String} {parent child : Node}
    (h : settle rules type.name place p parent child = .error e) :
    Blames rules (PairFits rules.schema p parent child) e := by
  rcases bind_eq_error.1 h with h | ⟨_, -, h⟩
  · exact .schema htype hp h
  rcases bind_eq_error.1 h with h | ⟨_, -, h⟩
  · exact (checkKinds_error h).mono fun hfit => ⟨kind_of_fits hfit.1, kind_of_fits hfit.2⟩
  · dsimp only at h
    split at h
    · cases h
    · split at h <;> cases h

theorem settle_bind_error {type : Record} {p : Property} (htype : type ∈ rules.schema.records)
    (hp : p ∈ type.properties) {place : String} {parent child : Node}
    {values : Totals → Except Error (Node × Totals)}
    (h : (do
      match ← settle rules type.name place p parent child with
      | .settled node stale => return (node, stale)
      | .undecided stale => values stale) = .error e) :
    Blames rules (PairFits rules.schema p parent child) e ∨
      Checked rules.schema rules.strategies p ∧ child.kind = p.kind ∧
        ∃ stale, values stale = .error e := by
  rcases bind_eq_error.1 h with h | ⟨verdict, hverdict, h⟩
  · exact .inl (settle_error htype hp h)
  · obtain ⟨⟨⟩, hcheck, -⟩ := bind_eq_ok.1 hverdict
    cases verdict with
    | settled => cases h
    | undecided stale =>
      exact .inr ⟨checked_of_check hcheck, (settle_ok hverdict).1.2, stale, h⟩

/-- Where the errors come from that this child meets, as a property or as an item. -/
structure Traced (rules : Rules) (child : Node) : Prop where
  property : ∀ {type : Record} {p : Property} {place : String} {parent : Node} {e : Error},
    type ∈ rules.schema.records → p ∈ type.properties →
    property rules type.name place p parent child = .error e →
    Blames rules (PairFits rules.schema p parent child) e
  item : ∀ {p : Property} {policy : ItemPolicy} {place key : String} {above : Option Node}
    {e : Error}, (∀ place, ∃ choice, chooseItem rules place p policy = .ok choice) →
    item rules place p policy above key child = .error e →
    Blames rules ((∀ a, above = some a → rules.schema.fits p p.itemKind.kind a = true) ∧
      rules.schema.fits p p.itemKind.kind child = true) e

/-! ## Lists of nodes -/

theorem properties_cons_error {place name : String} {type : Record} {child : Node}
    {inherited rest : List (String × Node)}
    (h : properties rules place type inherited ((name, child) :: rest) = .error e) :
    (∃ parent p, inherited.lookup name = some parent ∧ type.find? name = some p ∧
      property rules type.name (place ++ "." ++ name) p parent child = .error e) ∨
      properties rules place type inherited rest = .error e := by
  rw [properties] at h
  split at h
  case h_1 parent p hparent hfind =>
    rcases bind_eq_error.1 h with h | ⟨_, -, h⟩
    · exact .inl ⟨parent, p, hparent, hfind, h⟩
    · rcases bind_eq_error.1 h with h | ⟨_, -, h⟩
      · exact .inr h
      · cases h
  case h_2 =>
    rcases bind_eq_error.1 h with h | ⟨_, -, h⟩
    · cases h
    · rcases bind_eq_error.1 h with h | ⟨_, -, h⟩
      · exact .inr h
      · cases h

theorem properties_error {own : List (String × Node)} (hown : ∀ e ∈ own, Traced rules e.2)
    {place : String} {type : Record} (htype : type ∈ rules.schema.records)
    {inherited : List (String × Node)} (h : properties rules place type inherited own = .error e) :
    Blames rules (rules.schema.fieldsFit type inherited = true ∧
      rules.schema.fieldsFit type own = true) e := by
  induction own with
  | nil => cases h
  | cons entry rest ih =>
    obtain ⟨name, child⟩ := entry
    have hrest := ih fun e he => hown e (List.mem_cons_of_mem _ he)
    rw [@fieldsFit_iff _ _ (_ :: _), List.forall_mem_cons, ← fieldsFit_iff]
    rcases properties_cons_error h with ⟨parent, p, hparent, hfind, h⟩ | h
    · have hp : p ∈ type.properties := List.mem_of_find?_eq_some hfind
      refine ((hown (name, child) List.mem_cons_self).property htype hp h).mono fun hfit => ?_
      exact ⟨fieldsFit_iff.1 hfit.1 (name, parent) (Keyed.mem_of_lookup hparent) p hfind,
        hfit.2.1 p hfind⟩
    · exact (hrest h).mono fun hfit => ⟨hfit.1, hfit.2.2⟩

section
variable {p : Property} {policy : ItemPolicy} {place : String} {above : List (String × Node)}

theorem items_error (hchoice : ∀ place, ∃ choice, chooseItem rules place p policy = .ok choice)
    {own : List Node} (hown : ∀ n ∈ own, Traced rules n) {seen keys : List String}
    (h : items rules place p policy above seen keys own = .error e) :
    Blames rules ((∀ e ∈ above, rules.schema.fits p p.itemKind.kind e.2 = true) ∧
      ∀ n ∈ own, rules.schema.fits p p.itemKind.kind n = true) e := by
  induction own generalizing seen keys with
  | nil => cases h
  | cons child rest ih =>
    have hrest := @ih fun n hn => hown n (List.mem_cons_of_mem _ hn)
    rw [List.forall_mem_cons]
    cases keys with
    | nil => cases h
    | cons key keys =>
      rw [items] at h
      split at h
      · exact (hrest h).mono fun hfit => ⟨hfit.1, hfit.2.2⟩
      · rcases bind_eq_error.1 h with h | ⟨_, -, h⟩
        · refine ((hown child List.mem_cons_self).item hchoice h).mono fun hfit => ?_
          exact ⟨fun a ha => hfit.1 _ (Keyed.mem_of_lookup ha), hfit.2.1⟩
        · rcases bind_eq_error.1 h with h | ⟨_, -, h⟩
          · exact (hrest h).mono fun hfit => ⟨hfit.1, hfit.2.2⟩
          · cases h

theorem entries_error (hchoice : ∀ place, ∃ choice, chooseItem rules place p policy = .ok choice)
    {own : List (String × Node)} (hown : ∀ e ∈ own, Traced rules e.2)
    (h : entries rules place p policy above own = .error e) :
    Blames rules ((∀ e ∈ above, rules.schema.fits p p.itemKind.kind e.2 = true) ∧
      ∀ e ∈ own, rules.schema.fits p p.itemKind.kind e.2 = true) e := by
  induction own with
  | nil => cases h
  | cons entry rest ih =>
    obtain ⟨key, child⟩ := entry
    have hrest := ih fun e he => hown e (List.mem_cons_of_mem _ he)
    rw [List.forall_mem_cons]
    rw [entries] at h
    rcases bind_eq_error.1 h with h | ⟨_, -, h⟩
    · refine ((hown (key, child) List.mem_cons_self).item hchoice h).mono fun hfit => ?_
      exact ⟨fun a ha => hfit.1 _ (Keyed.mem_of_lookup ha), hfit.2.1⟩
    · rcases bind_eq_error.1 h with h | ⟨_, -, h⟩
      · exact (hrest h).mono fun hfit => ⟨hfit.1, hfit.2.2⟩
      · cases h

end

/-! ## All nodes -/

theorem item_error {p : Property} {policy : ItemPolicy} {place key : String} {above : Option Node}
    {child : Node} (hown : ∀ info own declared, child = .complex info own declared →
      ∀ e ∈ own, Traced rules e.2)
    (hchoice : ∀ place, ∃ choice, chooseItem rules place p policy = .ok choice)
    (h : item rules place p policy above key child = .error e) :
    Blames rules ((∀ a, above = some a → rules.schema.fits p p.itemKind.kind a = true) ∧
      rules.schema.fits p p.itemKind.kind child = true) e := by
  cases above with
  | none => cases child <;> simp [item] at h
  | some parent =>
    -- The choice does not fail, so the error comes from the kinds or from the values below.
    obtain ⟨chosen, hchosen⟩ := hchoice (place ++ "[" ++ key ++ "]")
    have hkinds {type : Record}
        (hcombine : chooseItem rules (place ++ "[" ++ key ++ "]") p policy = .ok (.combine type))
        (hfit : (∀ a, some parent = some a → rules.schema.fits p p.itemKind.kind a = true) ∧
          rules.schema.fits p p.itemKind.kind child = true) :
        parent.kind = .complex ∧ child.kind = .complex := by
      have hitem : p.itemKind.kind = .complex := by
        rw [(chooseItem_combine hcombine).2.1]
        rfl
      rw [hitem] at hfit
      exact ⟨kind_of_fits (hfit.1 parent rfl), kind_of_fits hfit.2⟩
    cases child with
    | complex info own declared =>
      rw [item] at h
      rcases bind_eq_error.1 h with h | ⟨choice, hchoice, h⟩
      · cases hchosen.symm.trans h
      cases choice with
      | child | parent => cases h
      | combine type =>
        rcases bind_eq_error.1 h with h | ⟨_, -, h⟩
        · exact (checkComplex_error h).mono (hkinds hchoice)
        rcases bind_eq_error.1 h with h | ⟨_, -, h⟩
        · obtain ⟨hmono, -, htype⟩ := chooseItem_combine hchoice
          refine (properties_error (hown info own declared rfl) (mem_records htype) h).mono
            fun hfit => ?_
          exact ⟨properties_fit (hfit.1 parent rfl) hmono htype, properties_fit hfit.2 hmono htype⟩
        · cases h
    | simple | list | set | map =>
      simp only [item] at h
      rcases bind_eq_error.1 h with h | ⟨choice, hchoice, h⟩
      · cases hchosen.symm.trans h
      cases choice with
      | child | parent => cases h
      | combine type =>
        rcases bind_eq_error.1 h with h | ⟨_, -, h⟩
        · exact (checkComplex_error h).mono (hkinds hchoice)
        · cases h

theorem traced (child : Node) : Traced rules child := by
  induction child using Node.tree_induction with
  | simple info text =>
    refine ⟨fun htype hp h => ?_, item_error (by rintro _ _ _ ⟨⟩)⟩
    rw [property] at h
    obtain h | ⟨hchecked, hkind, stale, h⟩ := settle_bind_error htype hp h
    · exact h
    -- A checked property has no policy that the merge cannot follow.
    rcases bind_eq_error.1 h with h | ⟨_, -, h⟩
    · obtain ⟨node, hnode⟩ := mergeText_of_checked hchecked hkind.symm info text
      cases hnode.symm.trans h
    · cases h
  | complex info own declared ih =>
    refine ⟨fun htype hp h => ?_, item_error (by rintro _ _ _ ⟨⟩; exact ih)⟩
    rw [property] at h
    obtain h | ⟨hchecked, hkind, stale, h⟩ := settle_bind_error htype hp h
    · exact h
    rcases bind_eq_error.1 h with h | ⟨choice, hchoice, h⟩
    · obtain ⟨chosen, hchosen⟩ := chooseComplex_of_checked hchecked hkind.symm
      cases hchosen.symm.trans h
    cases choice with
    | child | parent => cases h
    | combine type =>
      obtain ⟨hmono, htype⟩ := chooseComplex_combine hchoice
      rcases bind_eq_error.1 h with h | ⟨_, -, h⟩
      · refine (properties_error ih (mem_records htype) h).mono fun hfit => ?_
        exact ⟨properties_fit hfit.1 hmono htype, properties_fit hfit.2 hmono htype⟩
      · cases h
  | absentList | list | absentSet | absentMap =>
    refine ⟨fun htype hp h => ?_, item_error (by rintro _ _ _ ⟨⟩)⟩
    rw [property] at h
    obtain h | ⟨-, -, stale, h⟩ := settle_bind_error htype hp h
    · exact h
    · cases h
  | set info own ih =>
    refine ⟨fun htype hp h => ?_, item_error (by rintro _ _ _ ⟨⟩)⟩
    rw [property] at h
    obtain h | ⟨hchecked, hkind, stale, h⟩ := settle_bind_error htype hp h
    · exact h
    refine Blames.mono ?_ (set_pair_fits hkind.symm)
    rcases bind_eq_error.1 h with h | ⟨above, habove, h⟩
    · exact (keyItems_error hchecked hkind.symm h).mono And.left
    rcases bind_eq_error.1 h with h | ⟨keyed, hkeyed, h⟩
    · exact (keyItems_error hchecked hkind.symm h).mono And.right
    rcases bind_eq_error.1 h with h | ⟨_, -, h⟩
    · refine (items_error (fun _ => chooseItem_of_checked hchecked (.inl hkind.symm)) ih h).mono
        fun hfit => ⟨fun entry hentry => ?_, fun n hn => (itemsFit_iff.1 hfit.2 n hn).1⟩
      -- The parent's items stand in `above`, each with its key.
      refine (itemsFit_iff.1 hfit.1 entry.2 ?_).1
      rw [← keyItems_items habove]
      exact List.mem_map_of_mem hentry
    · cases h
  | map info own ih =>
    refine ⟨fun htype hp h => ?_, item_error (by rintro _ _ _ ⟨⟩)⟩
    rw [property] at h
    obtain h | ⟨hchecked, hkind, stale, h⟩ := settle_bind_error htype hp h
    · exact h
    refine Blames.mono ?_ (map_pair_fits hkind.symm)
    rcases bind_eq_error.1 h with h | ⟨_, -, h⟩
    · exact (checkEntries_error h).mono And.left
    rcases bind_eq_error.1 h with h | ⟨_, -, h⟩
    · exact (checkEntries_error h).mono And.right
    rcases bind_eq_error.1 h with h | ⟨_, -, h⟩
    · refine (entries_error (fun _ => chooseItem_of_checked hchecked (.inr hkind.symm)) ih h).mono
        fun hfit => ?_
      exact ⟨entriesFit_iff.1 hfit.1, entriesFit_iff.1 hfit.2⟩
    · cases h

/-! ## Levels -/

theorem complex_error {type : Record} (htype : type ∈ rules.schema.records) {place : String}
    {parent child : Node} (h : complex rules place type parent child = .error e) :
    Blames rules (rules.schema.conforms type parent = true ∧
      rules.schema.conforms type child = true) e := by
  rcases bind_eq_error.1 h with h | ⟨_, hcheck, h⟩
  · refine (checkComplex_error h).mono fun hfit => ?_
    exact ⟨kind_of_conforms hfit.1, kind_of_conforms hfit.2⟩
  cases child with
  | complex info own declared =>
    rcases bind_eq_error.1 h with h | ⟨_, -, h⟩
    · refine (properties_error (fun e _ => traced e.2) htype h).mono fun hfit => ?_
      exact ⟨properties_conform hfit.1, hfit.2⟩
    · cases h
  | simple | list | set | map => simpa [Node.kind] using (checkComplex_ok hcheck).2

theorem levelsFrom_error {type : Record} (htype : type ∈ rules.schema.records)
    {above : Option Node} {all : List (Option Node)}
    (h : levelsFrom rules type above all = .error e) :
    Blames rules ((∀ n, above = some n → rules.schema.conforms type n = true) ∧
      ∀ n, some n ∈ all → rules.schema.conforms type n = true) e := by
  -- The invariant: what was merged so far conforms to the type if all levels do.
  induction all generalizing above with
  | nil => cases h
  | cons level rest ih =>
    match above, level with
    | above, none =>
      rw [levelsFrom] at h
      exact (ih h).mono fun hfit => ⟨hfit.1, fun n hn => hfit.2 n (List.mem_cons_of_mem _ hn)⟩
    | none, some level =>
      rw [levelsFrom] at h
      refine (ih h).mono fun hfit => ⟨?_, fun n hn => hfit.2 n (List.mem_cons_of_mem _ hn)⟩
      rintro n ⟨⟩
      exact hfit.2 level List.mem_cons_self
    | some parent, some level =>
      rw [levelsFrom] at h
      rcases bind_eq_error.1 h with h | ⟨⟨node, stale⟩, hnode, h⟩
      · exact (complex_error htype h).mono fun hfit =>
          ⟨hfit.1 parent rfl, hfit.2 level List.mem_cons_self⟩
      · rcases bind_eq_error.1 h with h | ⟨_, -, h⟩
        · -- The error is a later one, and what was merged until then conforms.
          refine (ih h).mono fun hfit => ⟨?_, fun n hn => hfit.2 n (List.mem_cons_of_mem _ hn)⟩
          rintro n ⟨⟩
          exact complex_conforms (hfit.1 parent rfl) (hfit.2 level List.mem_cons_self) hnode
        · cases h

theorem levels_error {type : Record} (htype : type ∈ rules.schema.records)
    {all : List (Option Node)} (h : levels rules type all = .error e) :
    Blames rules (∀ n, some n ∈ all → rules.schema.conforms type n = true) e :=
  (levelsFrom_error htype h).mono fun hall => ⟨by rintro n ⟨⟩, hall⟩

/-! ## Accepted schemas -/

theorem Blames.data_of_validate {fit : Prop} (h : Blames rules fit e)
    (hvalid : rules.schema.validate rules.strategies = .ok ()) :
    (∃ place corruption, e = .corrupt place corruption) ∧ ¬ fit := by
  cases h with
  | schema htype hp h => cases (check_of_validate hvalid htype hp).symm.trans h
  | data h hfit => exact ⟨⟨_, _, h⟩, hfit⟩

/-- Every fault of the schema shows when it is validated: then only data can make a merge fail. -/
theorem levels_error_corrupt (hvalid : rules.schema.validate rules.strategies = .ok ())
    {type : Record} (htype : type ∈ rules.schema.records) {all : List (Option Node)}
    (h : levels rules type all = .error e) :
    ∃ place corruption, e = .corrupt place corruption :=
  ((levels_error htype h).data_of_validate hvalid).1

/-- Levels that conform to a type of an accepted schema merge to a node that conforms to it. -/
theorem levels_conform (hvalid : rules.schema.validate rules.strategies = .ok ()) {type : Record}
    (htype : type ∈ rules.schema.records) {all : List (Option Node)}
    (hall : ∀ n, some n ∈ all → rules.schema.conforms type n = true) :
    ∃ merged stale, levels rules type all = .ok (merged, stale) ∧
      ∀ n, merged = some n → rules.schema.conforms type n = true := by
  cases h : levels rules type all with
  | error e => exact absurd hall ((levels_error htype h).data_of_validate hvalid).2
  | ok result =>
    obtain ⟨merged, stale⟩ := result
    refine ⟨merged, stale, rfl, ?_⟩
    rintro n rfl
    exact levelsFrom_induction complex_conforms (by rintro _ ⟨⟩) hall h

end ScopedConfig.Merge

/-! ## A small example

A cluster has a set of servers, which are told apart by their hosts and merged one by one.
-/

namespace ScopedConfig.Sample

open Schema

def server : Record :=
  { name := "Server", identity := some "host",
    properties := [.simple "host" "string", .simple "port" "int"] }

def cluster : Record :=
  { name := "Cluster", properties := [(Property.set "servers" .complex "Server").itemsBy .merge,
      .complex "backup" "Server"] }

def clusters : Merge.Rules := ⟨(Schema.empty.insert server).insert cluster, .standard⟩

def value (text : String) : Node :=
  .simple { definedAt := global, typeName := "string" } (some text)

def serverAt (host port : String) : Node :=
  .complex { definedAt := global, typeName := "Server" }
    [("host", value host), ("port", value port)] ["host", "port"]

def servers (own : List Node) : Node :=
  .set { definedAt := global, typeName := "Server" } (some own)

def clusterWith (own : List (String × Node)) : Node :=
  .complex { definedAt := global, typeName := "Cluster" } own (own.map Prod.fst)

/-- A text stands where the set of servers belongs. -/
def mixedClusters : List (Option Node) :=
  [some (clusterWith [("servers", servers [])]), none,
    some (clusterWith [("servers", value "a")])]

theorem mixedClusters_corrupt :
    clusters.schema.validate clusters.strategies = .ok () ∧ cluster ∈ clusters.schema.records ∧
      ∃ e, Merge.levels clusters cluster mixedClusters = .error e ∧
        ∃ place corruption, e = .corrupt place corruption := by
  have h : Merge.levels clusters cluster mixedClusters =
      .error (.corrupt "Cluster.servers" (.otherKind .set "child" .simple global)) := rfl
  exact ⟨rfl, List.mem_cons_self, _, h, Merge.levels_error_corrupt rfl List.mem_cons_self h⟩

/-- The last level has another port of the first level's server, a second server and a backup. -/
def twoClusters : List (Option Node) :=
  [some (clusterWith [("servers", servers [serverAt "a" "80"])]), none,
    some (clusterWith [("backup", serverAt "b" "81"),
      ("servers", servers [serverAt "b" "81", serverAt "a" "82"])])]

theorem twoClusters_conform :
    clusters.schema.validate clusters.strategies = .ok () ∧ cluster ∈ clusters.schema.records ∧
      (∀ n, some n ∈ twoClusters → clusters.schema.conforms cluster n = true) ∧
      ∃ merged stale, Merge.levels clusters cluster twoClusters = .ok (merged, stale) ∧
        ∀ n, merged = some n → clusters.schema.conforms cluster n = true := by
  have hlevels : ∀ level ∈ twoClusters,
      level.all (clusters.schema.conforms cluster) = true := by decide
  have hall : ∀ n, some n ∈ twoClusters → clusters.schema.conforms cluster n = true :=
    fun n hn => hlevels (some n) hn
  exact ⟨rfl, List.mem_cons_self, hall, Merge.levels_conform rfl List.mem_cons_self hall⟩

end ScopedConfig.Sample
