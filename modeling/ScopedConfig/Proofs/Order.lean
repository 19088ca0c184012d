import ScopedConfig.Proofs.Outcome

/-!
# Merges keep keys in order

Properties and entries of a merged node are in order at every depth if those of both sides are.
-/

namespace ScopedConfig.Merge

open Schema Node

variable {rules : Rules} {p : Property} {type : Record}

/-- If both values are in order, so is their merge. -/
def KeepsOrder (_ : Property) (parent child node : Node) : Prop :=
  parent.isOrdered = true → child.isOrdered = true → node.isOrdered = true

theorem Fields.ordered {inherited own merged : List (String × Node)}
    (h : Fields KeepsOrder type inherited own merged)
    (hinherited : ∀ e ∈ inherited, e.2.isOrdered = true)
    (hown : ∀ e ∈ own, e.2.isOrdered = true) : ∀ e ∈ merged, e.2.isOrdered = true := by
  induction h with
  | nil => exact hown
  | taken _ _ ih =>
    rw [List.forall_mem_cons] at hown ⊢
    exact ⟨hown.1, ih hown.2⟩
  | paired hparent _ h _ ih =>
    rw [List.forall_mem_cons] at hown ⊢
    exact ⟨h (hinherited _ (Keyed.mem_of_lookup hparent)) hown.1, ih hown.2⟩

theorem filled_ordered {info : Info} {declared : List String} {parent : Node}
    {own : List (String × Node)} (hparent : parent.isOrdered = true) (hsorted : Keyed.Sorted own)
    (hown : ∀ e ∈ own, e.2.isOrdered = true) :
    (joined info declared parent own).isOrdered = true := by
  refine complex_ordered_iff.2 ⟨Keyed.sorted_fillFrom _ hsorted, fun e he => ?_⟩
  rcases Keyed.mem_fillFrom he with he | he
  · exact properties_ordered hparent e he
  · exact hown e he

theorem joined_ordered {parent : Node} {info : Info} {own merged : List (String × Node)}
    {declared : List String} (h : Fields KeepsOrder type (parent.properties?.getD []) own merged)
    (hparent : parent.isOrdered = true)
    (hchild : (Node.complex info own declared).isOrdered = true) :
    (joined info declared parent merged).isOrdered = true := by
  obtain ⟨hsorted, hown⟩ := complex_ordered_iff.1 hchild
  exact filled_ordered hparent ((Keyed.sorted_congr h.names).2 hsorted)
    (h.ordered (properties_ordered hparent) hown)

theorem backfill_ordered {parent child : Node} (hparent : parent.isOrdered = true)
    (hchild : child.isOrdered = true) : (backfill parent child).isOrdered = true := by
  unfold backfill
  split
  · obtain ⟨hsorted, hown⟩ := complex_ordered_iff.1 hchild
    exact filled_ordered hparent hsorted hown
  · exact hchild

theorem ItemOutcome.ordered {above : Option Node} {child node : Node}
    (h : ItemOutcome rules KeepsOrder p above child node)
    (habove : ∀ a, above = some a → a.isOrdered = true) (hchild : child.isOrdered = true) :
    node.isOrdered = true := by
  cases h with
  | added => exact hchild
  | parent h => exact habove _ h
  | backfilled h => exact backfill_ordered (habove _ h) hchild
  | joined h hc _ _ hmerged =>
    subst hc
    exact joined_ordered hmerged (habove _ h) hchild

theorem keepsOrder_step {parent child node : Node}
    (h : Outcome rules KeepsOrder p parent child node) : KeepsOrder p parent child node := by
  intro hparent hchild
  cases h with
  | parent => exact hparent
  | child => exact hchild
  | text => rfl
  | joined _ _ hmerged => exact joined_ordered hmerged hparent hchild
  | set hmerged =>
    have hown := set_ordered_iff.1 hchild
    have hinherited := items_ordered hparent
    refine set_ordered_iff.2 fun n hn => ?_
    obtain hn | ⟨child, hc, above, habove, hout⟩ := hmerged n hn
    · exact hinherited n hn
    · exact hout.ordered (fun a ha => hinherited a (habove a ha)) (hown child hc)
  | map hkept hkeys hmerged =>
    obtain ⟨hsorted, hown⟩ := map_ordered_iff.1 hchild
    have hinherited := entries_ordered hparent
    have hmergedSorted := Keyed.sorted_of_sublist hkeys hsorted
    refine map_ordered_iff.2 ⟨Keyed.sorted_fillFrom _ hmergedSorted, fun e he => ?_⟩
    rcases Keyed.mem_fillFrom he with he | he
    · exact hinherited e (hkept e he)
    · obtain ⟨child, hc, hout⟩ := hmerged e he
      exact hout.ordered (fun a ha => hinherited _ (Keyed.mem_of_lookup ha)) (hown _ hc)

theorem complex_ordered {place : String} {parent child node : Node} {stale : Totals}
    (hparent : parent.isOrdered = true) (hchild : child.isOrdered = true)
    (h : complex rules place type parent child = .ok (node, stale)) : node.isOrdered = true := by
  obtain ⟨info, own, declared, merged, rfl, hmerged, rfl⟩ :=
    complex_outcome (fun _ _ => keepsOrder_step) h
  exact joined_ordered hmerged hparent hchild

end ScopedConfig.Merge
