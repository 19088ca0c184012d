/-!
# Steps that succeed

A chain of steps succeeds exactly when each step does, and fails with the error of one of them.
-/

namespace ScopedConfig.Except

variable {ε α β : Type}

theorem bind_eq_ok {x : Except ε α} {f : α → Except ε β} {b : β} :
    (x >>= f) = .ok b ↔ ∃ a, x = .ok a ∧ f a = .ok b := by
  cases x <;> simp [bind, Except.bind]

theorem bind_eq_error {x : Except ε α} {f : α → Except ε β} {e : ε} :
    (x >>= f) = .error e ↔ x = .error e ∨ ∃ a, x = .ok a ∧ f a = .error e := by
  cases x <;> simp [bind, Except.bind]

theorem map_eq_ok {x : Except ε α} {f : α → β} {b : β} :
    x.map f = .ok b ↔ ∃ a, x = .ok a ∧ f a = b := by
  cases x <;> simp [Except.map]

theorem map_eq_error {x : Except ε α} {f : α → β} {e : ε} : x.map f = .error e ↔ x = .error e := by
  cases x <;> simp [Except.map]

theorem mapError_error {e : ε} {f : ε → α} :
    (Except.error e : Except ε β).mapError f = .error (f e) := rfl

theorem mapError_ok {b : β} {f : ε → α} : (Except.ok b : Except ε β).mapError f = .ok b := rfl

theorem mapError_eq_error {x : Except ε β} {f : ε → α} {a : α} :
    x.mapError f = .error a ↔ ∃ e, x = .error e ∧ f e = a := by
  cases x with
  | error e => simp [mapError_error]
  | ok b => simp [mapError_ok]

theorem mapError_eq_ok {x : Except ε β} {f : ε → α} {b : β} : x.mapError f = .ok b ↔ x = .ok b := by
  cases x with
  | error e => simp [mapError_error]
  | ok a => simp [mapError_ok]

theorem pure_eq_ok {a b : α} : (pure a : Except ε α) = .ok b ↔ a = b := by
  simp [pure, Except.pure]

theorem pure_pair_eq_ok {a c : α} {b d : β} :
    (pure (a, b) : Except ε (α × β)) = .ok (c, d) ↔ a = c ∧ b = d := by
  rw [pure_eq_ok, Prod.mk.injEq]

theorem forM_eq_ok {l : List α} {f : α → Except ε Unit} :
    l.forM f = .ok () ↔ ∀ a ∈ l, f a = .ok () := by
  induction l with
  | nil => simp [pure, Except.pure]
  | cons a rest ih =>
    rw [show (a :: rest).forM f = (f a >>= fun _ => rest.forM f) from rfl, bind_eq_ok, ih,
      List.forall_mem_cons]
    constructor
    · rintro ⟨⟨⟩, ha, hrest⟩
      exact ⟨ha, hrest⟩
    · rintro ⟨ha, hrest⟩
      exact ⟨(), ha, hrest⟩

theorem forM_eq_error {l : List α} {f : α → Except ε Unit} {e : ε} (h : l.forM f = .error e) :
    ∃ a ∈ l, f a = .error e := by
  induction l with
  | nil => cases h
  | cons a rest ih =>
    rw [show (a :: rest).forM f = (f a >>= fun _ => rest.forM f) from rfl, bind_eq_error] at h
    rcases h with h | ⟨_, -, h⟩
    · exact ⟨a, List.mem_cons_self, h⟩
    · obtain ⟨b, hb, hfb⟩ := ih h
      exact ⟨b, List.mem_cons_of_mem _ hb, hfb⟩

/-- Each step keeps `P`, and brings about for its element what the later steps keep. -/
theorem foldlM_collects {P : β → Prop} {Q : α → β → Prop} {l : List α} {f : β → α → Except ε β}
    {b b' : β} (hb : P b)
    (hstep : ∀ a ∈ l, ∀ {b b'}, P b → f b a = .ok b' →
      P b' ∧ Q a b' ∧ ∀ a', Q a' b → Q a' b')
    (h : l.foldlM f b = .ok b') : P b' ∧ (∀ a ∈ l, Q a b') ∧ ∀ a, Q a b → Q a b' := by
  induction l generalizing b with
  | nil =>
    obtain rfl := pure_eq_ok.1 h
    exact ⟨hb, by simp, fun _ => id⟩
  | cons a rest ih =>
    rw [List.foldlM_cons] at h
    obtain ⟨c, hc, h⟩ := bind_eq_ok.1 h
    obtain ⟨hfirst, hrest⟩ := List.forall_mem_cons.1 hstep
    obtain ⟨hPc, hQa, hkeep⟩ := hfirst hb hc
    obtain ⟨hPb', hQrest, hkeep'⟩ := ih hPc hrest h
    exact ⟨hPb', List.forall_mem_cons.2 ⟨hkeep' a hQa, hQrest⟩, fun a' ha' =>
      hkeep' a' (hkeep a' ha')⟩

theorem foldlM_invariant {P : β → Prop} {l : List α} {f : β → α → Except ε β} {b b' : β}
    (hb : P b) (hstep : ∀ {b a b'}, P b → f b a = .ok b' → P b') (h : l.foldlM f b = .ok b') :
    P b' :=
  (foldlM_collects (Q := fun _ _ => True) hb
    (fun _ _ _ _ hb hf => ⟨hstep hb hf, trivial, fun _ => id⟩) h).1

theorem foldlM_eq_error {l : List α} {f : β → α → Except ε β} {b : β} {e : ε}
    (h : l.foldlM f b = .error e) : ∃ a ∈ l, ∃ b', f b' a = .error e := by
  induction l generalizing b with
  | nil => cases h
  | cons a rest ih =>
    rw [List.foldlM_cons, bind_eq_error] at h
    rcases h with h | ⟨b', -, h⟩
    · exact ⟨a, List.mem_cons_self, b, h⟩
    · obtain ⟨c, hc, hfc⟩ := ih h
      exact ⟨c, List.mem_cons_of_mem _ hc, hfc⟩

end ScopedConfig.Except
