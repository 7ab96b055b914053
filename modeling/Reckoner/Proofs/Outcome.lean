/-! Taking computations that can fail apart, and the results of lists of them. -/
namespace Reckoner

variable {ε α β : Type}

@[simp] theorem ok_bind (a : α) (f : α → Except ε β) : Except.ok a >>= f = f a := rfl

@[simp] theorem error_bind (e : ε) (f : α → Except ε β) :
    Except.error e >>= f = .error e := rfl

@[simp] theorem map_ok (a : α) (f : α → β) : (Except.ok a : Except ε α).map f = .ok (f a) := rfl

@[simp] theorem map_error (e : ε) (f : α → β) :
    (Except.error e : Except ε α).map f = .error e := rfl

theorem bind_eq_ok_iff {x : Except ε α} {f : α → Except ε β} {b : β} :
    x >>= f = .ok b ↔ ∃ a, x = .ok a ∧ f a = .ok b := by
  cases x <;> simp

theorem map_eq_ok_iff {x : Except ε α} {f : α → β} {b : β} :
    x.map f = .ok b ↔ ∃ a, x = .ok a ∧ f a = b := by
  cases x <;> simp

theorem bind_eq_error_iff {x : Except ε α} {f : α → Except ε β} {e : ε} :
    x >>= f = .error e ↔ x = .error e ∨ ∃ a, x = .ok a ∧ f a = .error e := by
  cases x <;> simp

theorem map_eq_error_iff {x : Except ε α} {f : α → β} {e : ε} :
    x.map f = .error e ↔ x = .error e := by
  cases x <;> simp

theorem fst_eq_of_ok {a c : α} {b d : β}
    (h : (Except.ok (a, b) : Except ε (α × β)) = .ok (c, d)) : a = c :=
  (Prod.mk.inj (Except.ok.inj h)).1

/-- What every step keeps, a run that succeeds keeps. -/
theorem foldlM_ok_induction {p : β → Prop} {f : β → α → Except ε β} {items : List α} {b b' : β}
    (hstep : ∀ a ∈ items, ∀ b b', p b → f b a = .ok b' → p b') (hb : p b)
    (h : items.foldlM f b = .ok b') : p b' := by
  induction items generalizing b with
  | nil =>
    obtain rfl := Except.ok.inj h
    exact hb
  | cons a items ih =>
    rw [List.foldlM_cons] at h
    obtain ⟨middle, hfirst, hrest⟩ := bind_eq_ok_iff.mp h
    exact ih (fun a' ha' => hstep a' (List.mem_cons_of_mem a ha'))
      (hstep a List.mem_cons_self b middle hb hfirst) hrest

/-- What holds of the items taken and the result so far, if every step carries it over to one item
more, holds of all items and the result of a run. -/
theorem foldlM_ok_append_induction {p : List α → β → Prop} {f : β → α → Except ε β} {b : β}
    (hb : p [] b)
    (hstep : ∀ before a b b', p before b → f b a = .ok b' → p (before ++ [a]) b')
    {items : List α} {b' : β} (h : items.foldlM f b = .ok b') : p items b' := by
  have hrun : ∀ before items b, p before b → items.foldlM f b = .ok b' →
      p (before ++ items) b' := by
    intro before items
    induction items generalizing before with
    | nil =>
      intro b hbefore h
      obtain rfl := Except.ok.inj h
      simpa using hbefore
    | cons a items ih =>
      intro b hbefore h
      rw [List.foldlM_cons] at h
      obtain ⟨middle, hfirst, hrest⟩ := bind_eq_ok_iff.mp h
      simpa using ih (before ++ [a]) middle (hstep before a b middle hbefore hfirst) hrest
  exact hrun [] items b hb h

/-- A run fails for a reason that one of its steps fails for. -/
theorem foldlM_error_induction {p : ε → Prop} {f : β → α → Except ε β} {items : List α} {b : β}
    {e : ε} (hstep : ∀ a ∈ items, ∀ b e, f b a = .error e → p e)
    (h : items.foldlM f b = .error e) : p e := by
  induction items generalizing b with
  | nil => cases h
  | cons a items ih =>
    rw [List.foldlM_cons] at h
    rcases bind_eq_error_iff.mp h with hfirst | ⟨middle, -, hrest⟩
    · exact hstep a List.mem_cons_self b e hfirst
    · exact ih (fun a' ha' => hstep a' (List.mem_cons_of_mem a ha')) hrest

/-- The step of a computation that succeeds makes way for the rest of it. -/
theorem bind_eq_of_eq_some {o : Option α} {f : α → Option β} {a : α} {r : Option β}
    (ho : o = some a) (hrest : f a = r) : o >>= f = r := by
  rw [ho]
  exact hrest

theorem guard_eq_some {p : Prop} [Decidable p] (h : p) : (guard p : Option Unit) = some () :=
  if_pos h

/-- What holds of all results of the last part of a computation holds of all its results. -/
theorem forall_mem_bind {p : β → Prop} {o : Option α} {f : α → Option β}
    (h : ∀ a, ∀ b ∈ f a, p b) : ∀ b ∈ o.bind f, p b := by
  intro b hb
  obtain ⟨a, -, hfa⟩ := Option.bind_eq_some_iff.mp hb
  exact h a b hfa

/-- Lists of results are results of the lists. -/
theorem mapM_of_mapM_eq_some {γ : Type} {f : α → Option β} {items : List α} {results : List β}
    (h : items.mapM f = some results) (g : β → Option γ) :
    results.mapM g = items.mapM fun a => (f a).bind g := by
  induction items generalizing results with
  | nil =>
    obtain rfl := Option.some.inj h
    rfl
  | cons a items ih =>
    rw [List.mapM_cons] at h
    obtain ⟨b, hb, hrest⟩ := Option.bind_eq_some_iff.mp h
    obtain ⟨rest, hmapM, hpure⟩ := Option.bind_eq_some_iff.mp hrest
    obtain rfl := Option.some.inj hpure
    rw [List.mapM_cons, List.mapM_cons, hb, ih hmapM]
    rfl

theorem isSome_mapM_iff {f : α → Option β} {items : List α} :
    (items.mapM f).isSome ↔ ∀ a ∈ items, (f a).isSome := by
  induction items with
  | nil => simp
  | cons a items ih =>
    rw [List.mapM_cons, List.forall_mem_cons, ← ih]
    cases f a with
    | none => simp
    | some b => cases items.mapM f <;> simp

theorem mapM_eq_some_map {f : α → Option β} {g : α → β} {items : List α}
    (h : ∀ a ∈ items, f a = some (g a)) : items.mapM f = some (items.map g) := by
  induction items with
  | nil => rfl
  | cons a items ih =>
    rw [List.mapM_cons, h a (by simp), ih fun a ha => h a (by simp [ha])]
    rfl

theorem mapM_eq_ok {f : α → Except ε β} {g : β → α} {items : List β}
    (h : ∀ b ∈ items, f (g b) = .ok b) : (items.map g).mapM f = .ok items := by
  induction items with
  | nil => rfl
  | cons b items ih =>
    rw [List.map_cons, List.mapM_cons, h b (by simp), ih fun b hb => h b (by simp [hb])]
    rfl

end Reckoner
