import Mathlib.Data.List.Basic
import Reckoner.Text.Lowercase

/-! The lowercase of a part of a text. All characters but the capital sigma have theirs wherever
they stand. That of a sigma depends on what stands before and after it, so that a part can have
another lowercase in its place than alone, unless the part itself settles it. -/
namespace Reckoner

/-- The lowercase of a capital sigma; what stands before it has its last character first. -/
def sigmaBetween (before after : List Char) : Char :=
  if meetsCased before && !meetsCased after then 'ς' else 'σ'

/-- The lowercase that a part of a text has in its place; what stands before it has its last
character first. -/
def lowercaseBetween (before after : List Char) : List Char → List Char
  | [] => []
  | c :: rest =>
    (if c = 'Σ' then [sigmaBetween before (rest ++ after)] else lowercaseChar c) ++
      lowercaseBetween (c :: before) after rest

theorem lowercaseAfter_eq (before text : List Char) :
    lowercaseAfter before text = lowercaseBetween before [] text := by
  induction text generalizing before with
  | nil => rfl
  | cons c rest ih =>
    rw [lowercaseAfter, lowercaseBetween, ih, List.append_nil]
    rfl

theorem lowercase_eq (text : List Char) : lowercase text = lowercaseBetween [] [] text :=
  lowercaseAfter_eq [] text

theorem lowercase_eq_self {text : List Char} (h : ∀ c ∈ text, c ≠ 'Σ' ∧ lowercaseChar c = [c]) :
    lowercase text = text := by
  unfold lowercase
  generalize [] = before
  induction text generalizing before with
  | nil => rfl
  | cons c rest ih =>
    obtain ⟨⟨hsigma, hc⟩, hrest⟩ := List.forall_mem_cons.mp h
    rw [lowercaseAfter, if_neg hsigma, hc, ih hrest, List.singleton_append]

theorem lowercaseBetween_append (before after part rest : List Char) :
    lowercaseBetween before after (part ++ rest) =
      lowercaseBetween before (rest ++ after) part ++
        lowercaseBetween (part.reverse ++ before) after rest := by
  induction part generalizing before with
  | nil => rfl
  | cons c part ih =>
    rw [List.cons_append, lowercaseBetween, lowercaseBetween, ih, List.append_assoc,
      List.append_assoc, List.reverse_cons, List.append_assoc]
    rfl

/-- What holds of every capital sigma of a text, what stands before it and what stands after it. -/
def ForallSigmas (p : List Char → List Char → Prop) (text : List Char) : Prop :=
  ∀ front back, text = front ++ 'Σ' :: back → p front back

theorem forallSigmas_nil {p : List Char → List Char → Prop} : ForallSigmas p [] := by
  intro front back hsplit
  simp at hsplit

theorem forallSigmas_cons {p : List Char → List Char → Prop} {c : Char} {rest : List Char} :
    ForallSigmas p (c :: rest) ↔
      (c = 'Σ' → p [] rest) ∧ ForallSigmas (fun front back => p (c :: front) back) rest := by
  constructor
  · intro h
    refine ⟨fun hc => h [] rest (by rw [hc, List.nil_append]), fun front back hrest => ?_⟩
    exact h (c :: front) back (by rw [hrest, List.cons_append])
  · rintro ⟨hfirst, hrest⟩ front back hsplit
    cases front with
    | nil =>
      obtain ⟨rfl, rfl⟩ := List.cons.inj hsplit
      exact hfirst rfl
    | cons d front =>
      obtain ⟨rfl, rfl⟩ := List.cons.inj hsplit
      exact hrest front back rfl

theorem ForallSigmas.left {p : List Char → List Char → Prop} {front back : List Char}
    (h : ForallSigmas p (front ++ back)) :
    ForallSigmas (fun left right => p left (right ++ back)) front :=
  fun left right hsplit =>
    h left (right ++ back) (by rw [hsplit, List.append_assoc, List.cons_append])

theorem ForallSigmas.right {p : List Char → List Char → Prop} {front back : List Char}
    (h : ForallSigmas p (front ++ back)) :
    ForallSigmas (fun left right => p (front ++ left) right) back :=
  fun left right hsplit => h (front ++ left) right (by rw [hsplit, List.append_assoc])

/-- Where every sigma is the same, all is. -/
theorem lowercaseBetween_congr {before before' after after' part : List Char}
    (h : ForallSigmas (fun front back => sigmaBetween (front.reverse ++ before) (back ++ after) =
      sigmaBetween (front.reverse ++ before') (back ++ after')) part) :
    lowercaseBetween before after part = lowercaseBetween before' after' part := by
  induction part generalizing before before' with
  | nil => rfl
  | cons c rest ih =>
    obtain ⟨hfirst, hrest⟩ := forallSigmas_cons.mp h
    have hlower : lowercaseBetween (c :: before) after rest =
        lowercaseBetween (c :: before') after' rest := by
      apply ih
      simpa using hrest
    rw [lowercaseBetween, lowercaseBetween, hlower]
    split
    next hc => exact congrArg (fun form => [form] ++ _) (hfirst hc)
    next => rfl

/-- Whether the capital sigmas of a part have the lowercase in its place that they have in the part
alone. -/
def KeepsSigmas (before part after : List Char) : Prop :=
  ForallSigmas (fun front back =>
    sigmaBetween (before ++ front).reverse (back ++ after) = sigmaBetween front.reverse back) part

/-- A part of a text that has its own lowercase there has it as a part of the lowercase. -/
theorem KeepsSigmas.lowercase_infix_lowercase {before part after : List Char}
    (h : KeepsSigmas before part after) :
    lowercase part <:+: lowercase (before ++ part ++ after) := by
  have hpart : lowercaseBetween before.reverse after part = lowercase part := by
    rw [lowercase_eq]
    apply lowercaseBetween_congr
    simpa [KeepsSigmas] using h
  rw [← hpart, lowercase_eq, lowercaseBetween_append, lowercaseBetween_append, List.append_nil,
    List.append_nil]
  exact List.infix_append ..

/-- Where no more sigmas have a form, there are no more of it. -/
theorem count_lowercaseBetween_le {form : Char} {before before' after after' part : List Char}
    (h : ForallSigmas (fun front back =>
      sigmaBetween (front.reverse ++ before) (back ++ after) = form →
        sigmaBetween (front.reverse ++ before') (back ++ after') = form) part) :
    (lowercaseBetween before after part).count form ≤
      (lowercaseBetween before' after' part).count form := by
  induction part generalizing before before' with
  | nil => exact Nat.le_refl _
  | cons c rest ih =>
    obtain ⟨hfirst, hrest⟩ := forallSigmas_cons.mp h
    have hcount : (lowercaseBetween (c :: before) after rest).count form ≤
        (lowercaseBetween (c :: before') after' rest).count form := by
      apply ih
      simpa using hrest
    rw [lowercaseBetween, lowercaseBetween, List.count_append, List.count_append]
    split
    next hc =>
      have hone : [sigmaBetween before (rest ++ after)].count form ≤
          [sigmaBetween before' (rest ++ after')].count form := by
        by_cases hform : sigmaBetween before (rest ++ after) = form
        · have hform' : sigmaBetween before' (rest ++ after') = form := hfirst hc hform
          exact Nat.le_of_eq (by rw [hform, hform'])
        · rw [List.count_singleton, if_neg (by simpa using hform)]
          exact Nat.zero_le _
      omega
    next => omega

/-- Where one sigma less has a form, there is one less of it. -/
theorem count_lowercaseBetween_lt {form : Char} {before before' after after' front back : List Char}
    (h : ForallSigmas (fun front back =>
      sigmaBetween (front.reverse ++ before) (back ++ after) = form →
        sigmaBetween (front.reverse ++ before') (back ++ after') = form) (front ++ 'Σ' :: back))
    (hform : sigmaBetween (front.reverse ++ before) (back ++ after) ≠ form)
    (hform' : sigmaBetween (front.reverse ++ before') (back ++ after') = form) :
    (lowercaseBetween before after (front ++ 'Σ' :: back)).count form <
      (lowercaseBetween before' after' (front ++ 'Σ' :: back)).count form := by
  have hfront : (lowercaseBetween before ('Σ' :: back ++ after) front).count form ≤
      (lowercaseBetween before' ('Σ' :: back ++ after') front).count form := by
    apply count_lowercaseBetween_le
    simpa using h.left
  have hback : (lowercaseBetween ('Σ' :: (front.reverse ++ before)) after back).count form ≤
      (lowercaseBetween ('Σ' :: (front.reverse ++ before')) after' back).count form := by
    apply count_lowercaseBetween_le
    simpa using (forallSigmas_cons.mp h.right).2
  have hone : [sigmaBetween (front.reverse ++ before) (back ++ after)].count form = 0 := by
    rw [List.count_singleton, if_neg (by simpa using hform)]
  have hone' : [sigmaBetween (front.reverse ++ before') (back ++ after')].count form = 1 := by
    rw [hform', List.count_singleton_self]
  rw [lowercaseBetween_append, lowercaseBetween_append, lowercaseBetween, lowercaseBetween,
    if_pos rfl, if_pos rfl]
  simp only [List.count_append]
  omega

/-- Whether the next character that counts is none that has case. -/
def meetsUncased (text : List Char) : Bool :=
  match text.dropWhile isCaseIgnorable with
  | c :: _ => !isCased c
  | [] => false

/-- What comes later counts where nothing has counted before it. -/
theorem meetsCased_append (text more : List Char) :
    meetsCased (text ++ more) = (meetsCased text || (!meetsUncased text && meetsCased more)) := by
  unfold meetsCased meetsUncased
  rw [List.dropWhile_append]
  cases text.dropWhile isCaseIgnorable with
  | nil => simp
  | cons c rest => cases hc : isCased c <;> simp [hc]

theorem not_meetsCased_of_meetsUncased {text : List Char} (h : meetsUncased text) :
    meetsCased text = false := by
  unfold meetsUncased at h
  unfold meetsCased
  split at h
  next hdrop => simpa [hdrop] using h
  next => cases h

/-- Whether a text settles the lowercase of its capital sigmas, whatever comes before and after it:
of each of them it shows that it does not end a word, or that it does. -/
def SettlesSigmas (text : List Char) : Prop :=
  ForallSigmas (fun front back => meetsUncased front.reverse ∨ meetsCased back ∨
    (meetsCased front.reverse ∧ meetsUncased back)) text

theorem settlesSigmas_of_notMem {text : List Char} (h : 'Σ' ∉ text) : SettlesSigmas text :=
  fun front back hsplit => absurd (by simp [hsplit]) h

theorem sigmaBetween_append {front back : List Char}
    (h : meetsUncased front ∨ meetsCased back ∨ (meetsCased front ∧ meetsUncased back))
    (before after : List Char) :
    sigmaBetween (front ++ before) (back ++ after) = sigmaBetween front back := by
  unfold sigmaBetween
  rw [meetsCased_append, meetsCased_append]
  rcases h with hfront | hback | ⟨hfront, hback⟩
  · simp [hfront, not_meetsCased_of_meetsUncased hfront]
  · simp [hback]
  · simp [hfront, hback]

theorem SettlesSigmas.keepsSigmas {text : List Char} (h : SettlesSigmas text)
    (before after : List Char) : KeepsSigmas before text after := by
  intro front back hsplit
  rw [List.reverse_append, sigmaBetween_append (h front back hsplit)]

theorem sigmaBetween_eq_final_iff {before after : List Char} :
    sigmaBetween before after = 'ς' ↔ meetsCased before ∧ meetsCased after = false := by
  unfold sigmaBetween
  split
  next h => simpa using h
  next h => simpa using h

theorem sigmaBetween_eq_inner_iff {before after : List Char} :
    sigmaBetween before after = 'σ' ↔ meetsCased before = false ∨ meetsCased after := by
  unfold sigmaBetween
  split
  next h => simpa using h
  next h => simpa [Decidable.or_iff_not_imp_left] using h

/-- A letter after a text keeps its last sigma from ending a word. -/
theorem count_final_lt {front back : List Char} (hfront : meetsCased front.reverse)
    (hcased : meetsCased back = false) (huncased : meetsUncased back = false) :
    (lowercase (front ++ 'Σ' :: back ++ ['a'])).count 'ς' <
      (lowercase (front ++ 'Σ' :: back)).count 'ς' := by
  have hletter : meetsCased ['a'] := by decide +kernel
  have hlast (before : List Char) : lowercaseBetween before [] ['a'] = ['a'] := by
    rw [lowercaseBetween, if_neg (by decide), show lowercaseChar 'a' = ['a'] by decide +kernel]
    rfl
  rw [lowercase_eq, lowercase_eq, lowercaseBetween_append, hlast, List.append_nil,
    List.count_append, List.count_singleton, if_neg (by decide), Nat.add_zero]
  apply count_lowercaseBetween_lt
  · intro front' back' _ hform
    rw [sigmaBetween_eq_final_iff, meetsCased_append back', Bool.or_eq_false_iff] at hform
    rw [sigmaBetween_eq_final_iff, List.append_nil back']
    exact ⟨hform.1, hform.2.1⟩
  · rw [Ne, sigmaBetween_eq_final_iff, meetsCased_append back, huncased, hletter]
    simp
  · rw [sigmaBetween_eq_final_iff, List.append_nil, List.append_nil]
    exact ⟨hfront, hcased⟩

/-- A letter before a text lets its first sigma end a word. -/
theorem count_inner_lt {front back : List Char} (hcased : meetsCased front.reverse = false)
    (huncased : meetsUncased front.reverse = false) (hback : meetsCased back = false) :
    (lowercase (['A'] ++ (front ++ 'Σ' :: back))).count 'σ' <
      (lowercase (front ++ 'Σ' :: back)).count 'σ' := by
  have hletter : meetsCased ['A'] := by decide +kernel
  have hfirst (after : List Char) : lowercaseBetween [] after ['A'] = ['a'] := by
    rw [lowercaseBetween, if_neg (by decide), show lowercaseChar 'A' = ['a'] by decide +kernel]
    rfl
  rw [lowercase_eq, lowercase_eq, lowercaseBetween_append, hfirst, List.append_nil,
    List.count_append, List.count_singleton, if_neg (by decide), Nat.zero_add]
  apply count_lowercaseBetween_lt
  · intro front' back' _ hform
    rw [sigmaBetween_eq_inner_iff, List.reverse_singleton, List.append_nil back',
      meetsCased_append front'.reverse, Bool.or_eq_false_iff] at hform
    rw [sigmaBetween_eq_inner_iff, List.append_nil, List.append_nil]
    exact hform.imp_left And.left
  · rw [Ne, sigmaBetween_eq_inner_iff, List.reverse_singleton, List.append_nil,
      meetsCased_append front.reverse, huncased, hletter, hback]
    simp
  · rw [sigmaBetween_eq_inner_iff, List.append_nil, List.append_nil]
    exact .inl hcased

/-- A text that does not settle its sigmas has another lowercase somewhere, with less sigmas of one
form than it has alone. -/
theorem exists_count_lowercase_lt {text : List Char} (h : ¬ SettlesSigmas text) :
    ∃ before after form, (form = 'ς' ∨ form = 'σ') ∧
      (lowercase (before ++ text ++ after)).count form < (lowercase text).count form := by
  simp only [SettlesSigmas, ForallSigmas, not_forall, not_or, not_and, Bool.not_eq_true] at h
  obtain ⟨front, back, rfl, hfront, hback, hboth⟩ := h
  cases hcased : meetsCased front.reverse with
  | true => exact ⟨[], ['a'], 'ς', .inl rfl, count_final_lt hcased hback (hboth hcased)⟩
  | false =>
    refine ⟨['A'], [], 'σ', .inr rfl, ?_⟩
    rw [List.append_nil]
    exact count_inner_lt hcased hfront hback

end Reckoner
