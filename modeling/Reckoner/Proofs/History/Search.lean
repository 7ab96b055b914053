import Reckoner.Proofs.Display.Grouped
import Reckoner.Proofs.History.Reload
import Reckoner.Proofs.Text.Lowercase

/-! What a search finds. It lists entries in their order, and misses no text that can be seen, but
one with a capital sigma of which the text itself does not show whether it ends a word. -/
namespace Reckoner

namespace Display

/-! The characters of a shown value. -/

def IsShownChar (c : Char) : Prop :=
  c.isDigit ∨ c ∈ ".-+einfa".toList

theorem IsShownChar.lowercase {c : Char} (h : IsShownChar c) : c ≠ 'Σ' ∧ lowercaseChar c = [c] := by
  rcases h with hdigit | hmem
  · exact of_isDigit (p := fun c => c ≠ 'Σ' ∧ lowercaseChar c = [c]) (by decide +kernel) hdigit
  · have hall : ".-+einfa".toList.all fun c => decide (c ≠ 'Σ' ∧ lowercaseChar c = [c]) := by
      decide +kernel
    exact of_decide_eq_true (List.all_eq_true.mp hall c hmem)

theorem isShownChar_of_mem_numeral (n : Numeral) : ∀ c ∈ n.text, IsShownChar c := by
  intro c hc
  rcases n.isDigit_or_point_of_mem_text hc with hdigit | rfl
  · exact .inl hdigit
  · exact .inr (by decide)

theorem isShownChar_of_isScientific {leading : ℤ} {text : List Char}
    (h : IsScientific leading text) : ∀ c ∈ text, IsShownChar c := by
  obtain ⟨digit, fraction, exponent, rfl, hdigit, hfraction, hexponent, -⟩ := h
  have hsign : IsShownChar (if leading < 0 then '-' else '+') := by
    split <;> exact .inr (by decide)
  have hshown : ∀ c ∈ fraction, IsShownChar c := by
    cases hfraction with
    | none => simp
    | @digits digits last hdigits hlast =>
      intro c hc
      simp only [List.mem_cons, List.mem_append, List.not_mem_nil, or_false] at hc
      rcases hc with rfl | hc | rfl
      · exact .inr (by decide)
      · exact .inl (hdigits c hc)
      · exact .inl hlast.1
  intro c hc
  simp only [List.mem_cons, List.mem_append] at hc
  rcases hc with rfl | hc | rfl | rfl | hc
  · exact .inl hdigit
  · exact hshown c hc
  · exact .inr (by decide)
  · exact hsign
  · exact .inl (hexponent c hc)

theorem isShownChar_of_mem_significant (digits : Nat) (v : Binary64) :
    ∀ c ∈ significant digits v, IsShownChar c := by
  have hsigned {text : List Char} (h : ∀ c ∈ text, IsShownChar c) (negative : Bool) :
      ∀ c ∈ signed negative text, IsShownChar c := by
    intro c hc
    rcases eq_minus_or_mem_of_mem_signed hc with rfl | htext
    · exact .inr (by decide)
    · exact h c htext
  have hname {text : List Char} (h : text ⊆ ".-+einfa".toList) : ∀ c ∈ text, IsShownChar c :=
    fun _ hc => .inr (h hc)
  cases v with
  | nan => exact hname (show "nan".toList ⊆ _ by decide)
  | infinite negative => exact hsigned (hname (by decide)) negative
  | finite negative x =>
    by_cases hx : x.isZero
    · rw [significant, if_pos hx]
      exact List.forall_mem_singleton.mpr (.inl (by decide))
    · rw [significant_finite digits negative hx]
      apply hsigned
      unfold unsigned
      split
      next =>
        rw [← Decimal.text_numeral]
        exact isShownChar_of_mem_numeral _
      next => exact isShownChar_of_isScientific (isScientific_mantissa _)

/-- A part of a shown value is not changed where a text is searched for. -/
theorem lowercase_of_infix_significant {digits : Nat} {v : Binary64} {part : List Char}
    (h : part <:+: significant digits v) : lowercase part = part :=
  lowercase_eq_self fun c hc => (isShownChar_of_mem_significant digits v c (h.subset hc)).lowercase

end Display

namespace Entry

variable {e : Entry} {query : List Char}

theorem mentions_of_significant
    (h : query <:+: Display.significant Display.defaultDigits e.result) :
    e.mentions (lowercase query) := by
  have hfound := occursIn_iff.mpr h
  rw [mentions, Display.lowercase_of_infix_significant h, hfound, Bool.or_true]

theorem mentions_of_keepsSigmas {before after : List Char}
    (hexpression : e.expression = before ++ query ++ after) (h : KeepsSigmas before query after) :
    e.mentions (lowercase query) := by
  have hfound := occursIn_iff.mpr h.lowercase_infix_lowercase
  rw [mentions, hexpression, hfound, Bool.true_or, Bool.true_or]

/-- A text that does not settle its sigmas occurs in an expression without being found there. -/
theorem exists_not_mentions (h : ¬ SettlesSigmas query) :
    ∃ before after, ∀ instant,
      ¬ mentions ⟨before ++ query ++ after, .nan, instant⟩ (lowercase query) := by
  obtain ⟨before, after, form, hform, hcount⟩ := exists_count_lowercase_lt h
  refine ⟨before, after, fun instant => ?_⟩
  have hresult : form ∉ DigitStyle.searched.write .nan ∧
      form ∉ Display.significant Display.defaultDigits .nan := by
    rcases hform with rfl | rfl <;> decide
  have hmem : form ∈ lowercase query := List.count_pos_iff.mp (Nat.zero_lt_of_lt hcount)
  rw [mentions, Bool.or_eq_true, Bool.or_eq_true, occursIn_iff, occursIn_iff, occursIn_iff]
  rintro ((hexpression | hstored) | hshown)
  · exact Nat.not_le.mpr hcount (hexpression.sublist.count_le form)
  · exact hresult.1 (hstored.subset hmem)
  · exact hresult.2 (hshown.subset hmem)

end Entry

namespace History

theorem search_sublist (h : History) (query : List Char) :
    (h.search query).Sublist h.entries :=
  List.filter_sublist

theorem mem_search_iff {h : History} {query : List Char} {e : Entry} :
    e ∈ h.search query ↔ e ∈ h.entries ∧ e.mentions (lowercase query) :=
  List.mem_filter

/-- A search lists entries in their order, none more often than it is there. It finds every text in
a result as it is shown, and in an expression where its capital sigmas have the lowercase that
they have alone. It finds a text in all expressions that hold it exactly if the text settles its
sigmas, as one without any does. -/
theorem search_finds_iff_settlesSigmas (query : List Char) :
    (∀ h : History, (h.search query).Sublist h.entries ∧ ∀ e ∈ h.entries,
      (query <:+: Display.significant Display.defaultDigits e.result → e ∈ h.search query) ∧
      ∀ before after, e.expression = before ++ query ++ after → KeepsSigmas before query after →
        e ∈ h.search query) ∧
    ('Σ' ∉ query → SettlesSigmas query) ∧
    ((∀ h : History, h.Reachable → ∀ e ∈ h.entries, query <:+: e.expression →
      e ∈ h.search query) ↔ SettlesSigmas query) := by
  refine ⟨fun h => ⟨search_sublist h query, fun e he => ⟨fun hresult => ?_, ?_⟩⟩,
    settlesSigmas_of_notMem, ?_, ?_⟩
  · exact mem_search_iff.mpr ⟨he, Entry.mentions_of_significant hresult⟩
  · intro before after hexpression hkeeps
    exact mem_search_iff.mpr ⟨he, Entry.mentions_of_keepsSigmas hexpression hkeeps⟩
  · intro hfound
    by_contra hsettles
    obtain ⟨before, after, hnot⟩ := Entry.exists_not_mentions hsettles
    have hmem := hfound (single (before ++ query ++ after) .nan) (reachable_single _ _)
      ⟨before ++ query ++ after, .nan, .epoch⟩
      (by rw [entries_single]; exact List.mem_singleton_self _) ⟨before, after, rfl⟩
    exact hnot _ (mem_search_iff.mp hmem).2
  · rintro hsettles h - e he ⟨before, after, hexpression⟩
    exact mem_search_iff.mpr ⟨he, Entry.mentions_of_keepsSigmas hexpression.symm
      (hsettles.keepsSigmas before after)⟩

/-- The sigma of `ΣΑ` ends no word wherever it stands, so that it is found after a letter. -/
theorem search_finds_iff_settlesSigmas_inner :
    (single "ΑΣΑ=1".toList .nan).Reachable ∧ SettlesSigmas "ΣΑ".toList ∧
      ⟨"ΑΣΑ=1".toList, .nan, .epoch⟩ ∈
        (single "ΑΣΑ=1".toList .nan).search "ΣΑ".toList := by
  have hreachable := reachable_single "ΑΣΑ=1".toList .nan
  have hsettles : SettlesSigmas "ΣΑ".toList := by
    refine forallSigmas_cons.mpr ⟨fun _ => .inr (.inl (by decide +kernel)), ?_⟩
    exact forallSigmas_cons.mpr ⟨fun h => absurd h (by decide), forallSigmas_nil⟩
  refine ⟨hreachable, hsettles, ?_⟩
  exact (search_finds_iff_settlesSigmas _).2.2.mpr hsettles _ hreachable _
    (List.mem_singleton_self _) ⟨['Α'], "=1".toList, rfl⟩

/-- A sigma is not found where it ends a word. -/
theorem search_eq_nil_of_finalSigma :
    (single "AΣ B".toList (.ofBits 0x3FF0000000000000)).Reachable ∧
      (∃ e ∈ (single "AΣ B".toList (.ofBits 0x3FF0000000000000)).entries,
        "Σ".toList <:+: e.expression) ∧
      (single "AΣ B".toList (.ofBits 0x3FF0000000000000)).search "Σ".toList = [] :=
  ⟨reachable_single _ _, ⟨_, List.mem_singleton_self _, ['A'], " B".toList, rfl⟩,
    by decide +kernel⟩

end History

end Reckoner
