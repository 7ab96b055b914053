import Mathlib.Data.List.DropRight
import Reckoner.Text.Blank

/-! Texts without the white space around them. -/
namespace Reckoner

theorem mem_strip_iff {c : Char} {text : List Char} : c ∈ strip text ↔ c ∈ text ∧ ¬ isBlank c := by
  simp [strip]

/-- No white space is left before a trimmed text. -/
theorem not_isBlank_of_mem_head?_trim (text : List Char) : ∀ c ∈ (trim text).head?, ¬ isBlank c := by
  intro c hc
  obtain ⟨rest, hrest⟩ := List.rdropWhile_prefix isBlank (trimLeft text)
  change trim text ++ rest = _ at hrest
  have hfirst : (trimLeft text).head? = some c := by
    rw [← hrest, List.head?_append, Option.mem_def.mp hc, Option.some_or]
  have hhead := List.head?_dropWhile_not isBlank text
  unfold trimLeft at hfirst
  rw [hfirst] at hhead
  simpa using hhead

theorem trimLeft_trim (text : List Char) : trimLeft (trim text) = trim text := by
  apply List.dropWhile_eq_self_iff.mpr
  intro hlength hblank
  refine not_isBlank_of_mem_head?_trim text (trim text)[0] ?_ hblank
  rw [List.head?_eq_getElem?, List.getElem?_eq_getElem hlength, Option.mem_def]

theorem trim_trim (text : List Char) : trim (trim text) = trim text := by
  rw [trim, trimLeft_trim]
  exact List.rdropWhile_idempotent isBlank (trimLeft text)

/-- A trimmed text begins with a character that is kept where all white space is taken away. -/
theorem mem_strip_of_mem_head?_trim (text : List Char) : ∀ c ∈ (trim text).head?, c ∈ strip text := by
  intro c hc
  rw [← strip_trim, mem_strip_iff]
  exact ⟨List.mem_of_mem_head? hc, not_isBlank_of_mem_head?_trim text c hc⟩

theorem infix_trimLeft_iff {c : Char} (hc : ¬ isBlank c) (part text : List Char) :
    c :: part <:+: trimLeft text ↔ c :: part <:+: text := by
  induction text with
  | nil => rfl
  | cons d rest ih =>
    unfold trimLeft at *
    rw [List.dropWhile_cons]
    split
    next hd =>
      rw [ih, List.infix_cons_iff, or_iff_right]
      intro hbegins
      obtain rfl := (List.cons_prefix_cons.mp hbegins).1
      exact hc hd
    next => rfl

/-- Trimming takes nothing away from a part of a text that neither begins nor ends with white
space. -/
theorem infix_trim_iff {c d : Char} (hc : ¬ isBlank c) (hd : ¬ isBlank d)
    (inside text : List Char) :
    [c] ++ inside ++ [d] <:+: trim text ↔ [c] ++ inside ++ [d] <:+: text := by
  have hreverse : ([c] ++ inside ++ [d]).reverse = d :: (inside.reverse ++ [c]) := by simp
  rw [trim, ← List.reverse_infix, List.reverse_reverse, hreverse, infix_trimLeft_iff hd, ← hreverse,
    List.reverse_infix, List.append_assoc, List.singleton_append, infix_trimLeft_iff hc]

end Reckoner
