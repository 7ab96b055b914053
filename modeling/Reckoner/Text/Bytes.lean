/-! The size of a text, and positions in it, in bytes. -/
namespace Reckoner

/-- How many bytes a text takes in UTF-8. -/
def byteCount : List Char → Nat
  | [] => 0
  | c :: rest => c.utf8Size + byteCount rest

@[simp] theorem byteCount_append (text more : List Char) :
    byteCount (text ++ more) = byteCount text + byteCount more := by
  induction text with
  | nil => simp [byteCount]
  | cons c text ih => rw [List.cons_append, byteCount, byteCount, ih, Nat.add_assoc]

/-- The text from a byte position on; none if that is within a character or beyond the end. -/
def dropBytes? : Nat → List Char → Option (List Char)
  | 0, text => some text
  | _ + 1, [] => none
  | n + 1, c :: rest => if c.utf8Size ≤ n + 1 then dropBytes? (n + 1 - c.utf8Size) rest else none

/-- The end of what a text begins with is at a character. -/
theorem dropBytes?_append (before after : List Char) :
    dropBytes? (byteCount before) (before ++ after) = some after := by
  induction before with
  | nil => unfold byteCount dropBytes?; rfl
  | cons c before ih =>
    have hsize := c.utf8Size_pos
    obtain ⟨n, hn⟩ : ∃ n, byteCount (c :: before) = n + 1 :=
      ⟨byteCount (c :: before) - 1, by rw [byteCount]; omega⟩
    rw [hn, List.cons_append, dropBytes?, ← hn, byteCount, if_pos (Nat.le_add_right _ _),
      Nat.add_sub_cancel_left, ih]

end Reckoner
