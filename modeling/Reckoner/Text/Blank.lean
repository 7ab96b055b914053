/-! White space: the characters of the Unicode property `White_Space`, and taking them away. -/
namespace Reckoner

/-- Whether `c` has the property `White_Space`. -/
def isBlank (c : Char) : Bool :=
  let n := c.toNat
  (0x09 ≤ n && n ≤ 0x0D) || n == 0x20 || n == 0x85 || n == 0xA0 || n == 0x1680 ||
    (0x2000 ≤ n && n ≤ 0x200A) || n == 0x2028 || n == 0x2029 || n == 0x202F || n == 0x205F ||
    n == 0x3000

def strip (text : List Char) : List Char :=
  text.filter (!isBlank ·)

def trimLeft (text : List Char) : List Char :=
  text.dropWhile isBlank

/-- A text without the white space before and after it. -/
def trim (text : List Char) : List Char :=
  (trimLeft (trimLeft text).reverse).reverse

@[simp] theorem strip_append (s t : List Char) : strip (s ++ t) = strip s ++ strip t :=
  List.filter_append ..

@[simp] theorem strip_strip (s : List Char) : strip (strip s) = strip s := by
  simp [strip]

@[simp] theorem strip_reverse (s : List Char) : strip s.reverse = (strip s).reverse :=
  List.filter_reverse ..

@[simp] theorem strip_trimLeft (s : List Char) : strip (trimLeft s) = strip s := by
  induction s with
  | nil => rfl
  | cons c rest ih =>
    simp only [trimLeft, List.dropWhile_cons] at *
    split
    next h => simpa [strip, h] using ih
    next => rfl

/-- White space around a text is white space of the text. -/
@[simp] theorem strip_trim (s : List Char) : strip (trim s) = strip s := by
  simp [trim]

end Reckoner
