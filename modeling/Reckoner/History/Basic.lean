import Reckoner.Decimal.Shortest
import Reckoner.Display
import Reckoner.Instant.Timestamp
import Reckoner.Text.Lowercase
import Reckoner.Text.Occurrence

/-! The history of calculations, oldest first: only so many are kept, and the oldest make room
for the newest. -/
namespace Reckoner

structure Entry where
  expression : List Char
  result : Binary64
  instant : Instant
deriving DecidableEq

namespace Entry

def display (e : Entry) : List Char :=
  e.expression ++ " = ".toList ++ Display.significant Display.defaultDigits e.result

/-- Whether a text in lowercase occurs in the expression, or in the result as it is stored or as
it is shown. -/
def mentions (e : Entry) (query : List Char) : Bool :=
  occursIn query (lowercase e.expression) ||
    occursIn query (DigitStyle.searched.write e.result) ||
    occursIn query (Display.significant Display.defaultDigits e.result)

end Entry

/-- The last `n` items of a list, or all where there are fewer. -/
def lastOf {α : Type} (n : Nat) (items : List α) : List α :=
  items.drop (items.length - n)

theorem length_lastOf_le {α : Type} (n : Nat) (items : List α) :
    (lastOf n items).length ≤ n := by
  simp only [lastOf, List.length_drop]
  omega

theorem lastOf_of_length_le {α : Type} {n : Nat} {items : List α} (h : items.length ≤ n) :
    lastOf n items = items := by
  simp [lastOf, Nat.sub_eq_zero_of_le h]

/-- What has been dropped does not come back: only the last items count. -/
theorem lastOf_lastOf_append {α : Type} (n : Nat) (items more : List α) :
    lastOf n (lastOf n items ++ more) = lastOf n (items ++ more) := by
  simp only [lastOf, List.drop_append, List.drop_drop, List.length_append, List.length_drop]
  congr 1 <;> congr 1 <;> omega

theorem map_lastOf {α β : Type} (f : α → β) (n : Nat) (items : List α) :
    (lastOf n items).map f = lastOf n (items.map f) := by
  simp [lastOf, List.map_drop]

/-- A history of at most `limit` entries. -/
structure History where
  limit : Nat
  entries : List Entry
  length_le : entries.length ≤ limit
deriving DecidableEq

namespace History

/-- How many entries are kept where no number is given. -/
def defaultLimit : Nat := 100

def ofEntries (limit : Nat) (entries : List Entry) : History where
  limit := limit
  entries := lastOf limit entries
  length_le := length_lastOf_le limit entries

def empty (limit : Nat) : History :=
  ofEntries limit []

@[simp] theorem entries_ofEntries (limit : Nat) (entries : List Entry) :
    (ofEntries limit entries).entries = lastOf limit entries := rfl

@[simp] theorem limit_ofEntries (limit : Nat) (entries : List Entry) :
    (ofEntries limit entries).limit = limit := rfl

@[simp] theorem entries_empty (limit : Nat) : (empty limit).entries = [] := by
  simp [empty, lastOf]

def push (h : History) (e : Entry) : History :=
  ofEntries h.limit (h.entries ++ [e])

@[simp] theorem entries_push (h : History) (e : Entry) :
    (h.push e).entries = lastOf h.limit (h.entries ++ [e]) := rfl

@[simp] theorem limit_push (h : History) (e : Entry) : (h.push e).limit = h.limit := rfl

theorem forall_mem_push {p : Entry → Prop} {h : History} {e : Entry}
    (hentries : ∀ e' ∈ h.entries, p e') (he : p e) : ∀ e' ∈ (h.push e).entries, p e' := by
  intro e' he'
  rcases List.mem_append.mp (List.mem_of_mem_drop he') with hold | hnew
  · exact hentries e' hold
  · rw [List.mem_singleton.mp hnew]
    exact he

def clear (h : History) : History :=
  empty h.limit

@[simp] theorem entries_clear (h : History) : h.clear.entries = [] :=
  entries_empty h.limit

@[simp] theorem limit_clear (h : History) : h.clear.limit = h.limit := rfl

def recent (h : History) (count : Nat) : List Entry :=
  lastOf count h.entries

/-- The last `count` entries, or all where no number is given. -/
def list (h : History) : Option Nat → List Entry
  | some count => h.recent count
  | none => h.entries

/-- The entry at a position; a negative position counts from the end. -/
def get? (h : History) : Int → Option Entry
  | .ofNat i => h.entries[i]?
  | .negSucc i => if i < h.entries.length then h.entries[h.entries.length - (i + 1)]? else none

def last? (h : History) : Option Entry :=
  h.entries.getLast?

/-- The entries that mention a text, in any case. -/
def search (h : History) (query : List Char) : List Entry :=
  h.entries.filter (·.mentions (lowercase query))

def line (zone : Zone) (number : Nat) (e : Entry) : List Char :=
  Nat.toDigits 10 number ++ ". [".toList ++ (zone.wallClock e.instant).timeOfDay ++ "] ".toList ++
    e.display

/-- The last entries as the user reads them, numbered from one, with the times on the wall. -/
def listing (h : History) (zone : Zone) (count : Option Nat) : List Char :=
  match h.list count with
  | [] => "No calculation history".toList
  | entries =>
    ['\n'].intercalate ("Calculation History:".toList :: List.replicate 40 '-' ::
      entries.mapIdx fun i e => line zone (i + 1) e)

end History

end Reckoner
