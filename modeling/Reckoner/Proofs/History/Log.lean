import Mathlib.Data.List.DropRight
import Reckoner.Proofs.History.Reload

/-! A history over its lifetime. It holds the end of a log that forgets nothing: the entries of the
file that was loaded last, and all that have been pushed since. -/
namespace Reckoner.History

/-- What is done with a history. The storage is the one that is there at the time, which others may
have changed. An entry that is added now is pushed with the time of the clock. -/
inductive Operation where
  | push (e : Entry)
  | clear
  | save (storage : Storage) (workingDirectory : Location) (path : List Char)
  | load (storage : Storage) (workingDirectory : Location) (path : List Char)

/-- The history after an operation; a file that cannot be loaded leaves it as it is. -/
def perform (h : History) : Operation → History
  | .push e => h.push e
  | .clear => h.clear
  | .save _ _ _ => h
  | .load storage workingDirectory path => (h.loadFrom? storage workingDirectory path).getD h

def after (limit : Nat) (operations : List Operation) : History :=
  operations.foldl perform (empty limit)

/-- The file that is read at a path, if there is one and it is a history. -/
def fileAt? (storage : Storage) (workingDirectory : Location) (path : List Char) : Option File :=
  match storage.look workingDirectory path with
  | .text content => File.ofText? content
  | _ => none

namespace Operation

/-- The file that is loaded. -/
def file? : Operation → Option File
  | load storage workingDirectory path => fileAt? storage workingDirectory path
  | _ => none

/-- The entries that take the place of all that were there. -/
def base? : Operation → Option (List Entry)
  | clear => some []
  | op => op.file?.map File.entries

def pushed? : Operation → Option Entry
  | push e => some e
  | _ => none

end Operation

/-- The limit of the last file that gave one, or else the first limit. -/
def limitAfter (limit : Nat) (operations : List Operation) : Nat :=
  (operations.filterMap fun op => op.file?.bind File.limit).getLastD limit

/-- The entries that were there at the last new beginning, and all that were pushed after it. -/
def log (operations : List Operation) : List Entry :=
  (operations.filterMap Operation.base?).getLastD [] ++
    (operations.rtakeWhile fun op => op.base?.isNone).filterMap Operation.pushed?

theorem limitAfter_append (limit : Nat) (operations : List Operation) (op : Operation) :
    limitAfter limit (operations ++ [op]) =
      (op.file?.bind File.limit).getD (limitAfter limit operations) := by
  unfold limitAfter
  rw [List.filterMap_append]
  cases hlimit : op.file?.bind File.limit <;> simp [hlimit]

theorem log_append_of_base? {op : Operation} {entries : List Entry} (h : op.base? = some entries)
    (operations : List Operation) : log (operations ++ [op]) = entries := by
  unfold log
  rw [List.filterMap_append, List.rtakeWhile_concat_neg _ _ _ (by simp [h])]
  simp [h]

theorem log_append_of_base?_eq_none {op : Operation} (h : op.base? = none)
    (operations : List Operation) :
    log (operations ++ [op]) = log operations ++ op.pushed?.toList := by
  unfold log
  rw [List.filterMap_append, List.rtakeWhile_concat_pos _ _ _ (by simp [h])]
  cases hpushed : op.pushed? <;> simp [h, hpushed]

theorem loadFrom?_eq (h : History) (storage : Storage) (workingDirectory : Location)
    (path : List Char) :
    h.loadFrom? storage workingDirectory path =
      (fileAt? storage workingDirectory path).map fun file =>
        ofEntries (file.limit.getD h.limit) file.entries := by
  unfold loadFrom? fileAt?
  cases storage.look workingDirectory path <;> rfl

/-- An operation that begins nothing anew and pushes nothing changes nothing. -/
theorem perform_of_eq_none {op : Operation} (hbase : op.base? = none) (hpushed : op.pushed? = none)
    (h : History) : h.perform op = h := by
  cases op with
  | push e => cases hpushed
  | clear => cases hbase
  | save storage workingDirectory path => rfl
  | load storage workingDirectory path =>
    have hfile : fileAt? storage workingDirectory path = none := Option.map_eq_none_iff.mp hbase
    rw [perform, loadFrom?_eq, hfile]
    rfl

/-- One operation on the end of a log: the log grows, or begins anew. -/
theorem perform_ofEntries (limit : Nat) (operations : List Operation) (op : Operation) :
    (ofEntries (limitAfter limit operations) (log operations)).perform op =
      ofEntries (limitAfter limit (operations ++ [op])) (log (operations ++ [op])) := by
  rw [limitAfter_append]
  cases op with
  | push e =>
    rw [log_append_of_base?_eq_none rfl]
    simp only [perform, push, ofEntries, lastOf_lastOf_append]
    rfl
  | clear =>
    rw [log_append_of_base? rfl]
    rfl
  | save storage workingDirectory path =>
    rw [log_append_of_base?_eq_none rfl]
    simp [perform, Operation.file?, Operation.pushed?]
  | load storage workingDirectory path =>
    rw [perform, loadFrom?_eq]
    cases hfile : fileAt? storage workingDirectory path with
    | none =>
      rw [log_append_of_base?_eq_none (by simp [Operation.base?, Operation.file?, hfile])]
      simp [Operation.file?, Operation.pushed?, hfile]
    | some file =>
      have hbase : (Operation.load storage workingDirectory path).base? = some file.entries := by
        simp [Operation.base?, Operation.file?, hfile]
      rw [log_append_of_base? hbase]
      simp only [Operation.file?, hfile, Option.map_some, Option.getD_some, Option.bind_some,
        limit_ofEntries]

theorem after_eq (limit : Nat) (operations : List Operation) :
    after limit operations = ofEntries (limitAfter limit operations) (log operations) := by
  induction operations using List.reverseRecOn with
  | nil => rfl
  | append_singleton operations op ih =>
    rw [← perform_ofEntries, ← ih]
    simp [after]

theorem lastOf_suffix {α : Type} (n : Nat) (items : List α) : lastOf n items <:+ items :=
  List.drop_suffix _ _

theorem length_lastOf {α : Type} (n : Nat) (items : List α) :
    (lastOf n items).length = min n items.length := by
  rw [lastOf, List.length_drop]
  omega

theorem get?_natCast (h : History) (i : Nat) : h.get? i = h.entries[i]? := rfl

theorem get?_negSucc (h : History) (i : Nat) :
    h.get? (.negSucc i) =
      if i < h.entries.length then h.entries[h.entries.length - (i + 1)]? else none := rfl

theorem get?_eq (h : History) (i : Int) :
    h.get? i =
      if 0 ≤ i ∧ i < h.entries.length then h.entries[i.toNat]?
      else if -(h.entries.length : Int) ≤ i ∧ i < 0 then
        h.entries[(h.entries.length + i).toNat]?
      else none := by
  rcases lt_or_ge i 0 with hneg | hnonneg
  · obtain ⟨n, rfl⟩ := Int.eq_negSucc_of_lt_zero hneg
    have hposition : (h.entries.length + Int.negSucc n).toNat = h.entries.length - (n + 1) := by
      omega
    rw [get?_negSucc, hposition]
    by_cases hrange : n < h.entries.length
    · rw [if_pos hrange, if_neg (by omega), if_pos (by omega)]
    · rw [if_neg hrange, if_neg (by omega), if_neg (by omega)]
  · obtain ⟨n, rfl⟩ := Int.eq_ofNat_of_zero_le hnonneg
    rw [get?_natCast, if_neg (show ¬ (-(h.entries.length : Int) ≤ n ∧ (n : Int) < 0) by omega)]
    split
    next => rw [Int.toNat_natCast]
    next hrange => rw [List.getElem?_eq_none (by omega)]

theorem last?_eq_get? (h : History) : h.last? = h.get? (-1) := by
  rw [last?, List.getLast?_eq_getElem?, show (-1 : Int) = .negSucc 0 from rfl,
    get?_negSucc]
  split
  next => rfl
  next hempty => rw [List.getElem?_eq_none (by omega)]

/-- After any operations, of which loads may fail, the history holds the last entries of the log, as
many as the last limit that was given allows, also where that is zero. It is looked up by position
from either end, and its last entries are the end of what it holds. -/
theorem entries_after_suffix_log (limit : Nat) (operations : List Operation) :
    (after limit operations).limit = limitAfter limit operations ∧
    (after limit operations).entries <:+ log operations ∧
    (after limit operations).entries.length =
      min (limitAfter limit operations) (log operations).length ∧
    (∀ op : Operation, op.base? = none → op.pushed? = none →
      (after limit operations).perform op = after limit operations) ∧
    (∀ i : Int, (after limit operations).get? i =
      if 0 ≤ i ∧ i < (after limit operations).entries.length then
        (after limit operations).entries[i.toNat]?
      else if -((after limit operations).entries.length : Int) ≤ i ∧ i < 0 then
        (after limit operations).entries[((after limit operations).entries.length + i).toNat]?
      else none) ∧
    (after limit operations).last? = (after limit operations).get? (-1) ∧
    ∀ n, (after limit operations).list (some n) = (after limit operations).recent n ∧
      (after limit operations).recent n <:+ (after limit operations).entries ∧
      ((after limit operations).recent n).length =
        min n (after limit operations).entries.length := by
  refine ⟨?_, ?_, ?_, fun _ hbase hpushed => perform_of_eq_none hbase hpushed _, get?_eq _,
    last?_eq_get? _, fun n => ⟨rfl, lastOf_suffix n _, length_lastOf n _⟩⟩
  · rw [after_eq]
    rfl
  · rw [after_eq, entries_ofEntries]
    exact lastOf_suffix _ _
  · rw [after_eq, entries_ofEntries]
    exact length_lastOf _ _

end Reckoner.History
