import Reckoner.History.File
import Reckoner.Proofs.Instant.Timestamp
import Reckoner.Proofs.Json.Layout
import Reckoner.Proofs.Json.Value

/-! Reading back the file of a history. Everything in it is found again, but for results whose
digits are not read as the value they were written for. -/
namespace Reckoner

namespace Binary64

/-- The value that is read for a result that has been written. -/
def reread : Binary64 → Binary64
  | finite negative x =>
    if negative then x.storedDecimal.roundedApart.neg else x.storedDecimal.roundedApart
  | v => v

/-- A finite value is read as a finite value of the same sign. -/
theorem exists_reread (negative : Bool) (x : Magnitude) :
    ∃ y, x.storedDecimal.roundedApart = finite false y ∧
      (finite negative x).reread = finite negative y := by
  obtain ⟨y, hy⟩ := Json.Number.exists_roundedApart_storedDecimal x
  refine ⟨y, hy, ?_⟩
  simp only [reread, hy]
  cases negative <;> rfl

theorem reread_eq_iff (negative : Bool) (x : Magnitude) :
    (finite negative x).reread = finite negative x ↔
      x.storedDecimal.roundedApart = finite false x := by
  obtain ⟨y, hy, hreread⟩ := exists_reread negative x
  rw [hy, hreread]
  simp

end Binary64

namespace Entry

def reread (e : Entry) : Entry :=
  { e with result := e.result.reread }

@[simp] theorem result_reread (e : Entry) : e.reread.result = e.result.reread := rfl

/-- What is read of an entry that a file has been written with: the instant that its text names. -/
def reread? (zone : Zone) (e : Entry) : Option Entry :=
  ((zone.timestamp? e.instant).bind Instant.ofTimestamp?).map fun t =>
    { e.reread with instant := t }

/-- Nothing but the result changes where clocks are whole minutes apart from universal time. -/
theorem reread?_eq {zone : Zone} {e : Entry} (hminutes : zone.IsInMinutes e.instant)
    (hshows : zone.Shows e.instant) : e.reread? zone = some e.reread := by
  have htext : zone.timestamp? e.instant = some ((zone.wallClock e.instant).text ++
      Zone.offsetText (zone.offset e.instant)) := if_pos hshows
  rw [reread?, htext, Option.bind_some, Instant.ofTimestamp?_timestamp? hminutes htext]
  rfl

def resultJson : Binary64 → Json
  | .nan => .string ("NaN".toList.map .char)
  | .infinite negative =>
    .string ((if negative then "-Infinity".toList else "Infinity".toList).map .char)
  | .finite negative x => .number (.ofDecimal negative (x.shortest .toEven))

theorem write_finite (negative : Bool) (x : Magnitude) :
    DigitStyle.stored.write (.finite negative x) =
      (Json.Number.ofDecimal negative (x.shortest .toEven)).text := by
  unfold Json.Number.text DigitStyle.write
  rw [Json.Number.digitsText_ofDecimal, Json.Number.negative_ofDecimal]

theorem reads_resultText (v : Binary64) : Json.Reads 1 (resultText v) (resultJson v) := by
  cases v with
  | nan => exact Json.reads_quote _
  | infinite negative => exact Json.reads_quote _
  | finite negative x =>
    change Json.Reads 1 (DigitStyle.stored.write (.finite negative x)) _
    rw [write_finite]
    exact Json.reads_number (Json.Number.isWritten_ofDecimal negative _)

theorem resultOf?_resultJson (v : Binary64) : resultOf? (resultJson v) = some v.reread := by
  cases v with
  | nan => rfl
  | infinite negative => cases negative <;> rfl
  | finite negative x => exact Json.Number.value?_ofDecimal negative x

end Entry

namespace Record

def json (r : Record) : Json :=
  .object [
    ("expression".toList.map .char, .string (r.expression.map .char)),
    ("result".toList.map .char, Entry.resultJson r.result),
    ("timestamp".toList.map .char, .string (r.timestamp.map .char))]

theorem ofJson?_json (r : Record) :
    Entry.ofJson? r.json =
      (Instant.ofTimestamp? r.timestamp).map fun t => ⟨r.expression, r.result.reread, t⟩ := by
  have hread : Entry.ofJson? r.json =
      Entry.ofParts? (.string (r.expression.map .char)) (Entry.resultJson r.result)
        (.string (r.timestamp.map .char)) := rfl
  rw [hread]
  unfold Entry.ofParts? Json.text?
  simp only [Json.textOf?_map_char, Entry.resultOf?_resultJson, Option.bind_eq_bind,
    Option.bind_some]
  cases Instant.ofTimestamp? r.timestamp <;> rfl

theorem ofJson?_of_record? (zone : Zone) (e : Entry) :
    (e.record? zone).bind (fun r => Entry.ofJson? r.json) = e.reread? zone := by
  unfold Entry.record? Entry.reread?
  cases zone.timestamp? e.instant with
  | none => rfl
  | some text => exact ofJson?_json _

end Record

namespace History

open Json

theorem fieldText_eq (depth : Nat) (key value : List Char) :
    fieldText depth key value = List.replicate (2 * depth) ' ' ++ member key value := by
  unfold fieldText member
  rw [show ": ".toList = [':', ' '] from rfl]
  simp

theorem recordText_append (r : Record) (rest : List Char) :
    recordText r ++ rest =
      List.replicate 4 ' ' ++ '\x7b' :: '\n' :: (List.replicate 6 ' ' ++
        (member "expression".toList (quote r.expression) ++ ',' :: '\n' ::
          (List.replicate 6 ' ' ++ (member "result".toList (Entry.resultText r.result) ++
            ',' :: '\n' :: (List.replicate 6 ' ' ++
              (member "timestamp".toList (quote r.timestamp) ++
                '\n' :: (List.replicate 4 ' ' ++ '\x7d' :: rest))))))) := by
  unfold recordText
  simp only [fieldText_eq, List.append_assoc]
  rfl

theorem reads_recordText (r : Record) : Reads 5 (recordText r) r.json := by
  intro k hk rest _
  obtain ⟨k, rfl⟩ : ∃ j, k = j + 5 := ⟨k - 5, by omega⟩
  rw [recordText_append, readValue?_congr (skipSpace_replicate_append 4 _)]
  apply readValue?_object
  rw [readFields?_cons (reads_quote r.expression) (by omega),
    readFields?_congr (skipSpace_line _ _),
    readFields?_cons (Entry.reads_resultText r.result) (by omega),
    readFields?_congr (skipSpace_line _ _),
    readFields?_last (reads_quote r.timestamp) (by omega)]
  rfl

theorem readItems?_records (r : Record) (records : List Record) {k : Nat}
    (hk : records.length + 6 ≤ k) (rest : List Char) :
    readItems? k (",\n".toList.intercalate ((r :: records).map recordText) ++
      '\n' :: (List.replicate 2 ' ' ++ ']' :: rest)) =
        some ((r :: records).map Record.json, rest) := by
  induction records generalizing r k with
  | nil =>
    obtain ⟨k, rfl⟩ : ∃ j, k = j + 1 := ⟨k - 1, by omega⟩
    rw [List.map_singleton, List.intercalate_singleton,
      readItems?_last (reads_recordText r) (by simp at hk; omega)]
    rfl
  | cons next records ih =>
    obtain ⟨k, rfl⟩ : ∃ j, k = j + 1 := ⟨k - 1, by simp at hk; omega⟩
    rw [List.length_cons] at hk
    have hrest := ih next (show records.length + 6 ≤ k by omega)
    rw [List.map_cons, List.map_cons, List.intercalate_cons_cons, ← List.map_cons,
      show ",\n".toList = [',', '\n'] from rfl] at *
    simp only [List.append_assoc, List.cons_append, List.nil_append] at *
    rw [readItems?_cons (reads_recordText r) (by omega),
      readItems?_congr (skipSpace_cons_of_isSpace (by decide) _), hrest]
    rfl

theorem head?_skipSpace_records (r : Record) (records : List Record) (rest : List Char) :
    (skipSpace (",\n".toList.intercalate ((r :: records).map recordText) ++ rest)).head? =
      some '\x7b' := by
  obtain ⟨text, htext⟩ : ∃ text, ",\n".toList.intercalate ((r :: records).map recordText) =
      recordText r ++ text := by
    cases records with
    | nil => exact ⟨[], by rw [List.map_singleton, List.intercalate_singleton, List.append_nil]⟩
    | cons next records =>
      rw [List.map_cons, List.map_cons, List.intercalate_cons_cons, List.append_assoc]
      exact ⟨_, rfl⟩
  rw [htext, List.append_assoc, recordText_append, skipSpace_replicate_append,
    skipSpace_cons (by decide)]
  rfl

theorem reads_recordsText (records : List Record) :
    Reads (records.length + 7) (recordsText records) (.array (records.map Record.json)) := by
  intro k hk rest _
  obtain ⟨k, rfl⟩ : ∃ j, k = j + 1 := ⟨k - 1, by omega⟩
  cases records with
  | nil => rfl
  | cons r records =>
    have htext : recordsText (r :: records) ++ rest =
        '[' :: '\n' :: (",\n".toList.intercalate ((r :: records).map recordText) ++
          '\n' :: (List.replicate 2 ' ' ++ ']' :: rest)) := by
      unfold recordsText
      simp only [List.append_assoc]
      rfl
    rw [htext]
    apply readValue?_array
    · exact readItems?_records r records (by rw [List.length_cons] at hk; omega) rest
    · intro c hc
      rw [head?_skipSpace_records] at hc
      obtain rfl := Option.some.inj hc
      decide

theorem length_le_length_recordsText (records : List Record) :
    records.length ≤ (recordsText records).length := by
  have hitems : ∀ records : List Record,
      records.length ≤ (",\n".toList.intercalate (records.map recordText)).length := by
    intro records
    induction records with
    | nil => exact Nat.zero_le _
    | cons r records ih =>
      have htext : 1 ≤ (recordText r).length := by
        unfold recordText
        simp only [List.length_append]
        exact Nat.le_trans (by decide) (Nat.le_add_left _ _)
      cases records with
      | nil => rwa [List.map_singleton, List.intercalate_singleton]
      | cons next records =>
        rw [List.map_cons, List.map_cons, List.intercalate_cons_cons, ← List.map_cons,
          List.length_append, List.length_append, List.length_cons]
        omega
  unfold recordsText
  split
  next => exact Nat.zero_le _
  next =>
    simp only [List.length_append]
    have := hitems records
    omega

def json (limit : Nat) (records : List Record) : Json :=
  .object [
    ("max_entries".toList.map .char, .number ⟨false, Nat.toDigits 10 limit, [], none⟩),
    ("history".toList.map .char, .array (records.map Record.json))]

theorem reads_limit (n : Nat) :
    Reads 1 (Nat.toDigits 10 n) (.number ⟨false, Nat.toDigits 10 n, [], none⟩) := by
  have hwritten : (⟨false, Nat.toDigits 10 n, [], none⟩ : Number).IsWritten := {
    whole_ne_nil := Nat.toDigits_ne_nil
    isDigit_of_mem_whole := isDigit_of_mem_toDigits n
    whole_of_head?_zero := toDigits_of_head?_zero
    isDigit_of_mem_fraction := by simp }
  have hreads := reads_number hwritten
  rwa [show Number.text _ = Nat.toDigits 10 n ++ ([] ++ []) from rfl, List.append_nil,
    List.append_nil] at hreads

section layout

variable (limit : Nat) (records : List Record)

theorem layout_eq :
    layout limit records = '\x7b' :: '\n' :: (List.replicate 2 ' ' ++
      (member "max_entries".toList (Nat.toDigits 10 limit) ++ ',' :: '\n' ::
        (List.replicate 2 ' ' ++ (member "history".toList (recordsText records) ++
          '\n' :: (List.replicate 0 ' ' ++ '\x7d' :: []))))) := by
  unfold layout
  simp only [fieldText_eq, List.append_assoc]
  rfl

theorem length_le_length_layout : records.length + 10 ≤ (layout limit records).length := by
  have := length_le_length_recordsText records
  rw [layout_eq]
  unfold member quote
  simp only [List.length_cons, List.length_append]
  omega

theorem ofText?_layout : Json.ofText? (layout limit records) = some (json limit records) := by
  have hlength := length_le_length_layout limit records
  have hvalue : readValue? (2 * (layout limit records).length + 2) (layout limit records) =
      some (json limit records, []) := by
    generalize hk : 2 * (layout limit records).length + 2 = k
    obtain ⟨k, rfl⟩ : ∃ j, k = j + 3 := ⟨k - 3, by omega⟩
    rw [layout_eq]
    apply readValue?_object
    rw [readFields?_cons (reads_limit limit) (by omega),
      readFields?_congr (skipSpace_line _ _),
      readFields?_last (reads_recordsText records) (by omega)]
    rfl
  unfold Json.ofText?
  rw [hvalue]
  rfl

end layout

theorem limitOf?_number {n : Nat} (h : n < Number.significandLimit) :
    File.limitOf? (some (.number ⟨false, Nat.toDigits 10 n, [], none⟩)) = some (some n) := by
  unfold File.limitOf? Number.count?
  simp only
  rw [Number.accumulate_eq (by rwa [Nat.ofDigitChars_ten_toDigits]),
    Nat.ofDigitChars_ten_toDigits]
  rfl

theorem ofText?_layout_eq {limit : Nat} (h : limit < Number.significandLimit)
    (records : List Record) :
    File.ofText? (layout limit records) =
      (records.mapM fun r => Entry.ofJson? r.json).map fun entries => ⟨some limit, entries⟩ := by
  have hfields : File.ofJson? (json limit records) =
      File.ofParts? (some (.number ⟨false, Nat.toDigits 10 limit, [], none⟩))
        (some (.array (records.map Record.json))) := rfl
  unfold File.ofText?
  rw [ofText?_layout, Option.bind_eq_bind, Option.bind_some, hfields]
  have hentries : File.entriesOf? (some (.array (records.map Record.json))) =
      records.mapM fun r => Entry.ofJson? r.json := List.mapM_map ..
  unfold File.ofParts?
  rw [limitOf?_number h, hentries]
  cases (records.mapM fun r => Entry.ofJson? r.json) <;> rfl

variable {h : History} {zone : Zone} {text : List Char}

/-- What is read of a history's file are the entries as their texts name them. -/
theorem load?_fileText? (hlimit : h.limit < Number.significandLimit)
    (htext : h.fileText? zone = some text) (m : History) :
    m.load? text = (h.entries.mapM (Entry.reread? zone)).map (ofEntries h.limit) := by
  obtain ⟨records, hrecords, rfl⟩ := Option.map_eq_some_iff.mp htext
  unfold load?
  rw [ofText?_layout_eq hlimit, mapM_of_mapM_eq_some hrecords]
  simp only [Record.ofJson?_of_record?, Option.map_map]
  rfl

def reread (h : History) : History where
  limit := h.limit
  entries := h.entries.map Entry.reread
  length_le := by
    rw [List.length_map]
    exact h.length_le

@[simp] theorem entries_reread (h : History) : h.reread.entries = h.entries.map Entry.reread := rfl

/-- Whether clocks are whole minutes apart from universal time at all instants of a history, so
that their texts say which instants these are. -/
def IsInMinutes (h : History) (zone : Zone) : Prop :=
  ∀ e ∈ h.entries, zone.IsInMinutes e.instant

/-- There is a file where all clocks show dates in range. -/
theorem isSome_fileText?_iff :
    (h.fileText? zone).isSome ↔ ∀ e ∈ h.entries, zone.Shows e.instant := by
  have hrecord (e : Entry) : (e.record? zone).isSome ↔ zone.Shows e.instant := by
    unfold Entry.record? Zone.timestamp? Zone.Shows
    dsimp only
    split
    next hrange => simp [hrange]
    next hrange => simp [hrange]
  unfold fileText?
  rw [Option.isSome_map, isSome_mapM_iff]
  exact forall₂_congr fun e _ => hrecord e

/-- The file of a history takes the place of whatever there was. -/
theorem load?_eq_reread (hlimit : h.limit < Number.significandLimit)
    (hminutes : h.IsInMinutes zone) (htext : h.fileText? zone = some text) (m : History) :
    m.load? text = some h.reread := by
  have hread : ∀ e ∈ h.entries, e.reread? zone = some e.reread := fun e he =>
    Entry.reread?_eq (hminutes e he) (isSome_fileText?_iff.mp (by simp [htext]) e he)
  have hlength : (h.entries.map Entry.reread).length ≤ h.limit := h.reread.length_le
  rw [load?_fileText? hlimit htext, mapM_eq_some_map hread, Option.map_some]
  unfold ofEntries reread
  congr
  exact lastOf_of_length_le hlength

end History

end Reckoner
