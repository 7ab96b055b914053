import Mathlib.Data.List.Forall2
import Reckoner.Proofs.History.File
import Reckoner.Proofs.Storage

/-! Saving a history to a file and loading it from there, into any history. Nothing is lost but
the exact values of some results. -/
namespace Reckoner

open Json.Number

theorem forall₂_of_mapM_eq_some {α β : Type} {f : α → Option β} {items : List α}
    {results : List β} (h : items.mapM f = some results) :
    List.Forall₂ (fun a b => f a = some b) items results := by
  induction items generalizing results with
  | nil =>
    obtain rfl := Option.some.inj h
    exact .nil
  | cons a items ih =>
    rw [List.mapM_cons] at h
    obtain ⟨b, hb, hrest⟩ := Option.bind_eq_some_iff.mp h
    obtain ⟨rest, hmapM, hpure⟩ := Option.bind_eq_some_iff.mp hrest
    obtain rfl := Option.some.inj hpure
    exact .cons hb (ih hmapM)

namespace Entry

/-- What an entry that has been loaded shares with the one that has been saved. -/
structure Restores (e e' : Entry) : Prop where
  expression_eq : e'.expression = e.expression
  instant_eq : e'.instant = e.instant
  nan_iff : e'.result = .nan ↔ e.result = .nan
  infinite_iff : ∀ negative, e'.result = .infinite negative ↔ e.result = .infinite negative
  isFinite_eq : e'.result.isFinite = e.result.isFinite

theorem restores_reread (e : Entry) : e.Restores e.reread := by
  obtain ⟨expression, result, instant⟩ := e
  cases result with
  | nan => exact ⟨rfl, rfl, Iff.rfl, fun _ => Iff.rfl, rfl⟩
  | infinite negative => exact ⟨rfl, rfl, Iff.rfl, fun _ => Iff.rfl, rfl⟩
  | finite negative x =>
    obtain ⟨y, -, hy⟩ := Binary64.exists_reread negative x
    unfold reread
    simp only [hy]
    constructor <;> simp [Binary64.isFinite]

/-- Whatever instant is read, the result is read for itself. -/
theorem result_of_reread? {zone : Zone} {e e' : Entry} (h : e.reread? zone = some e') :
    e'.result = e.result.reread := by
  obtain ⟨t, -, rfl⟩ := Option.map_eq_some_iff.mp h
  rfl

end Entry

namespace History

theorem File.limitOf?_lt (json : Option Json) :
    ∀ limit ∈ limitOf? json, ∀ n ∈ limit, n < significandLimit := by
  intro limit hlimit n hn
  unfold limitOf? at hlimit
  split at hlimit
  next => simp_all
  next => simp_all
  next number =>
    obtain ⟨count, hcount, rfl⟩ := Option.map_eq_some_iff.mp hlimit
    obtain rfl := Option.some.inj hn
    exact count?_lt number count hcount
  next => cases hlimit

theorem File.limit_lt_of_ofParts? (limit entries : Option Json) :
    ∀ file ∈ ofParts? limit entries, ∀ n ∈ file.limit, n < significandLimit := by
  intro file hfile
  obtain ⟨limit', hlimit, hrest⟩ := Option.bind_eq_some_iff.mp hfile
  obtain ⟨entries', -, hpure⟩ := Option.bind_eq_some_iff.mp hrest
  obtain rfl := Option.some.inj hpure
  exact limitOf?_lt limit limit' hlimit

theorem File.limit_lt_of_ofText? (text : List Char) :
    ∀ file ∈ ofText? text, ∀ n ∈ file.limit, n < significandLimit := by
  apply forall_mem_bind
  intro json
  unfold ofJson?
  split
  next =>
    iterate 3 (apply forall_mem_bind; intro _)
    exact limit_lt_of_ofParts? _ _
  next => exact limit_lt_of_ofParts? _ _
  next => exact limit_lt_of_ofParts? _ _
  next => exact limit_lt_of_ofParts? _ _
  next => exact nofun

/-- A limit that has been read can be stored again. -/
theorem limit_lt_of_load? {h h' : History} (hlimit : h.limit < significandLimit)
    {text : List Char} (hload : h.load? text = some h') : h'.limit < significandLimit := by
  obtain ⟨file, hfile, rfl⟩ := Option.map_eq_some_iff.mp hload
  rw [limit_ofEntries]
  cases hfound : file.limit with
  | none => exact hlimit
  | some limit => exact File.limit_lt_of_ofText? text file hfile limit hfound

/-- The histories that the operations lead to: from an empty one with a limit of 64 bits, by
entries of any expression, result and instant, by dropping all entries, and by loading a file. -/
inductive Reachable : History → Prop
  | empty {limit : Nat} (hlimit : limit < 2 ^ 64) : Reachable (empty limit)
  | push {h : History} (hreachable : Reachable h) (e : Entry) : Reachable (h.push e)
  | clear {h : History} (hreachable : Reachable h) : Reachable h.clear
  | load {h h' : History} (hreachable : Reachable h) {text : List Char}
      (hload : h.load? text = some h') : Reachable h'

theorem Reachable.limit_lt {h : History} (hreachable : h.Reachable) :
    h.limit < significandLimit := by
  induction hreachable with
  | empty hlimit => exact hlimit
  | push _ e ih => exact ih
  | clear _ ih => exact ih
  | load _ hload ih => exact limit_lt_of_load? ih hload

/-- The storage after a history has been saved to a path, with the times on the wall. There is none
where nothing can be written to the path, or where the clocks show a date out of range. -/
def saveTo? (h : History) (zone : Zone) (storage : Storage) (workingDirectory : Location)
    (path : List Char) : Option Storage := do
  storage.write? workingDirectory path (← h.fileText? zone)

/-- The history after the file at a path has been loaded in its place. -/
def loadFrom? (h : History) (storage : Storage) (workingDirectory : Location)
    (path : List Char) : Option History :=
  match storage.look workingDirectory path with
  | .text content => h.load? content
  | _ => none

variable {h : History} {zone : Zone} {storage storage' : Storage} {workingDirectory : Location}
  {path : List Char}

theorem exists_text_of_saveTo?
    (hsave : h.saveTo? zone storage workingDirectory path = some storage') :
    ∃ text, h.fileText? zone = some text ∧
      storage.write? workingDirectory path text = some storage' :=
  Option.bind_eq_some_iff.mp hsave

theorem loadFrom?_of_write? {text : List Char}
    (hwrite : storage.write? workingDirectory path text = some storage') (m : History) :
    m.loadFrom? storage' workingDirectory path = m.load? text := by
  unfold loadFrom?
  rw [Storage.look_of_write? hwrite]

theorem loadFrom?_of_saveTo? (hlimit : h.limit < significandLimit) (hminutes : h.IsInMinutes zone)
    (hsave : h.saveTo? zone storage workingDirectory path = some storage') (m : History) :
    m.loadFrom? storage' workingDirectory path = some h.reread := by
  obtain ⟨text, htext, hwrite⟩ := exists_text_of_saveTo? hsave
  rw [loadFrom?_of_write? hwrite, load?_eq_reread hlimit hminutes htext]

def single (expression : List Char) (result : Binary64) : History :=
  (empty defaultLimit).push ⟨expression, result, .epoch⟩

theorem entries_single (expression : List Char) (result : Binary64) :
    (single expression result).entries = [⟨expression, result, .epoch⟩] := rfl

theorem reachable_single (expression : List Char) (result : Binary64) :
    (single expression result).Reachable :=
  .push (.empty (by decide)) _

theorem isInMinutes_single (expression : List Char) (result : Binary64) :
    (single expression result).IsInMinutes .fiveHoursBehind := by
  rw [IsInMinutes, entries_single, List.forall_mem_singleton]
  exact ⟨-300, rfl⟩

theorem exists_saveTo? (expression : List Char) (result : Binary64) :
    ∃ storage', (single expression result).saveTo? .fiveHoursBehind ⟨[]⟩ []
      "history.json".toList = some storage' := by
  have hshows : ((single expression result).fileText? .fiveHoursBehind).isSome := by
    rw [isSome_fileText?_iff, entries_single, List.forall_mem_singleton]
    exact (by decide : (Zone.fiveHoursBehind.wallClock .epoch).date.isInRange)
  obtain ⟨text, htext⟩ := Option.isSome_iff_exists.mp hshows
  unfold saveTo?
  rw [htext]
  exact ⟨_, rfl⟩

/-- A history that has been saved can be loaded into any history. It takes its place, with the
same limit and the same entries in the same order, up to the values of finite results. The file
has the times on the wall, and offsets without their seconds: the instants are the same where the
clocks are whole minutes apart from universal time. -/
theorem restores_of_saveTo? (hreachable : h.Reachable) (hminutes : h.IsInMinutes zone)
    (hsave : h.saveTo? zone storage workingDirectory path = some storage') :
    ∃ h' : History, (∀ m : History, m.loadFrom? storage' workingDirectory path = some h') ∧
      h'.limit = h.limit ∧ List.Forall₂ Entry.Restores h.entries h'.entries := by
  refine ⟨h.reread, loadFrom?_of_saveTo? hreachable.limit_lt hminutes hsave, rfl, ?_⟩
  rw [entries_reread, List.forall₂_map_right_iff, List.forall₂_same]
  intro e _
  exact e.restores_reread

theorem restores_of_saveTo?_quoted :
    (single "\"1/0\"\n".toList (.infinite true)).Reachable ∧
      (single "\"1/0\"\n".toList (.infinite true)).IsInMinutes .fiveHoursBehind ∧
      ∃ storage', (single "\"1/0\"\n".toList (.infinite true)).saveTo? .fiveHoursBehind ⟨[]⟩ []
          "history.json".toList = some storage' ∧
        ∃ h' : History,
          (∀ m : History, m.loadFrom? storage' [] "history.json".toList = some h') ∧
            h'.limit = defaultLimit ∧
            List.Forall₂ Entry.Restores
              (single "\"1/0\"\n".toList (.infinite true)).entries h'.entries := by
  have hreachable := reachable_single "\"1/0\"\n".toList (.infinite true)
  have hminutes := isInMinutes_single "\"1/0\"\n".toList (.infinite true)
  obtain ⟨storage', hsave⟩ := exists_saveTo? "\"1/0\"\n".toList (.infinite true)
  exact ⟨hreachable, hminutes, storage', hsave, restores_of_saveTo? hreachable hminutes hsave⟩

/-- What has been loaded has the results that are read for those that have been saved. -/
theorem forall₂_of_loadFrom? (hlimit : h.limit < significandLimit)
    (hsave : h.saveTo? zone storage workingDirectory path = some storage') {m h' : History}
    (hload : m.loadFrom? storage' workingDirectory path = some h') :
    List.Forall₂ (fun e e' => e'.result = e.result.reread) h.entries h'.entries := by
  obtain ⟨text, htext, hwrite⟩ := exists_text_of_saveTo? hsave
  rw [loadFrom?_of_write? hwrite, load?_fileText? hlimit htext] at hload
  obtain ⟨entries, hentries, rfl⟩ := Option.map_eq_some_iff.mp hload
  have hread := forall₂_of_mapM_eq_some hentries
  rw [entries_ofEntries, lastOf_of_length_le (hread.length_eq ▸ h.length_le)]
  exact hread.imp fun _ _ => Entry.result_of_reread?

/-- A finite result is the same after it has been saved and loaded exactly if its digits and its
power of ten, rounded apart, have it as their product or quotient. Digits that fit in 53 bits
with a power of ten up to `10 ^ 22` do. -/
theorem result_eq_of_saveTo?_iff (hreachable : h.Reachable)
    (hsave : h.saveTo? zone storage workingDirectory path = some storage') :
    (∀ m h' : History, m.loadFrom? storage' workingDirectory path = some h' →
      List.Forall₂ (fun e e' => ∀ negative x, e.result = .finite negative x →
        (e'.result = e.result ↔ x.storedDecimal.roundedApart = .finite false x) ∧
        (x.storedDecimal.coefficient < 2 ^ 53 → x.storedDecimal.exponent.natAbs ≤ 22 →
          e'.result = e.result)) h.entries h'.entries) ∧
    (h.IsInMinutes zone →
      ∃ h' : History, ∀ m : History, m.loadFrom? storage' workingDirectory path = some h') := by
  refine ⟨fun m h' hload => ?_, fun hminutes =>
    ⟨h.reread, loadFrom?_of_saveTo? hreachable.limit_lt hminutes hsave⟩⟩
  refine (forall₂_of_loadFrom? hreachable.limit_lt hsave hload).imp ?_
  intro e e' hreread negative x hresult
  have hiff : e'.result = e.result ↔ x.storedDecimal.roundedApart = .finite false x := by
    rw [hreread, hresult]
    exact Binary64.reread_eq_iff negative x
  refine ⟨hiff, ?_⟩
  intro hcoefficient hexponent
  rw [hiff]
  exact roundedApart_of_exact x.identifiedBy_storedDecimal hcoefficient hexponent

def eighth : Magnitude where
  significand := 2 ^ 52
  exponent := 1019
  significand_lt := by decide
  normal := .inr (by decide)
  exponent_le := by decide

theorem result_eq_of_saveTo?_iff_eighth :
    (single "1/8".toList (.finite false eighth)).Reachable ∧
      ∃ storage', (single "1/8".toList (.finite false eighth)).saveTo? .fiveHoursBehind ⟨[]⟩ []
          "history.json".toList = some storage' ∧
        (∀ m h' : History, m.loadFrom? storage' [] "history.json".toList = some h' →
          List.Forall₂ (fun e e' => ∀ negative x, e.result = .finite negative x →
            (e'.result = e.result ↔ x.storedDecimal.roundedApart = .finite false x) ∧
            (x.storedDecimal.coefficient < 2 ^ 53 → x.storedDecimal.exponent.natAbs ≤ 22 →
              e'.result = e.result))
            (single "1/8".toList (.finite false eighth)).entries h'.entries) ∧
        ∃ h' : History, ∀ m : History,
          m.loadFrom? storage' [] "history.json".toList = some h' := by
  have hreachable := reachable_single "1/8".toList (.finite false eighth)
  obtain ⟨storage', hsave⟩ := exists_saveTo? "1/8".toList (.finite false eighth)
  obtain ⟨hresults, hload⟩ := result_eq_of_saveTo?_iff hreachable hsave
  exact ⟨hreachable, storage', hsave, hresults, hload (isInMinutes_single _ _)⟩

/-- The greatest odd whole number, `2 ^ 53 - 1`. -/
def greatestOdd : Magnitude where
  significand := 2 ^ 53 - 1
  exponent := 1074
  significand_lt := Magnitude.largest.significand_lt
  normal := .inr (by decide)
  exponent_le := by decide

/-- Its digits in a file end in a zero after the point, and are one digit too many. -/
theorem result_ne_of_saveTo? :
    (single "9007199254740991".toList (.finite false greatestOdd)).Reachable ∧
      ∃ storage', (single "9007199254740991".toList (.finite false greatestOdd)).saveTo?
          .fiveHoursBehind ⟨[]⟩ [] "history.json".toList = some storage' ∧
        ∀ m : History, ∃ h', m.loadFrom? storage' [] "history.json".toList = some h' ∧
          h'.entries.map (·.result) ≠ [.finite false greatestOdd] := by
  have hreachable := reachable_single "9007199254740991".toList (.finite false greatestOdd)
  obtain ⟨storage', hsave⟩ :=
    exists_saveTo? "9007199254740991".toList (.finite false greatestOdd)
  refine ⟨hreachable, storage', hsave, ?_⟩
  intro m
  refine ⟨_, loadFrom?_of_saveTo? hreachable.limit_lt (isInMinutes_single _ _) hsave m, ?_⟩
  rw [entries_reread, entries_single, List.map_singleton, List.map_singleton,
    Entry.result_reread, Ne, List.singleton_inj, Binary64.reread_eq_iff]
  decide +kernel

end History

end Reckoner
