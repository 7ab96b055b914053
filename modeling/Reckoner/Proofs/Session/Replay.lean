import Reckoner.Proofs.Display.Plain
import Reckoner.Proofs.Session.Steps

/-! Reading a calculation in steps back from the expression that is recorded for it. The expression
keeps ten places of each operand, which is not always enough for the result. -/
namespace Reckoner

/-- Whether the value of the expression is the result. -/
def Entry.Replays (e : Entry) : Prop :=
  ∃ v, Expression.value e.expression = .ok v ∧ v.Equals e.result

namespace Session

open Display (plain plainValue HasTenPlaces)

/-- Whether an operator has the same result for operands that have been rounded to ten places. -/
def IsKeptByPlaces (op : Operator) (a b : Binary64) : Prop :=
  ¬ (op = .div ∧ (plainValue b).isZero) ∧
    (op.apply (plainValue a) (plainValue b)).Equals (op.apply a b)

theorem isFinite_of_number? {text : List Char} {a : Binary64} (h : number? text = some a) :
    a.isFinite :=
  (Option.filter_eq_some_iff.mp h).2

theorem ne_neg_of_operator? {text : List Char} {op : Operator} (h : operator? text = some op) :
    op ≠ .neg := by
  rintro rfl
  unfold operator? at h
  split at h
  next c =>
    unfold Operator.ofSymbol? at h
    split at h <;> cases h
  next => cases h

variable {op : Operator} {a b : Binary64}

theorem replays_stepExpression_iff (hop : op ≠ .neg) (ha : a.isFinite) (hb : b.isFinite)
    (time : Instant) :
    (Entry.mk (stepExpression a op b) (op.apply a b) time).Replays ↔ IsKeptByPlaces op a b := by
  have hvalue := Display.value_plain_append hop ha hb
  unfold Entry.Replays IsKeptByPlaces
  change (∃ v, Expression.value (plain a ++ op.symbol :: plain b) = _ ∧ _) ↔ _
  rw [hvalue]
  split
  next hdiv => simp [hdiv]
  next hdiv => simp [hdiv]

/-- Operands of ten places are written in full. -/
theorem isKeptByPlaces_of_hasTenPlaces (hop : op ≠ .neg) (ha : a.isFinite) (hb : b.isFinite)
    (hdiv : ¬ (op = .div ∧ b.isZero)) (ha_places : HasTenPlaces a) (hb_places : HasTenPlaces b) :
    IsKeptByPlaces op a b := by
  have ha_equals := (Display.plainValue_equals_iff ha).mpr ha_places
  have hb_equals := (Display.plainValue_equals_iff hb).mpr hb_places
  cases a with
  | nan => cases ha
  | infinite negative => cases ha
  | finite s x =>
    cases b with
    | nan => cases hb
    | infinite negative => cases hb
    | finite t y =>
      obtain ⟨s', hs⟩ := ha_equals.exists_finite
      obtain ⟨t', ht⟩ := hb_equals.exists_finite
      rw [hs] at ha_equals
      rw [ht] at hb_equals
      refine ⟨?_, ?_⟩
      · rw [ht]
        exact hdiv
      · rw [hs, ht]
        exact ha_equals.apply hop hb_equals hdiv

/-- What a line does that answers the second number of a calculation in steps. Both numbers and the
operator have been read, the numbers are finite, and what is recorded is their result under an
expression with ten places of each. That expression has this result as its value exactly if the
rounded operands have; they do where ten places are enough to tell the operands from all other
values. A line that completes no calculation leaves the history as it was. -/
theorem replays_iff_of_secondNumber {start m next : Session} {input : List Line} {line : Line}
    {out : List Char} (hstart : start.question = .command) (hinput : start.after input = .ok m)
    (hquestion : m.question = .secondNumber a op) (hanswer : m.answer line = .ok (next, out)) :
    ((∃ line ∈ input, number? (trim line.text) = some a) ∧ a.isFinite) ∧
    (∃ line ∈ input, operator? (trim line.text) = some op) ∧
    ((∃ b e, Completes line op a b ∧ b.isFinite ∧
        next.history = m.history.push e ∧ next.lastResult = some e.result ∧
        e.expression = plain a ++ op.symbol :: plain b ∧ e.result = op.apply a b ∧
        (e.Replays ↔ IsKeptByPlaces op a b) ∧
        (HasTenPlaces a → HasTenPlaces b → e.Replays)) ∨
      ((∀ b, ¬ Completes line op a b) ∧
        next.history = m.history ∧ next.lastResult = m.lastResult)) := by
  have hread := readFrom_after hstart hinput
  rw [hquestion] at hread
  obtain ⟨⟨first, hfirst, hnumber⟩, middle, hmiddle, hoperator⟩ := hread
  have ha := isFinite_of_number? hnumber
  have hop := ne_neg_of_operator? hoperator
  refine ⟨⟨⟨first, hfirst, hnumber⟩, ha⟩, ⟨middle, hmiddle, hoperator⟩, ?_⟩
  rcases answer_secondNumber hquestion hanswer with
    ⟨b, hcompletes, rfl⟩ | ⟨hnone, question, -, rfl⟩
  · have hb := isFinite_of_number? hcompletes.number?_eq
    have hreplays := replays_stepExpression_iff hop ha hb line.time
    refine .inl ⟨b, ⟨stepExpression a op b, op.apply a b, line.time⟩, hcompletes, hb, rfl, rfl, rfl,
      rfl, hreplays, fun ha_places hb_places => ?_⟩
    exact hreplays.mpr
      (isKeptByPlaces_of_hasTenPlaces hop ha hb hcompletes.divisor ha_places hb_places)
  · exact .inr ⟨hnone, rfl, rfl⟩

def fresh : Session where
  history := .empty History.defaultLimit
  options := {}
  zone := .universal
  clipboard := .disabled

/-- A line that is given at the beginning of 1970. -/
def typed (text : String) : Line where
  text := text.toList
  time := .epoch

/-- `7.5` times `-2` is recorded as `7.5*-2`, which is read back. -/
theorem replays_iff_of_secondNumber_negative :
    ∃ m next out e, fresh.after (["expr", "", "7.5", "*"].map typed) = .ok m ∧
      m.answer (typed "-2") = .ok (next, out) ∧ next.history = m.history.push e ∧
      e.expression = "7.5*-2".toList ∧ e.Replays := by
  have hquestions : (fresh.after (["expr", "", "7.5", "*"].map typed)).map question =
      .ok (.secondNumber (.ofBits 0x401E000000000000) .mul) := by decide +kernel
  have hresults : (fresh.after (["expr", "", "7.5", "*"].map typed) >>=
      fun m => m.answer (typed "-2")).map (fun answered => answered.1.lastResult) =
      .ok (some (.ofBits 0xC02E000000000000)) := by decide +kernel
  have hnumber : number? (trim (typed "-2").text) = some (.ofBits 0xC000000000000000) := by
    decide +kernel
  obtain ⟨m, hinput, hquestion⟩ := map_eq_ok_iff.mp hquestions
  rw [hinput, ok_bind] at hresults
  obtain ⟨⟨next, out⟩, hanswer, -⟩ := map_eq_ok_iff.mp hresults
  obtain ⟨-, -, hcases⟩ := replays_iff_of_secondNumber rfl hinput hquestion hanswer
  rcases hcases with ⟨b, e, hcompletes, -, hhistory, -, hexpression, -, -, hreplays⟩ | ⟨hnone, -⟩
  · obtain rfl := Option.some.inj (hcompletes.number?_eq.symm.trans hnumber)
    refine ⟨m, next, out, e, hinput, hanswer, hhistory, ?_, hreplays ?_ ?_⟩
    · rw [hexpression]
      decide +kernel
    · exact ⟨false, 75000000000, by decide +kernel⟩
    · exact ⟨true, 20000000000, by decide +kernel⟩
  · exact absurd ⟨by decide, hnumber, by decide +kernel, by decide +kernel⟩ (hnone _)

/-- `1` divided by `1e-11` is recorded as `1/0`. -/
theorem not_replays_of_smallDivisor :
    ∃ m next out e, fresh.after (["expr", "", "1", "/"].map typed) = .ok m ∧
      m.answer (typed "1e-11") = .ok (next, out) ∧ next.history.last? = some e ∧
      e.expression = "1/0".toList ∧
      Expression.value e.expression = .error .divisionByZero ∧ ¬ e.Replays := by
  have hlast : (fresh.after (["expr", "", "1", "/"].map typed) >>=
      fun m => m.answer (typed "1e-11")).map (fun answered => answered.1.history.last?) =
      .ok (some ⟨"1/0".toList, .ofBits 0x42374876E8000000, .epoch⟩) := by decide +kernel
  obtain ⟨⟨next, out⟩, hanswer, hentry⟩ := map_eq_ok_iff.mp hlast
  obtain ⟨m, hinput, hanswer⟩ := bind_eq_ok_iff.mp hanswer
  have hvalue : Expression.value "1/0".toList = .error .divisionByZero := by decide +kernel
  refine ⟨m, next, out, _, hinput, hanswer, hentry, rfl, hvalue, ?_⟩
  rintro ⟨v, hv, -⟩
  rw [hvalue] at hv
  cases hv

end Session

end Reckoner
