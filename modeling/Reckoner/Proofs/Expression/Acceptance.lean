import Mathlib.Algebra.Ring.Int.Defs
import Reckoner.Proofs.Expression.Grammar

/-! Which texts have a value. Operands are only counted, so that some texts outside the grammar
have one: exactly those in which an operand begins right after another has ended, as in `(1)2+`. -/
namespace Reckoner.Token

def endsOperand : Token → Bool
  | number _ _ | closing => true
  | _ => false

/-- Whether the token begins an operand, apart from its minus signs. -/
def beginsOperand : Token → Bool
  | number _ _ | opening => true
  | _ => false

/-- Whether no operand begins with `b` right after one has ended with `a`. -/
def OperandsApart (a b : Token) : Prop :=
  ¬ (a.endsOperand ∧ b.beginsOperand)

instance (a b : Token) : Decidable (OperandsApart a b) :=
  inferInstanceAs (Decidable (¬ _))

/-- How many values the token adds to a calculation. -/
def gain : Token → Int
  | number _ _ => 1
  | operator .neg => 0
  | operator _ => -1
  | _ => 0

theorem gain_operator {op : Operator} (h : op ≠ .neg) : (operator op).gain = -1 := by
  cases op <;> first | exact absurd rfl h | rfl

end Reckoner.Token

namespace Reckoner.Expression.Derivation

theorem isChain_operandsApart {c : Category} (d : Derivation c) :
    d.tokens.IsChain Token.OperandsApart := by
  have hjoin {t : Token} {left right : List Token} (ht : ¬ t.endsOperand ∧ ¬ t.beginsOperand)
      (hleft : left.IsChain Token.OperandsApart) (hright : right.IsChain Token.OperandsApart) :
      (left ++ t :: right).IsChain Token.OperandsApart := by
    refine hleft.append (hright.cons fun _ _ hboth => ht.1 hboth.1) fun _ _ t' ht' hboth => ?_
    obtain rfl := Option.some.inj ht'
    exact ht.2 hboth.2
  induction d with
  | term t ih => exact ih
  | factor f ih => exact ih
  | number n => exact .singleton _
  | group e ih =>
    have hclosing : (e.tokens ++ [Token.closing]).IsChain Token.OperandsApart :=
      ih.append (.singleton _) fun _ _ t' ht' hboth => by
        obtain rfl := Option.some.inj ht'
        simp [Token.beginsOperand] at hboth
    exact hclosing.cons fun _ _ hboth => by simp [Token.endsOperand] at hboth
  | negation f ih => exact ih.cons fun _ _ hboth => by simp [Token.endsOperand] at hboth
  | sum left op _ right ihleft ihright | product left op _ right ihleft ihright =>
    exact hjoin (by simp [Token.endsOperand, Token.beginsOperand]) ihleft ihright

/-- An expression goes on with an operator and one more factor, which belongs to the last term
of a sum if the operator binds tighter than that. -/
theorem exists_tokens_append (e : Derivation .expression) {op : Operator} (hop : op ≠ .neg)
    (f : Derivation .factor) :
    ∃ e' : Derivation .expression, e'.tokens = e.tokens ++ .operator op :: f.tokens := by
  have hkind : (op = .add ∨ op = .sub) ∨ (op = .mul ∨ op = .div) := by
    cases op <;> first | exact absurd rfl hop | simp
  rcases hkind with hsum | hproduct
  · exact ⟨.sum e op hsum (.factor f), rfl⟩
  · cases e with
    | term t => exact ⟨.term (.product t op hproduct f), rfl⟩
    | sum left op' isSum right =>
      exact ⟨.sum left op' isSum (.product right op hproduct f), by simp [tokens]⟩

end Reckoner.Expression.Derivation

namespace Reckoner.Rpn

open Expression (Derivation)

/-- Whether an operand can come next: after the innermost of `depth` open parentheses every factor
makes an expression, and likewise further out. -/
inductive Expects : Nat → List Token → Prop where
  | outside {tokens : List Token}
      (h : ∀ f : Derivation .factor, ∃ e : Derivation .expression, e.tokens = tokens ++ f.tokens) :
      Expects 0 tokens
  | inside {depth : Nat} {outer inner : List Token} (houter : Expects depth outer)
      (hinner : Expects 0 inner) : Expects (depth + 1) (outer ++ .opening :: inner)

/-- Whether the tokens after the innermost of `depth` open parentheses are an expression. -/
inductive Completes : Nat → List Token → Prop where
  | outside (e : Derivation .expression) : Completes 0 e.tokens
  | inside {depth : Nat} {outer inner : List Token} (houter : Expects depth outer)
      (hinner : Completes 0 inner) : Completes (depth + 1) (outer ++ .opening :: inner)

namespace Expects

theorem start : Expects 0 [] :=
  .outside fun f => ⟨.term (.factor f), rfl⟩

theorem opening {depth : Nat} {tokens : List Token} (h : Expects depth tokens) :
    Expects (depth + 1) (tokens ++ [.opening]) :=
  .inside h start

theorem factor {depth : Nat} {tokens : List Token} (h : Expects depth tokens)
    (f : Derivation .factor) : Completes depth (tokens ++ f.tokens) := by
  have hzero {tokens : List Token} (h : Expects 0 tokens) : Completes 0 (tokens ++ f.tokens) := by
    obtain ⟨h⟩ := h
    obtain ⟨e, he⟩ := h f
    exact he ▸ .outside e
  cases h with
  | outside h => exact hzero (.outside h)
  | inside houter hinner => simpa using Completes.inside houter (hzero hinner)

theorem minus {depth : Nat} {tokens : List Token} (h : Expects depth tokens) :
    Expects depth (tokens ++ [.operator .sub]) := by
  have hzero {tokens : List Token} (h : Expects 0 tokens) :
      Expects 0 (tokens ++ [.operator .sub]) := by
    obtain ⟨h⟩ := h
    refine .outside fun f => ?_
    obtain ⟨e, he⟩ := h (.negation f)
    exact ⟨e, by simp [he, Derivation.tokens]⟩
  cases h with
  | outside h => exact hzero (.outside h)
  | inside houter hinner => simpa using Expects.inside houter (hzero hinner)

end Expects

namespace Completes

theorem operator {depth : Nat} {tokens : List Token} {op : Operator} (hop : op ≠ .neg)
    (h : Completes depth tokens) : Expects depth (tokens ++ [.operator op]) := by
  have hzero {tokens : List Token} (h : Completes 0 tokens) :
      Expects 0 (tokens ++ [.operator op]) := by
    obtain ⟨e⟩ := h
    refine .outside fun f => ?_
    obtain ⟨e', he'⟩ := e.exists_tokens_append hop f
    exact ⟨e', by simp [he']⟩
  cases h with
  | outside e => exact hzero (.outside e)
  | inside houter hinner => simpa using Expects.inside houter (hzero hinner)

theorem closing {depth : Nat} {tokens : List Token} (h : Completes (depth + 1) tokens) :
    Completes depth (tokens ++ [.closing]) := by
  cases h with
  | inside houter hinner =>
    cases hinner with
    | outside e => simpa [Derivation.tokens] using houter.factor (.group e)

end Completes

/-- How many values the stack will have added to a calculation once it is put out. -/
def Waiting.gain : Waiting → Int
  | .operator op => (Token.operator op).gain
  | .opening => 0

namespace State

def depth (s : State) : Nat :=
  s.stack.count .opening

/-- How many values a calculation would have after all that has been taken. -/
def balance (s : State) : Int :=
  (s.reversed.map Token.gain).sum + (s.stack.map Waiting.gain).sum

/-- How many values an operand that has just ended accounts for. -/
def ended (s : State) : Int :=
  if s.afterOperand then 1 else 0

end State

theorem sum_putOut (ops : List Operator) (reversed : List Token) (stack : List Waiting) :
    ((putOut ops reversed).map Token.gain).sum + (stack.map Waiting.gain).sum =
      (reversed.map Token.gain).sum + ((waiting ops ++ stack).map Waiting.gain).sum := by
  have hwaiting : (waiting ops).map Waiting.gain = (ops.map Token.operator).map Token.gain := by
    simp [waiting, Waiting.gain]
  simp only [putOut, List.map_append, List.sum_append, List.map_reverse, List.sum_reverse,
    hwaiting]
  omega

@[simp] theorem count_waiting (ops : List Operator) : (waiting ops).count .opening = 0 := by
  simp [waiting, List.count_eq_zero]

/-- What a step does: whether an operand has ended with it, how the number of values changes and
how many parentheses are open before and after it. -/
structure Effect (s s' : State) (after : Bool) (gained : Int) (opened closed : Nat) : Prop where
  afterOperand : s'.afterOperand = after
  balance : s'.balance = s.balance + gained
  depth : s'.depth + closed = s.depth + opened

theorem effect_number {s s' : State} {n : Numeral} (h : s.step n.token = .ok s') :
    Effect s s' true 1 0 0 := by
  obtain rfl := Except.ok.inj h
  refine ⟨rfl, ?_, rfl⟩
  simp only [State.balance, List.map_cons, List.sum_cons, Token.gain]
  omega

theorem effect_minus {s s' : State} (hafter : s.afterOperand = false)
    (h : s.step (.operator .sub) = .ok s') : Effect s s' false 0 0 0 := by
  cases State.takes_of_step h with
  | negation => exact ⟨rfl, by simp [State.balance, Waiting.gain, Token.gain], by simp [State.depth]⟩
  | operator hminus => exact absurd ⟨rfl, hafter⟩ hminus

theorem effect_operator {s s' : State} {op : Operator} (hop : op ≠ .neg)
    (hminus : ¬ (op = .sub ∧ s.afterOperand = false)) (h : s.step (.operator op) = .ok s') :
    Effect s s' false (-1) 0 0 := by
  cases State.takes_of_step h with
  | negation hafter => exact absurd ⟨rfl, hafter⟩ hminus
  | @operator _ ops reversed rest after =>
    have hsum := sum_putOut ops reversed rest
    refine ⟨rfl, ?_, by simp [State.depth]⟩
    simp only [State.balance, List.map_cons, List.sum_cons, Waiting.gain,
      Token.gain_operator hop]
    omega

theorem effect_opening {s s' : State} (h : s.step .opening = .ok s') :
    Effect s s' false 0 1 0 := by
  cases State.takes_of_step h with
  | opening => exact ⟨rfl, by simp [State.balance, Waiting.gain], by simp [State.depth]⟩

theorem effect_closing {s s' : State} (h : s.step .closing = .ok s') :
    Effect s s' true 0 0 1 := by
  cases State.takes_of_step h with
  | closing ops reversed rest after =>
    have hsum := sum_putOut ops reversed (.opening :: rest)
    refine ⟨rfl, ?_, by simp [State.depth]⟩
    simp only [List.map_cons, List.sum_cons, Waiting.gain] at hsum
    simp only [State.balance]
    omega

/-- What holds after tokens in which no operand has begun right after another. There are no more
values than the one that has just ended, and as long as none is missing the tokens are the
beginning of an expression. -/
structure Reads (tokens : List Token) (s : State) : Prop where
  afterOperand : s.afterOperand = tokens.getLast?.any Token.endsOperand
  balance_le : s.balance ≤ s.ended
  completes : s.afterOperand = true → s.balance = 1 → Completes s.depth tokens
  expects : s.afterOperand = false → s.balance = 0 → Expects s.depth tokens

namespace Reads

theorem start : Reads [] .start where
  afterOperand := rfl
  balance_le := by decide
  completes := by simp [State.start]
  expects := fun _ _ => .start

theorem afterOperand_eq_false {tokens : List Token} {s : State} {t : Token} (h : Reads tokens s)
    (hapart : ∀ last ∈ tokens.getLast?, last.OperandsApart t) (ht : t.beginsOperand) :
    s.afterOperand = false := by
  rw [h.afterOperand]
  cases hlast : tokens.getLast? with
  | none => rfl
  | some last =>
    have hends : ¬ last.endsOperand := fun hends => hapart last hlast ⟨hends, ht⟩
    simpa using hends

theorem balance_le_zero {tokens : List Token} {s : State} (h : Reads tokens s)
    (hafter : s.afterOperand = false) : s.balance ≤ 0 := by
  simpa [State.ended, hafter] using h.balance_le

theorem balance_le_one {tokens : List Token} {s : State} (h : Reads tokens s) :
    s.balance ≤ 1 := by
  have := h.balance_le
  unfold State.ended at this
  split at this <;> omega

theorem afterOperand_eq_true {tokens : List Token} {s : State} (h : Reads tokens s)
    (hbalance : s.balance = 1) : s.afterOperand = true := by
  by_contra hne
  have := h.balance_le_zero (by simpa using hne)
  omega

/-- With a token that ends an operand, the tokens can be an expression. -/
theorem ends {tokens : List Token} {s' : State} {t : Token} (ht : t.endsOperand)
    (hafter : s'.afterOperand = true) (hle : s'.balance ≤ 1)
    (hcompletes : s'.balance = 1 → Completes s'.depth (tokens ++ [t])) :
    Reads (tokens ++ [t]) s' where
  afterOperand := by simp [hafter, ht]
  balance_le := by simpa only [State.ended, hafter, if_true] using hle
  completes := fun _ => hcompletes
  expects := by simp [hafter]

/-- After a token that ends no operand, one is expected. -/
theorem awaits {tokens : List Token} {s' : State} {t : Token} (ht : t.endsOperand = false)
    (hafter : s'.afterOperand = false) (hle : s'.balance ≤ 0)
    (hexpects : s'.balance = 0 → Expects s'.depth (tokens ++ [t])) :
    Reads (tokens ++ [t]) s' where
  afterOperand := by simp [hafter, ht]
  balance_le := by simpa [State.ended, hafter] using hle
  completes := by simp [hafter]
  expects := fun _ => hexpects

theorem number {tokens : List Token} {s s' : State} (h : Reads tokens s)
    (hafter : s.afterOperand = false) {n : Numeral} (hstep : s.step n.token = .ok s') :
    Reads (tokens ++ [n.token]) s' := by
  have hzero := h.balance_le_zero hafter
  have heffect := effect_number hstep
  have hbalance := heffect.balance
  have hdepth := heffect.depth
  apply ends rfl heffect.afterOperand (by omega)
  intro hvalue
  have hexpects := h.expects hafter (by omega)
  rw [show s.depth = s'.depth by omega] at hexpects
  exact hexpects.factor (.number n)

theorem minus {tokens : List Token} {s s' : State} (h : Reads tokens s)
    (hafter : s.afterOperand = false) (hstep : s.step (.operator .sub) = .ok s') :
    Reads (tokens ++ [.operator .sub]) s' := by
  have hzero := h.balance_le_zero hafter
  have heffect := effect_minus hafter hstep
  have hbalance := heffect.balance
  have hdepth := heffect.depth
  apply awaits rfl heffect.afterOperand (by omega)
  intro hvalue
  have hexpects := h.expects hafter (by omega)
  rw [show s.depth = s'.depth by omega] at hexpects
  exact hexpects.minus

theorem operator {tokens : List Token} {s s' : State} (h : Reads tokens s) {op : Operator}
    (hop : op ≠ .neg) (hminus : ¬ (op = .sub ∧ s.afterOperand = false))
    (hstep : s.step (.operator op) = .ok s') : Reads (tokens ++ [.operator op]) s' := by
  have hone := h.balance_le_one
  have heffect := effect_operator hop hminus hstep
  have hbalance := heffect.balance
  have hdepth := heffect.depth
  apply awaits rfl heffect.afterOperand (by omega)
  intro hvalue
  have hcompletes := h.completes (h.afterOperand_eq_true (by omega)) (by omega)
  rw [show s.depth = s'.depth by omega] at hcompletes
  exact hcompletes.operator hop

theorem opening {tokens : List Token} {s s' : State} (h : Reads tokens s)
    (hafter : s.afterOperand = false) (hstep : s.step .opening = .ok s') :
    Reads (tokens ++ [.opening]) s' := by
  have hzero := h.balance_le_zero hafter
  have heffect := effect_opening hstep
  have hbalance := heffect.balance
  have hdepth := heffect.depth
  apply awaits rfl heffect.afterOperand (by omega)
  intro hvalue
  rw [show s'.depth = s.depth + 1 by omega]
  exact (h.expects hafter (by omega)).opening

theorem closing {tokens : List Token} {s s' : State} (h : Reads tokens s)
    (hstep : s.step .closing = .ok s') : Reads (tokens ++ [.closing]) s' := by
  have hone := h.balance_le_one
  have heffect := effect_closing hstep
  have hbalance := heffect.balance
  have hdepth := heffect.depth
  apply ends rfl heffect.afterOperand (by omega)
  intro hvalue
  have hcompletes := h.completes (h.afterOperand_eq_true (by omega)) (by omega)
  rw [show s.depth = s'.depth + 1 by omega] at hcompletes
  exact hcompletes.closing

/-- Every token keeps what holds: one out of place costs a value, and no later token brings that
back. -/
theorem step {tokens : List Token} {s s' : State} {t : Token} (h : Reads tokens s)
    (hwritten : t.IsWritten) (hapart : ∀ last ∈ tokens.getLast?, last.OperandsApart t)
    (hstep : s.step t = .ok s') : Reads (tokens ++ [t]) s' := by
  cases hwritten with
  | number n => exact h.number (h.afterOperand_eq_false hapart rfl) hstep
  | @operator op hop =>
    by_cases hminus : op = .sub ∧ s.afterOperand = false
    · obtain ⟨rfl, hafter⟩ := hminus
      exact h.minus hafter hstep
    · exact h.operator hop hminus hstep
  | opening => exact h.opening (h.afterOperand_eq_false hapart rfl) hstep
  | closing => exact h.closing hstep

theorem run {tokens rest : List Token} {s s' : State} (h : Reads tokens s)
    (hwritten : ∀ t ∈ rest, t.IsWritten) (hapart : (tokens ++ rest).IsChain Token.OperandsApart)
    (hrun : rest.foldlM State.step s = .ok s') : Reads (tokens ++ rest) s' := by
  induction rest generalizing tokens s with
  | nil =>
    obtain rfl := Except.ok.inj hrun
    simpa using h
  | cons t rest ih =>
    rw [List.foldlM_cons] at hrun
    obtain ⟨middle, hstep, hrest⟩ := bind_eq_ok_iff.mp hrun
    have hlast : ∀ last ∈ tokens.getLast?, last.OperandsApart t := fun last hlast =>
      (List.isChain_append.mp hapart).2.2 last hlast t rfl
    have hmiddle := h.step (hwritten t (by simp)) hlast hstep
    have happend : tokens ++ t :: rest = tokens ++ [t] ++ rest := by simp
    rw [happend] at hapart ⊢
    exact ih hmiddle (fun t ht => hwritten t (by simp [ht])) hapart hrest

end Reads

theorem length_of_calculate {stack stack' : List Binary64} {t : Token}
    (h : calculate stack t = .ok stack') : (stack'.length : Int) = stack.length + t.gain := by
  cases t with
  | number value literal =>
    obtain rfl := Except.ok.inj h
    simp [Token.gain]
  | operator op =>
    by_cases hop : op = .neg
    · subst hop
      cases stack with
      | nil => simp [calculate, Operator.binary?] at h
      | cons a stack =>
        obtain rfl := Except.ok.inj h
        simp [Token.gain]
    · rw [Token.gain_operator hop]
      match stack with
      | [] => cases op <;> simp_all [calculate, Operator.binary?]
      | [b] => cases op <;> simp_all [calculate, Operator.binary?]
      | b :: a :: stack =>
        rw [calculate_binary hop] at h
        split at h
        next => simp at h
        next =>
          obtain rfl := Except.ok.inj h
          simp only [List.length_cons]
          omega
  | opening => simp [calculate] at h
  | closing => simp [calculate] at h

theorem length_of_foldlM_calculate {tokens : List Token} {stack stack' : List Binary64}
    (h : tokens.foldlM calculate stack = .ok stack') :
    (stack'.length : Int) = stack.length + (tokens.map Token.gain).sum := by
  induction tokens generalizing stack with
  | nil =>
    obtain rfl := Except.ok.inj h
    simp
  | cons t tokens ih =>
    rw [List.foldlM_cons] at h
    obtain ⟨middle, hstep, hrest⟩ := bind_eq_ok_iff.mp h
    rw [ih hrest, length_of_calculate hstep, List.map_cons, List.sum_cons]
    omega

theorem sum_gain_of_value {tokens : List Token} {v : Binary64} (h : value tokens = .ok v) :
    (tokens.map Token.gain).sum = 1 := by
  obtain ⟨stack, hrun, hvalue⟩ := bind_eq_ok_iff.mp h
  have hlength := length_of_foldlM_calculate hrun
  split at hvalue
  next => simpa using hlength.symm
  next => simp at hvalue
  next => simp at hvalue

end Reckoner.Rpn

namespace Reckoner.Expression

/-- Tokens with a value and with operands apart are derived by the grammar. -/
theorem exists_derivation {tokens out : List Token} {v : Binary64}
    (hwritten : ∀ t ∈ tokens, t.IsWritten) (hapart : tokens.IsChain Token.OperandsApart)
    (hrpn : Rpn.ofTokens tokens = .ok out) (hvalue : Rpn.value out = .ok v) :
    ∃ d : Derivation .expression, d.tokens = tokens := by
  obtain ⟨s, hrun, hfinish⟩ := bind_eq_ok_iff.mp hrpn
  have hreads := Rpn.Reads.start.run hwritten hapart hrun
  obtain ⟨reversed, hdrain, rfl⟩ := map_eq_ok_iff.mp hfinish
  obtain ⟨ops, hstack, rfl⟩ := Rpn.State.exists_of_drain hdrain
  have hsum := Rpn.sum_putOut ops s.reversed []
  have hgain := Rpn.sum_gain_of_value hvalue
  rw [List.map_reverse, List.sum_reverse] at hgain
  have hbalance : s.balance = 1 := by
    rw [Rpn.State.balance, hstack]
    simp only [List.append_nil, List.map_nil, List.sum_nil] at hsum
    omega
  have hafter : s.afterOperand = true := by
    by_contra hne
    have := hreads.balance_le_zero (by simpa using hne)
    omega
  have hdepth : s.depth = 0 := by rw [Rpn.State.depth, hstack, Rpn.count_waiting]
  have hcompletes := hreads.completes hafter hbalance
  rw [hdepth, List.nil_append] at hcompletes
  cases hcompletes with
  | outside e => exact ⟨e, rfl⟩

/-- A text that has a value is derived by the grammar exactly if no operand begins in it right
after another has ended. -/
theorem derivable_iff_operandsApart {text : List Char} {v : Binary64}
    (h : value text = .ok v) :
    ∃ tokens, Token.ofText text = .ok tokens ∧
      ((∃ d : Derivation .expression, d.tokens = tokens) ↔
        tokens.IsChain Token.OperandsApart) := by
  rw [value] at h
  split at h
  next => simp at h
  next =>
    obtain ⟨out, hrpn, hvalue⟩ := bind_eq_ok_iff.mp h
    obtain ⟨tokens, htokens, hconvert⟩ := bind_eq_ok_iff.mp hrpn
    refine ⟨tokens, htokens, ?_, ?_⟩
    · rintro ⟨d, rfl⟩
      exact d.isChain_operandsApart
    · intro hapart
      exact exists_derivation (Token.ofText_eq_ok_iff.mp htokens).1 hapart hconvert hvalue

/-- `2*-(3+4)` has a value, and no operand in it begins right after another. -/
theorem derivable_iff_operandsApart_negatedSum :
    value "2*-(3+4)".toList = .ok (.ofBits 0xC02C000000000000) ∧
      ∃ tokens, Token.ofText "2*-(3+4)".toList = .ok tokens ∧
        ((∃ d : Derivation .expression, d.tokens = tokens) ↔
          tokens.IsChain Token.OperandsApart) := by
  have hvalue : value "2*-(3+4)".toList = .ok (.ofBits 0xC02C000000000000) := by decide +kernel
  exact ⟨hvalue, derivable_iff_operandsApart hvalue⟩

/-- `(1)2+` is added up to three, though no derivation has these tokens. -/
theorem value_of_operands_side_by_side :
    value "(1)2+".toList = .ok (.ofBits 0x4008000000000000) ∧
      ¬ ∃ d : Derivation .expression, Token.ofText "(1)2+".toList = .ok d.tokens := by
  refine ⟨by decide +kernel, ?_⟩
  rintro ⟨d, hd⟩
  have hchain : (Token.ofText "(1)2+".toList).map
      (fun tokens => decide (tokens.IsChain Token.OperandsApart)) = .ok false := by
    decide +kernel
  rw [hd, map_ok] at hchain
  exact of_decide_eq_false (Except.ok.inj hchain) d.isChain_operandsApart

end Reckoner.Expression
