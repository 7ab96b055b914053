import Reckoner.Proofs.Expression.Acceptance
import Reckoner.Proofs.Expression.Failure

/-! What a reverse Polish text says of the calculation it was made from. Its tokens are found again
but for one thing: a minus sign does not tell whether it negates or subtracts. -/
namespace Reckoner.Token

/-- A token that a reverse Polish form can have. -/
inductive IsListed : Token → Prop where
  | number (n : Numeral) : IsListed n.token
  | operator (op : Operator) : IsListed (operator op)

def isNegation (t : Token) : Bool :=
  t = operator .neg

theorem text_operator_ne_text_numeral (op : Operator) (n : Numeral) :
    (operator op).text ≠ n.text := by
  intro h
  obtain ⟨c, rest, htext, hdigit⟩ := n.exists_text_eq_cons
  rw [htext] at h
  obtain rfl : op.symbol = c := (List.cons.inj h).1
  cases op <;> cases hdigit

theorem token_eq_of_text_eq {m n : Numeral} (h : m.text = n.text) : m.token = n.token := by
  have hvalue : some m.value = some n.value := by rw [← m.read?_text, h, n.read?_text]
  rw [Numeral.token, Numeral.token, Option.some.inj hvalue, h]

/-- Tokens that are written alike are the same token, or operators with the same symbol. -/
theorem IsListed.eq_or_operator {a b : Token} (ha : a.IsListed) (hb : b.IsListed)
    (htext : a.text = b.text) :
    a = b ∨ ∃ op op', a = .operator op ∧ b = .operator op' ∧ op.symbol = op'.symbol := by
  cases ha with
  | number m =>
    cases hb with
    | number n => exact .inl (token_eq_of_text_eq htext)
    | operator op => exact absurd htext.symm (text_operator_ne_text_numeral op m)
  | operator op =>
    cases hb with
    | number n => exact absurd htext (text_operator_ne_text_numeral op n)
    | operator op' => exact .inr ⟨op, op', rfl, rfl, (List.cons.inj htext).1⟩

theorem IsListed.eq_of_text_eq {a b : Token} (ha : a.IsListed) (hb : b.IsListed)
    (htext : a.text = b.text) (hneg : a.isNegation = b.isNegation) : a = b := by
  rcases ha.eq_or_operator hb htext with rfl | ⟨op, op', rfl, rfl, hsymbol⟩
  · rfl
  · cases op <;> cases op' <;>
      first | rfl | exact absurd hsymbol (by decide) | exact absurd hneg (by decide)

/-- What a token adds to a calculation shows in its text, but for a negation, which adds one more
than the subtraction it is written like. -/
theorem IsListed.gain_eq_of_text_eq {a b : Token} (ha : a.IsListed) (hb : b.IsListed)
    (htext : a.text = b.text) :
    a.gain + b.isNegation.toNat = b.gain + a.isNegation.toNat := by
  rcases ha.eq_or_operator hb htext with rfl | ⟨op, op', rfl, rfl, -⟩
  · rfl
  · cases op <;> cases op' <;> rfl

theorem space_notMem_text {t : Token} (h : t.IsListed) : ' ' ∉ t.text := by
  cases h with
  | number n =>
    intro hmem
    rcases n.isDigit_or_point_of_mem_text hmem with hdigit | hpoint
    · cases hdigit
    · cases hpoint
  | operator op => cases op <;> decide

variable {as bs : List Token}

/-- Tokens with spaces between them are cut apart at the spaces. -/
theorem map_text_eq_of_join_eq (has : ∀ t ∈ as, t.IsListed) (hbs : ∀ t ∈ bs, t.IsListed)
    (has_ne_nil : as ≠ []) (hbs_ne_nil : bs ≠ []) (h : join as = join bs) :
    as.map text = bs.map text := by
  have hsplit {ts : List Token} (hts : ∀ t ∈ ts, t.IsListed) (hne : ts ≠ []) :
      (join ts).splitOn ' ' = ts.map text := by
    apply List.splitOn_intercalate
    · rw [List.forall_mem_map]
      exact fun t ht => space_notMem_text (hts t ht)
    · simpa using hne
  rw [← hsplit has has_ne_nil, h, hsplit hbs hbs_ne_nil]

theorem eq_of_map_text_eq (has : ∀ t ∈ as, t.IsListed) (hbs : ∀ t ∈ bs, t.IsListed)
    (htext : as.map text = bs.map text) (hneg : as.map isNegation = bs.map isNegation) :
    as = bs := by
  induction as generalizing bs with
  | nil => exact (List.map_eq_nil_iff.mp htext.symm).symm
  | cons a as ih =>
    obtain ⟨b, bs, rfl⟩ := List.exists_cons_of_ne_nil (show bs ≠ [] by rintro rfl; cases htext)
    obtain ⟨htext_head, htext_tail⟩ := List.cons.inj htext
    obtain ⟨hneg_head, hneg_tail⟩ := List.cons.inj hneg
    obtain ⟨ha, has⟩ := List.forall_mem_cons.mp has
    obtain ⟨hb, hbs⟩ := List.forall_mem_cons.mp hbs
    rw [ha.eq_of_text_eq hb htext_head hneg_head, ih has hbs htext_tail hneg_tail]

theorem sum_gain_eq_of_map_text_eq (has : ∀ t ∈ as, t.IsListed) (hbs : ∀ t ∈ bs, t.IsListed)
    (htext : as.map text = bs.map text) :
    (as.map gain).sum + bs.countP isNegation = (bs.map gain).sum + as.countP isNegation := by
  induction as generalizing bs with
  | nil => rw [List.map_eq_nil_iff.mp htext.symm]
  | cons a as ih =>
    obtain ⟨b, bs, rfl⟩ := List.exists_cons_of_ne_nil (show bs ≠ [] by rintro rfl; cases htext)
    obtain ⟨htext_head, htext_tail⟩ := List.cons.inj htext
    obtain ⟨ha, has⟩ := List.forall_mem_cons.mp has
    obtain ⟨hb, hbs⟩ := List.forall_mem_cons.mp hbs
    have hhead := ha.gain_eq_of_text_eq hb htext_head
    have htail := ih has hbs htext_tail
    have hcount (t : Token) (ts : List Token) :
        ((t :: ts).countP isNegation : Int) = ts.countP isNegation + t.isNegation.toNat := by
      rw [List.countP_cons]
      cases t.isNegation <;> simp
    rw [List.map_cons, List.map_cons, List.sum_cons, List.sum_cons, hcount, hcount]
    omega

end Reckoner.Token

namespace Reckoner.Expression

theorem isListed_of_mem_rpn {text : List Char} {out : List Token} (h : rpn text = .ok out) :
    ∀ t ∈ out, t.IsListed := by
  obtain ⟨tokens, htokens, hconvert⟩ := bind_eq_ok_iff.mp h
  have hwritten := (Token.ofText_eq_ok_iff.mp htokens).1
  intro t ht
  rcases Rpn.isListedFor_of_ofTokens hconvert t ht with ⟨hnumber, hmem⟩ | ⟨op, rfl⟩
  · rcases (hwritten t hmem).text_cases with ⟨n, rfl⟩ | ⟨hsymbol, -⟩
    · exact .number n
    · exact absurd hnumber hsymbol
  · exact .operator op

/-- What a text with a value has as its reverse Polish form. -/
structure Calculates (text : List Char) (v : Binary64) (out : List Token) : Prop where
  rpn_eq : rpn text = .ok out
  value_eq : Rpn.value out = .ok v
  isListed : ∀ t ∈ out, t.IsListed
  ne_nil : out ≠ []

theorem exists_calculates {text : List Char} {v : Binary64} (h : value text = .ok v) :
    ∃ out, Calculates text v out := by
  rw [value] at h
  split at h
  next => cases h
  next =>
    obtain ⟨out, hrpn, hvalue⟩ := bind_eq_ok_iff.mp h
    refine ⟨out, hrpn, hvalue, isListed_of_mem_rpn hrpn, ?_⟩
    rintro rfl
    cases hvalue

variable {s t : List Char} {v w : Binary64}

theorem Calculates.map_text_eq {as bs : List Token} (hs : Calculates s v as)
    (ht : Calculates t w bs) (htext : rpnText s = rpnText t) :
    as.map Token.text = bs.map Token.text := by
  rw [rpnText, rpnText, hs.rpn_eq, ht.rpn_eq, map_ok, map_ok] at htext
  exact Token.map_text_eq_of_join_eq hs.isListed ht.isListed hs.ne_nil ht.ne_nil
    (Except.ok.inj htext)

/-- A calculation leaves one value, so that its text tells how many of its minus signs negate. -/
theorem Calculates.countP_isNegation_eq {as bs : List Token} (hs : Calculates s v as)
    (ht : Calculates t w bs) (htext : rpnText s = rpnText t) :
    as.countP Token.isNegation = bs.countP Token.isNegation := by
  have hsum := Token.sum_gain_eq_of_map_text_eq hs.isListed ht.isListed
    (hs.map_text_eq ht htext)
  rw [Rpn.sum_gain_of_value hs.value_eq, Rpn.sum_gain_of_value ht.value_eq] at hsum
  omega

theorem Calculates.value_unique {as bs : List Token} (hs : Calculates s v as)
    (ht : Calculates t w bs) (htext : rpnText s = rpnText t)
    (hneg : as.map Token.isNegation = bs.map Token.isNegation) : v = w := by
  obtain rfl := Token.eq_of_map_text_eq hs.isListed ht.isListed (hs.map_text_eq ht htext) hneg
  exact Except.ok.inj (hs.value_eq.symm.trans ht.value_eq)

/-- Expressions with the same reverse Polish text have the same value, as long as the same minus
signs negate in both. They do where none negates in one of the two. -/
theorem value_eq_of_rpnText_eq (hs : value s = .ok v) (ht : value t = .ok w)
    (htext : rpnText s = rpnText t) :
    ∃ as bs, rpn s = .ok as ∧ rpn t = .ok bs ∧
      (as.map Token.isNegation = bs.map Token.isNegation → v = w) ∧
      ((∀ a ∈ as, ¬ a.isNegation) → v = w) := by
  obtain ⟨as, has⟩ := exists_calculates hs
  obtain ⟨bs, hbs⟩ := exists_calculates ht
  refine ⟨as, bs, has.rpn_eq, hbs.rpn_eq, has.value_unique hbs htext, ?_⟩
  intro hnone
  apply has.value_unique hbs htext
  have hnone' : ∀ b ∈ bs, ¬ b.isNegation := by
    rw [← List.countP_eq_zero, ← has.countP_isNegation_eq hbs htext, List.countP_eq_zero]
    exact hnone
  have hlength : as.length = bs.length := by
    simpa using congrArg List.length (has.map_text_eq hbs htext)
  have hfalse {ts : List Token} (hts : ∀ t ∈ ts, ¬ t.isNegation) :
      ts.map Token.isNegation = List.replicate ts.length false :=
    List.eq_replicate_iff.mpr ⟨List.length_map _, by simpa using hts⟩
  rw [hfalse hnone, hfalse hnone', hlength]

/-- `-(2)*(3-4)` and `(-2)*(3-4)` both are `2 - 3 4 - *`, and the same minus sign negates. -/
theorem value_eq_of_rpnText_eq_negatedFactor :
    ∃ v w, value "-(2)*(3-4)".toList = .ok v ∧ value "(-2)*(3-4)".toList = .ok w ∧
      rpnText "-(2)*(3-4)".toList = rpnText "(-2)*(3-4)".toList ∧ v = w := by
  have hs : value "-(2)*(3-4)".toList = .ok (.ofBits 0x4000000000000000) := by decide +kernel
  have ht : value "(-2)*(3-4)".toList = .ok (.ofBits 0x4000000000000000) := by decide +kernel
  have htext : rpnText "-(2)*(3-4)".toList = rpnText "(-2)*(3-4)".toList := by decide +kernel
  have hneg : (rpn "-(2)*(3-4)".toList).map (List.map Token.isNegation) =
      (rpn "(-2)*(3-4)".toList).map (List.map Token.isNegation) := by decide +kernel
  obtain ⟨as, bs, has, hbs, hvalue, -⟩ := value_eq_of_rpnText_eq hs ht htext
  rw [has, hbs] at hneg
  exact ⟨_, _, hs, ht, htext, hvalue (Except.ok.inj hneg)⟩

/-- `-(3-4)` and `3--4` both are `3 4 - -`, which is one if the second minus sign negates and seven
if the first does. -/
theorem value_ne_of_rpnText_eq :
    ∃ s t v w, value s = .ok v ∧ value t = .ok w ∧ rpnText s = rpnText t ∧ v ≠ w :=
  ⟨"-(3-4)".toList, "3--4".toList, .ofBits 0x3FF0000000000000, .ofBits 0x401C000000000000,
    by decide +kernel⟩

end Reckoner.Expression
