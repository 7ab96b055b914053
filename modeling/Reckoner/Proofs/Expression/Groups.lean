import Reckoner.Proofs.Expression.Conversion

/-! What stands between parentheses, by itself and within an expression. The conversion of a group
runs on top of what has come before as it runs on nothing, and leaves nothing behind but what it
puts out, so that groups that are converted alike can take each other's place. -/
namespace Reckoner.Rpn

namespace State

/-- The state `s` of a group that has been opened in the state `outer`. -/
def within (s outer : State) : State where
  reversed := s.reversed ++ outer.reversed
  stack := s.stack ++ .opening :: outer.stack
  afterOperand := s.afterOperand

theorem step_opening (outer : State) : outer.step .opening = .ok (start.within outer) := rfl

end State

/-- A token does in a group what it does by itself. -/
theorem Takes.within {s s' : State} {t : Token} (h : Takes s t s') (outer : State) :
    Takes (s.within outer) t (s'.within outer) := by
  cases h with
  | number => exact .number (s.within outer) _ _
  | negation hafter => exact .negation (s := s.within outer) hafter
  | operator hminus hops hrest =>
    unfold State.within
    rw [← putOut_append, List.append_assoc]
    exact .operator hminus hops (hrest.append_opening outer.stack)
  | opening => exact .opening (s.within outer)
  | closing ops reversed rest after =>
    unfold State.within
    rw [← putOut_append, List.append_assoc]
    exact .closing ops _ _ after

namespace State

theorem step_within {s s' : State} {t : Token} (h : s.step t = .ok s') (outer : State) :
    (s.within outer).step t = .ok (s'.within outer) :=
  step_of_takes ((takes_of_step h).within outer)

theorem foldlM_within {tokens : List Token} {s s' : State} (h : tokens.foldlM step s = .ok s')
    (outer : State) : tokens.foldlM step (s.within outer) = .ok (s'.within outer) := by
  induction tokens generalizing s with
  | nil =>
    obtain rfl := Except.ok.inj h
    rfl
  | cons t tokens ih =>
    rw [List.foldlM_cons] at h ⊢
    obtain ⟨middle, hstep, hrest⟩ := bind_eq_ok_iff.mp h
    rw [step_within hstep, ok_bind, ih hrest]

end State

/-- The tokens with parentheses around them. -/
def group (tokens : List Token) : List Token :=
  [.opening] ++ tokens ++ [.closing]

/-- A group puts out what its tokens become by themselves, and ends an operand. -/
theorem foldlM_group {tokens out : List Token} (h : ofTokens tokens = .ok out) (outer : State) :
    (group tokens).foldlM State.step outer =
      .ok ⟨out.reverse ++ outer.reversed, outer.stack, true⟩ := by
  obtain ⟨s, hrun, hfinish⟩ := bind_eq_ok_iff.mp h
  obtain ⟨reversed, hdrain, rfl⟩ := map_eq_ok_iff.mp hfinish
  obtain ⟨ops, hstack, rfl⟩ := State.exists_of_drain hdrain
  have hclose : (s.within outer).step .closing =
      .ok ⟨putOut ops s.reversed ++ outer.reversed, outer.stack, true⟩ := by
    rw [State.within, hstack, State.step, State.close_append, map_ok, putOut_append]
  rw [group, List.append_assoc, List.singleton_append, List.foldlM_cons, State.step_opening,
    ok_bind, List.foldlM_append, State.foldlM_within hrun, ok_bind, List.foldlM_cons, hclose,
    List.reverse_reverse]
  rfl

/-- Parentheses around all tokens change nothing. -/
theorem ofTokens_group {tokens out : List Token} (h : ofTokens tokens = .ok out) :
    ofTokens (group tokens) = .ok out := by
  rw [ofTokens, foldlM_group h]
  simp [State.finish, State.start, State.drain]

theorem ofTokens_append_group {tokens tokens' out : List Token} (h : ofTokens tokens = .ok out)
    (h' : ofTokens tokens' = .ok out) (before after : List Token) :
    ofTokens (before ++ group tokens ++ after) = ofTokens (before ++ group tokens' ++ after) := by
  have hgroup : (group tokens).foldlM State.step = (group tokens').foldlM State.step := by
    funext outer
    rw [foldlM_group h, foldlM_group h']
  unfold ofTokens
  rw [List.foldlM_append, List.foldlM_append, List.foldlM_append, List.foldlM_append, hgroup]

/-- Groups that become the same by themselves become the same within all tokens, also such as cannot
be converted. By themselves they become what their tokens do without parentheses, and more
parentheses around them change nothing anywhere. -/
theorem ofTokens_group_congr {tokens tokens' out : List Token} (h : ofTokens tokens = .ok out)
    (h' : ofTokens tokens' = .ok out) :
    (∀ before after,
      ofTokens (before ++ group tokens ++ after) = ofTokens (before ++ group tokens' ++ after)) ∧
    ofTokens (group tokens) = .ok out ∧ ofTokens (group tokens') = .ok out ∧
    ∀ before after,
      ofTokens (before ++ group (group tokens) ++ after) =
        ofTokens (before ++ group tokens ++ after) :=
  ⟨ofTokens_append_group h h', ofTokens_group h, ofTokens_group h',
    ofTokens_append_group (ofTokens_group h) h⟩

/-- `1 2+`, with its operator out of place, is put in the order of `1+2`, and so is `2*(1 2+)-` in
that of `2*(1+2)-`. -/
theorem ofTokens_group_congr_misplaced :
    let one : Token := .number (.ofBits 0x3FF0000000000000) ['1']
    let two : Token := .number (.ofBits 0x4000000000000000) ['2']
    let out : List Token := [one, two, .operator .add]
    ofTokens [one, .operator .add, two] = .ok out ∧ ofTokens [one, two, .operator .add] = .ok out ∧
      ofTokens ([two, .operator .mul] ++ group [one, two, .operator .add] ++ [.operator .sub]) =
        .ok ([two] ++ out ++ [.operator .mul, .operator .sub]) := by
  intro one two out
  have hsum : ofTokens [one, .operator .add, two] = .ok out := by decide +kernel
  have hmisplaced : ofTokens [one, two, .operator .add] = .ok out := by decide +kernel
  refine ⟨hsum, hmisplaced, ?_⟩
  rw [← (ofTokens_group_congr hsum hmisplaced).1]
  decide +kernel

end Reckoner.Rpn
