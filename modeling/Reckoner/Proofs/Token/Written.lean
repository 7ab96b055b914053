import Mathlib.Data.List.Chain
import Reckoner.Proofs.Text.Digits
import Reckoner.Proofs.Token.Matches

/-! The tokens that a text can hold, and the two ways between them and the text. The lexer reads
back exactly the token lists in which no two numbers stand side by side. -/
namespace Reckoner

/-- A number as an expression writes it: digits, and possibly a point with more digits, or none,
after it. -/
structure Numeral where
  whole : List Char
  fraction : Option (List Char)
  whole_ne_nil : whole ≠ []
  isDigit_of_mem_whole : ∀ c ∈ whole, c.isDigit
  isDigit_of_mem_fraction : ∀ digits ∈ fraction, ∀ c ∈ digits, c.isDigit

namespace Numeral

def places (n : Numeral) : List Char :=
  n.fraction.getD []

def tail (n : Numeral) : List Char :=
  match n.fraction with
  | none => []
  | some digits => '.' :: digits

def text (n : Numeral) : List Char :=
  n.whole ++ n.tail

def value (n : Numeral) : Binary64 :=
  .ofDecimal false (Nat.ofDigitChars 10 (n.whole ++ n.places) 0) (-n.places.length)

def token (n : Numeral) : Token :=
  .number n.value n.text

theorem not_isDigit_of_mem_head?_tail (n : Numeral) : ∀ c ∈ n.tail.head?, ¬ c.isDigit := by
  unfold tail
  cases n.fraction with
  | none => simp
  | some digits => simp

theorem exists_text_eq_cons (n : Numeral) : ∃ c rest, n.text = c :: rest ∧ c.isDigit := by
  obtain ⟨c, rest, hwhole⟩ := List.exists_cons_of_ne_nil n.whole_ne_nil
  refine ⟨c, rest ++ n.tail, ?_, n.isDigit_of_mem_whole c (by simp [hwhole])⟩
  rw [text, hwhole, List.cons_append]

theorem isDigit_or_point_of_mem_text (n : Numeral) {c : Char} (h : c ∈ n.text) :
    c.isDigit ∨ c = '.' := by
  rw [text, List.mem_append] at h
  rcases h with hwhole | htail
  · exact .inl (n.isDigit_of_mem_whole c hwhole)
  · unfold tail at htail
    cases hf : n.fraction with
    | none => simp [hf] at htail
    | some digits =>
      rw [hf] at htail
      rcases List.mem_cons.mp htail with rfl | hdigits
      · exact .inr rfl
      · exact .inl (n.isDigit_of_mem_fraction digits hf c hdigits)

theorem splitDigits_text (n : Numeral) : Binary64.splitDigits n.text = (n.whole, n.tail) := by
  unfold Binary64.splitDigits text
  rw [takeWhile_isDigit_append n.isDigit_of_mem_whole n.not_isDigit_of_mem_head?_tail,
    dropWhile_isDigit_append n.isDigit_of_mem_whole n.not_isDigit_of_mem_head?_tail]

theorem splitFraction_tail (n : Numeral) : Binary64.splitFraction n.tail = (n.places, []) := by
  unfold tail places
  cases hf : n.fraction with
  | none => rfl
  | some digits =>
    have hdigits := n.isDigit_of_mem_fraction digits hf
    simp only [Binary64.splitFraction, Binary64.splitDigits, Option.getD_some,
      List.takeWhile_eq_self_iff.mpr hdigits, List.dropWhile_eq_nil_iff.mpr hdigits]

/-- No digit begins a sign or the name of an infinity or of NaN. -/
private theorem ne_of_isDigit {c : Char} (h : c.isDigit) :
    c ≠ '-' ∧ c ≠ '+' ∧ c.toLower ≠ 'i' ∧ c.toLower ≠ 'n' :=
  of_isDigit (p := fun c => c ≠ '-' ∧ c ≠ '+' ∧ c.toLower ≠ 'i' ∧ c.toLower ≠ 'n')
    (by decide) h

theorem read?_text (n : Numeral) : Binary64.read? n.text = some n.value := by
  obtain ⟨c, rest, htext, hdigit⟩ := n.exists_text_eq_cons
  obtain ⟨hminus, hplus, hi, hn⟩ := ne_of_isDigit hdigit
  have hread : Binary64.read? n.text = Binary64.readUnsigned? false n.text := by
    rw [htext]
    unfold Binary64.read?
    split
    next h => exact absurd (List.cons.inj h).1 hminus
    next h => exact absurd (List.cons.inj h).1 hplus
    next => rfl
  have hname : Binary64.readUnsigned? false n.text = Binary64.readDigits? false n.text := by
    simp only [Binary64.readUnsigned?, htext, List.map_cons]
    rw [if_neg (by simp [hi]), if_neg (by simp [hn])]
  rw [hread, hname]
  simp only [Binary64.readDigits?, splitDigits_text, splitFraction_tail, n.whole_ne_nil,
    false_and, if_false, Binary64.readExponent?, Option.map_some, value, Int.zero_sub]

end Numeral

theorem eq_of_isTokenSymbol {c : Char} (h : isTokenSymbol c) :
    c = '+' ∨ c = '-' ∨ c = '*' ∨ c = '/' ∨ c = '(' ∨ c = ')' := by
  simpa [isTokenSymbol] using h

theorem not_isBlank_of_isTokenSymbol {c : Char} (h : isTokenSymbol c) : !isBlank c := by
  rcases eq_of_isTokenSymbol h with rfl | rfl | rfl | rfl | rfl | rfl <;> decide

theorem not_isTokenSymbol {c : Char} (h : c.isDigit) : ¬ isTokenSymbol c :=
  of_isDigit (p := fun c => ¬ isTokenSymbol c) (by decide) h

namespace Token

/-- Whether a text can hold the token: a number has the value of its digits, and `-` is read as
subtraction. -/
inductive IsWritten : Token → Prop where
  | number (n : Numeral) : IsWritten n.token
  | operator {op : Operator} (h : op ≠ .neg) : IsWritten (operator op)
  | opening : IsWritten opening
  | closing : IsWritten closing

/-- Whether two tokens can be told apart when one is written right after the other. -/
def Apart (a b : Token) : Prop :=
  ¬ (a.isNumber ∧ b.isNumber)

@[simp] theorem text_numeral (n : Numeral) : n.token.text = n.text := rfl

/-- A token that a text can hold is a number or one symbol. -/
theorem IsWritten.text_cases {t : Token} (h : t.IsWritten) :
    (∃ n : Numeral, t = n.token) ∨
      (¬ t.isNumber ∧ ∃ c, t.text = [c] ∧ isTokenSymbol c ∧ ¬ c.isDigit ∧ c ≠ '.') := by
  cases h with
  | number n => exact .inl ⟨n, rfl⟩
  | @operator op h =>
    refine .inr ⟨by simp [isNumber], op.symbol, rfl, ?_⟩
    cases op <;> first | exact absurd rfl h | decide
  | opening => exact .inr ⟨by simp [isNumber], '(', rfl, by decide⟩
  | closing => exact .inr ⟨by simp [isNumber], ')', rfl, by decide⟩

theorem exists_isWritten_of_isTokenSymbol {c : Char} (h : isTokenSymbol c) :
    ∃ t : Token, t.IsWritten ∧ ¬ t.isNumber ∧ t.text = [c] := by
  rcases eq_of_isTokenSymbol h with rfl | rfl | rfl | rfl | rfl | rfl
  · exact ⟨operator .add, .operator (by decide), by simp [isNumber], rfl⟩
  · exact ⟨operator .sub, .operator (by decide), by simp [isNumber], rfl⟩
  · exact ⟨operator .mul, .operator (by decide), by simp [isNumber], rfl⟩
  · exact ⟨operator .div, .operator (by decide), by simp [isNumber], rfl⟩
  · exact ⟨opening, .opening, by simp [isNumber], rfl⟩
  · exact ⟨closing, .closing, by simp [isNumber], rfl⟩

theorem ofLexeme_text {t : Token} (h : t.IsWritten) : ofLexeme t.text = .ok t := by
  cases h with
  | number n =>
    have hne : ∀ c, isTokenSymbol c → n.text ≠ [c] := by
      intro c hc htext
      obtain ⟨d, rest, hcons, hdigit⟩ := n.exists_text_eq_cons
      obtain rfl : c = d := (List.cons.inj (htext.symm.trans hcons)).1
      exact not_isTokenSymbol hdigit hc
    rw [text_numeral]
    unfold ofLexeme
    split
    case h_7 => rw [n.read?_text]; rfl
    all_goals
      rename_i h
      exact absurd h (hne _ (by decide))
  | @operator op h => cases op <;> first | exact absurd rfl h | rfl
  | opening => rfl
  | closing => rfl

end Token

theorem scanAfter_numeral (n : Numeral) (rest : List Char) :
    scanAfter none (n.text ++ rest) =
      scanAfter (some ⟨n.text.reverse, n.fraction.isSome⟩) rest := by
  obtain ⟨c, whole, hwhole⟩ := List.exists_cons_of_ne_nil n.whole_ne_nil
  have hdigits : ∀ d ∈ c :: whole, d.isDigit := hwhole ▸ n.isDigit_of_mem_whole
  have hfirst : scanAfter none (n.text ++ rest) =
      scanAfter (some ⟨n.whole.reverse, false⟩) (n.tail ++ rest) := by
    rw [Numeral.text, hwhole, List.append_assoc, List.cons_append, scanAfter,
      if_pos (hdigits c (by simp)), scanAfter_digits fun d hd => hdigits d (by simp [hd])]
    simp
  rw [hfirst]
  unfold Numeral.text Numeral.tail
  cases hf : n.fraction with
  | none => simp
  | some digits =>
    simp only [List.cons_append, Option.isSome_some]
    rw [scanAfter, if_neg (by decide), if_pos (by simp),
      scanAfter_digits (n.isDigit_of_mem_fraction digits hf)]
    simp

namespace Token

/-- A token that is no number stands apart from whatever comes after it. -/
theorem isChain_cons {t : Token} {tokens : List Token} (ht : ¬ t.isNumber)
    (h : tokens.IsChain Apart) : (t :: tokens).IsChain Apart :=
  h.cons fun _ _ hboth => ht hboth.1

/-- What is written after a number does not go on with it. -/
theorem head?_flatMap_text {n : Numeral} {tokens : List Token}
    (hwritten : ∀ t ∈ tokens, t.IsWritten) (hapart : (n.token :: tokens).IsChain Apart) :
    ∀ c ∈ (tokens.flatMap text).head?, ¬ c.isDigit ∧ c ≠ '.' := by
  cases tokens with
  | nil => simp
  | cons t tokens =>
    rcases (hwritten t (by simp)).text_cases with ⟨m, rfl⟩ | ⟨-, c, htext, -, hdigit, hpoint⟩
    · exact absurd ⟨rfl, rfl⟩ (List.isChain_cons_cons.mp hapart).1
    · intro d hd
      rw [List.flatMap_cons, htext] at hd
      obtain rfl := Option.some.inj hd
      exact ⟨hdigit, hpoint⟩

/-- Tokens written one after the other are cut apart again. -/
theorem scan_flatMap_text {tokens : List Token} (hwritten : ∀ t ∈ tokens, t.IsWritten)
    (hapart : tokens.IsChain Apart) :
    scan (tokens.flatMap text) = .ok (tokens.map text) := by
  rw [scan_eq_scanAfter]
  induction tokens with
  | nil => rfl
  | cons t tokens ih =>
    have hrest : ∀ t ∈ tokens, t.IsWritten := fun t ht => hwritten t (by simp [ht])
    have hscan := ih hrest hapart.tail
    rw [List.flatMap_cons, List.map_cons]
    rcases (hwritten t (by simp)).text_cases with ⟨n, rfl⟩ | ⟨-, c, htext, hsymbol, hdigit, -⟩
    · have hends := head?_flatMap_text hrest hapart
      rw [text_numeral, scanAfter_numeral,
        scanAfter_some fun c hc => ⟨(hends c hc).1, fun hpoint => absurd hpoint (hends c hc).2⟩,
        hscan, map_ok, List.reverse_reverse]
    · rw [htext, List.singleton_append, scanAfter, if_neg hdigit, if_pos hsymbol, hscan, map_ok]

end Token

namespace Numeral

/-- A number goes on with one more digit. -/
theorem exists_text_append_digit (n : Numeral) {c : Char} (hc : c.isDigit) :
    ∃ m : Numeral, m.text = n.text ++ [c] ∧ m.fraction.isSome = n.fraction.isSome := by
  cases hf : n.fraction with
  | none =>
    refine ⟨⟨n.whole ++ [c], none, by simp, ?_, by simp⟩, by simp [text, tail, hf], by simp⟩
    intro d hd
    rcases List.mem_append.mp hd with hd | hd
    · exact n.isDigit_of_mem_whole d hd
    · rwa [List.mem_singleton.mp hd]
  | some digits =>
    refine ⟨⟨n.whole, some (digits ++ [c]), n.whole_ne_nil, n.isDigit_of_mem_whole, ?_⟩,
      by simp [text, tail, hf], by simp⟩
    intro digits' hdigits' d hd
    obtain rfl := Option.some.inj hdigits'
    rcases List.mem_append.mp hd with hd | hd
    · exact n.isDigit_of_mem_fraction digits hf d hd
    · rwa [List.mem_singleton.mp hd]

theorem exists_text_append_point (n : Numeral) (h : n.fraction.isSome = false) :
    ∃ m : Numeral, m.text = n.text ++ ['.'] ∧ m.fraction.isSome := by
  have hnone : n.fraction = none := by simpa using h
  exact ⟨⟨n.whole, some [], n.whole_ne_nil, n.isDigit_of_mem_whole, by simp⟩,
    by simp [text, tail, hnone], rfl⟩

end Numeral

namespace Token

/-- What the lexer finds in a text: tokens that can be told apart and make up the text. -/
structure Lexes (text : List Char) (lexemes : List (List Char)) (tokens : List Token) :
    Prop where
  isWritten : ∀ t ∈ tokens, t.IsWritten
  isChain : tokens.IsChain Apart
  map_text : tokens.map Token.text = lexemes
  flatMap_text : tokens.flatMap Token.text = text

theorem Lexes.cons_symbol {c : Char} {text : List Char} {lexemes : List (List Char)}
    {tokens : List Token} (hc : isTokenSymbol c) (h : Lexes text lexemes tokens) :
    ∃ t : Token, ¬ t.isNumber ∧ Lexes (c :: text) ([c] :: lexemes) (t :: tokens) := by
  obtain ⟨t, hwritten, hnumber, htext⟩ := exists_isWritten_of_isTokenSymbol hc
  refine ⟨t, hnumber, ?_, isChain_cons hnumber h.isChain, ?_, ?_⟩
  · simpa using ⟨hwritten, h.isWritten⟩
  · rw [List.map_cons, htext, h.map_text]
  · rw [List.flatMap_cons, htext, h.flatMap_text, List.singleton_append]

/-- A number ends at a token of one character. -/
theorem Lexes.cons_numeral {n : Numeral} {c : Char} {text : List Char} {lexemes : List (List Char)}
    {tokens : List Token} (hc : isTokenSymbol c) (h : Lexes text lexemes tokens) :
    ∃ t : Token,
      Lexes (n.text ++ c :: text) (n.text :: [c] :: lexemes) (n.token :: t :: tokens) := by
  obtain ⟨t, hnumber, hcons⟩ := h.cons_symbol hc
  refine ⟨t, ?_, ?_, ?_, ?_⟩
  · intro t' ht'
    rcases List.mem_cons.mp ht' with rfl | ht'
    · exact .number n
    · exact hcons.isWritten t' ht'
  · exact List.isChain_cons_cons.mpr ⟨fun hboth => hnumber hboth.2, hcons.isChain⟩
  · rw [List.map_cons, hcons.map_text, text_numeral]
  · rw [List.flatMap_cons, hcons.flatMap_text, text_numeral]

/-- Whether all that the lexer finds in a text is tokens. -/
def FindsTokens (text : List Char) : Prop :=
  ∀ lexemes, scanAfter none text = .ok lexemes → ∃ tokens, Lexes text lexemes tokens

/-- Whether all that the lexer finds after the beginning of any number is tokens, of which the
first is a number that begins so. -/
def FindsTokensWithin (text : List Char) : Prop :=
  ∀ (n : Numeral) (lexemes : List (List Char)),
    scanAfter (some ⟨n.text.reverse, n.fraction.isSome⟩) text = .ok lexemes →
      ∃ (m : Numeral) (tokens : List Token), Lexes (n.text ++ text) lexemes (m.token :: tokens)

theorem FindsTokens.cons {c : Char} {text : List Char} (h : FindsTokens text)
    (hwithin : FindsTokensWithin text) : FindsTokens (c :: text) := by
  intro lexemes hscan
  rw [scanAfter] at hscan
  split at hscan
  next hdigit =>
    let n : Numeral := ⟨[c], none, by simp, by simpa using hdigit, by simp⟩
    obtain ⟨m, tokens, hlexes⟩ := hwithin n lexemes hscan
    exact ⟨m.token :: tokens, hlexes⟩
  split at hscan
  next hsymbol =>
    obtain ⟨rest, hrest, rfl⟩ := map_eq_ok_iff.mp hscan
    obtain ⟨tokens, hlexes⟩ := h rest hrest
    obtain ⟨t, -, hcons⟩ := hlexes.cons_symbol hsymbol
    exact ⟨t :: tokens, hcons⟩
  next => cases hscan

theorem FindsTokensWithin.cons {c : Char} {text : List Char} (h : FindsTokens text)
    (hwithin : FindsTokensWithin text) : FindsTokensWithin (c :: text) := by
  intro n lexemes hscan
  rw [scanAfter] at hscan
  split at hscan
  next hdigit =>
    obtain ⟨m, htext, hpoint⟩ := n.exists_text_append_digit hdigit
    rw [← List.reverse_concat', ← htext, ← hpoint] at hscan
    obtain ⟨m', tokens, hlexes⟩ := hwithin m lexemes hscan
    exact ⟨m', tokens, by simpa [htext] using hlexes⟩
  split at hscan
  next hpoint =>
    obtain ⟨m, htext, hsome⟩ := n.exists_text_append_point (by simpa using hpoint.2)
    rw [hpoint.1, ← List.reverse_concat', ← htext, ← hsome] at hscan
    obtain ⟨m', tokens, hlexes⟩ := hwithin m lexemes hscan
    exact ⟨m', tokens, by simpa [htext, hpoint.1] using hlexes⟩
  split at hscan
  next hsymbol =>
    obtain ⟨rest, hrest, rfl⟩ := map_eq_ok_iff.mp hscan
    obtain ⟨tokens, hlexes⟩ := h rest hrest
    obtain ⟨t, hcons⟩ := hlexes.cons_numeral hsymbol
    rw [List.reverse_reverse]
    exact ⟨n, t :: tokens, hcons⟩
  next => cases hscan

/-- What the lexer finds is tokens, also where it is within a number. -/
theorem findsTokens (text : List Char) : FindsTokens text ∧ FindsTokensWithin text := by
  induction text with
  | nil =>
    constructor
    · intro lexemes hscan
      obtain rfl := Except.ok.inj hscan
      exact ⟨[], by simp, by simp, rfl, rfl⟩
    · intro n lexemes hscan
      obtain rfl := Except.ok.inj hscan
      exact ⟨n, [], by simpa using IsWritten.number n, by simp, by simp, by simp⟩
  | cons c text ih => exact ⟨.cons ih.1 ih.2, .cons ih.1 ih.2⟩

theorem exists_lexes {text : List Char} {lexemes : List (List Char)}
    (h : scan text = .ok lexemes) : ∃ tokens, Lexes text lexemes tokens := by
  rw [scan_eq_scanAfter] at h
  exact (findsTokens text).1 lexemes h

/-- The tokens of a text are the written tokens that make it up without its white space, with no
two numbers side by side. -/
theorem ofText_eq_ok_iff {text : List Char} {tokens : List Token} :
    ofText text = .ok tokens ↔
      (∀ t ∈ tokens, t.IsWritten) ∧ tokens.IsChain Apart ∧
        tokens.flatMap Token.text = strip text := by
  have hmap {tokens : List Token} (h : ∀ t ∈ tokens, t.IsWritten) :
      (tokens.map Token.text).mapM ofLexeme = .ok tokens :=
    mapM_eq_ok fun t ht => ofLexeme_text (h t ht)
  constructor
  · intro h
    obtain ⟨lexemes, hscan, hlexemes⟩ := bind_eq_ok_iff.mp h
    obtain ⟨found, hlexes⟩ := exists_lexes hscan
    rw [← hlexes.map_text, hmap hlexes.isWritten] at hlexemes
    obtain rfl := Except.ok.inj hlexemes
    exact ⟨hlexes.isWritten, hlexes.isChain, hlexes.flatMap_text⟩
  · rintro ⟨hwritten, hapart, hstrip⟩
    unfold ofText
    rw [← hstrip, scan_flatMap_text hwritten hapart, ok_bind, hmap hwritten]

theorem isTokenChar_of_mem_flatMap_text {tokens : List Token} (h : ∀ t ∈ tokens, t.IsWritten)
    {c : Char} (hc : c ∈ tokens.flatMap Token.text) : c.isDigit ∨ c = '.' ∨ isTokenSymbol c := by
  obtain ⟨t, ht, hmem⟩ := List.mem_flatMap.mp hc
  rcases (h t ht).text_cases with ⟨n, rfl⟩ | ⟨-, d, htext, hsymbol, -⟩
  · exact (n.isDigit_or_point_of_mem_text hmem).imp_right .inl
  · rw [htext, List.mem_singleton] at hmem
    exact .inr (.inr (hmem ▸ hsymbol))

/-- No token holds white space. -/
theorem strip_flatMap_text {tokens : List Token} (h : ∀ t ∈ tokens, t.IsWritten) :
    strip (tokens.flatMap Token.text) = tokens.flatMap Token.text := by
  unfold strip
  rw [List.filter_eq_self]
  intro c hc
  rcases isTokenChar_of_mem_flatMap_text h hc with hdigit | rfl | hsymbol
  · simpa using not_isBlank_of_isDigit hdigit
  · decide
  · exact not_isBlank_of_isTokenSymbol hsymbol

theorem ofText_flatMap_text {tokens : List Token} (hwritten : ∀ t ∈ tokens, t.IsWritten)
    (hapart : tokens.IsChain Apart) : ofText (tokens.flatMap text) = .ok tokens :=
  ofText_eq_ok_iff.mpr ⟨hwritten, hapart, (strip_flatMap_text hwritten).symm⟩

end Token

end Reckoner
