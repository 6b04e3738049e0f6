import Mathlib
import N8n.Foundations.JsonParse

/-!
# Expressions with one call of `$fromAI`

`isFromAIOnlyExpression` looks at the characters between the parentheses of a call one by one. It
takes quotes, escapes and interpolations into account, but outside quotes it looks at single
characters only: letters, digits, dots, commas, minus signs and space. The tokens that these make
up may be names, members of values or nothing that can be an argument.

`isLiteralCall_iff` says which of the accepted expressions are a call with literals for arguments:
those whose tokens are literals with single commas between them.
-/

namespace N8n

namespace FromAI

/-! ### The scanner -/

def fromAIAutoGeneratedMarker : List Char := "/*n8n-auto-generated-fromAI-override*/".toList

/-- `\s`, which is also what `trim` takes away. -/
def isWhiteSpace (c : Char) : Bool :=
  c ∈ ['\t', '\n', '\x0b', '\x0c', '\r', ' ', '\u00a0', '\u1680', '\u2028', '\u2029', '\u202f',
    '\u205f', '\u3000', '\ufeff'] || ('\u2000' ≤ c && c ≤ '\u200a')

def trim (s : List Char) : List Char := (s.dropWhile isWhiteSpace).rdropWhile isWhiteSpace

def isQuote (c : Char) : Bool := c = '"' || c = '\'' || c = '`'

def lower (s : List Char) : List Char := s.map Char.toLower

/-- What stands in an expression, without its delimiters and the marker. -/
def expressionBody (expr : List Char) : List Char :=
  let str := if expr.head? = some '=' then expr.tail else expr
  let str := trim str
  let str :=
    if "\x7b\x7b".toList <+: str ∧ "\x7d\x7d".toList <:+ str then
      trim ((str.drop 2).take (str.length - 4))
    else str
  if fromAIAutoGeneratedMarker <+: str then trim (str.drop fromAIAutoGeneratedMarker.length)
  else str

/-- `/^\$fromAI\s*\(/i`, with what follows the match. -/
def openCall? (str : List Char) : Option (List Char) :=
  if str.head? = some '$' ∧ lower (str.tail.take 6) = "fromai".toList then
    match (str.tail.drop 6).dropWhile isWhiteSpace with
    | '(' :: rest => some rest
    | _ => none
  else none

/-- Up to the parenthesis that closes the call. No other one is opened outside quotes, so that the
depth is one up to there. -/
def scanLiterals (quoteChar lastOutsideChar : Option Char) : List Char → Option (List Char)
  | [] => none
  | char :: rest =>
    match quoteChar with
    | some q =>
      if char = '\\' then
        match rest with
        | [] => none
        | _ :: rest => scanLiterals (some q) lastOutsideChar rest
      else if q = '`' ∧ char = '$' ∧ rest.head? = some '\x7b' then none
      else scanLiterals (if char = q then none else some q) lastOutsideChar rest
    | none =>
      if isQuote char then
        -- a name directly before a template makes it a call
        if char = '`' ∧ lastOutsideChar.any (fun c => c.isAlphanum || c = '_') then none
        else scanLiterals (some char) (some char) rest
      else if char = ')' then some rest
      else if char.isAlphanum || char = '.' || char = ',' || char = '-' || isWhiteSpace char then
        scanLiterals none (if isWhiteSpace char then lastOutsideChar else some char) rest
      else none

def isFromAIOnlyExpression (expr : List Char) : Bool :=
  match openCall? (expressionBody expr) with
  | none => false
  | some rest =>
    match scanLiterals none none rest with
    | none => false
    | some remainder => trim remainder = []

/-! ### Literals -/

def IsBlank (s : List Char) : Prop := ∀ c ∈ s, isWhiteSpace c = true

/-- The characters of numbers and names, as far as an accepted expression may have them. -/
def isWordChar (c : Char) : Bool := c.isAlphanum || c = '.' || c = '-' || c = '+'

def isDecimal (t : List Char) : Bool :=
  let mantissa :=
    if t.head? = some '.' then JsonTree.digits? t.tail
    else (if t.head? = some '0' then some t.tail else JsonTree.digits? t).map fun rest =>
      if rest.head? = some '.' then rest.tail.dropWhile Char.isDigit else rest
  let exponent := mantissa.bind fun rest =>
    if rest.head? = some 'e' ∨ rest.head? = some 'E' then
      JsonTree.digits? (if rest.tail.head? = some '+' ∨ rest.tail.head? = some '-' then
        rest.tail.tail else rest.tail)
    else some rest
  exponent = some []

def isHexDigit (c : Char) : Bool := c.isDigit || c ∈ "abcdefABCDEF".toList

/-- A number in the base that its second character stands for. -/
def isBased : List Char → Bool
  | '0' :: base :: d :: rest =>
    if base.toLower = 'x' then (d :: rest).all isHexDigit
    else if base.toLower = 'o' then (d :: rest).all fun c => '0' ≤ c && c ≤ '7'
    else if base.toLower = 'b' then (d :: rest).all fun c => c = '0' || c = '1'
    else false
  | _ => false

/-- A number, `true`, `false` or `null`. -/
def isWordLiteral (word : List Char) : Bool :=
  let unsigned := if word.head? = some '-' then word.tail else word
  word ≠ [] && word.all isWordChar &&
    (isDecimal unsigned || isBased unsigned ||
      word ∈ ["true".toList, "false".toList, "null".toList])

/-- What may follow a backslash. -/
def isEscape (c : Char) (rest : List Char) : Bool :=
  if c = 'x' then (rest.take 2).length = 2 && (rest.take 2).all isHexDigit
  else if c = 'u' then
    if rest.head? = some '\x7b' then
      let digits := rest.tail.takeWhile isHexDigit
      (rest.tail.drop digits.length).head? = some '\x7d' && digits ≠ [] &&
        digits.foldl (fun n d => 16 * n + (JsonTree.hexDigit? d).getD 0) 0 ≤ 0x10ffff
    else (rest.take 4).length = 4 && (rest.take 4).all isHexDigit
  else if c.isDigit then c = '0' && !rest.head?.any Char.isDigit
  else true

/-- The escapes are ones that the language has, and a string has no raw line break. -/
def hasEscapes (quoteChar : Char) : List Char → Bool
  | '\\' :: '\r' :: '\n' :: rest => hasEscapes quoteChar rest
  | '\\' :: c :: rest => isEscape c rest && hasEscapes quoteChar rest
  | c :: rest => (quoteChar = '`' || (c ≠ '\n' && c ≠ '\r')) && hasEscapes quoteChar rest
  | [] => true

/-- The text does not close the quotes that it stands in. -/
def staysQuoted (quoteChar : Char) : List Char → Bool
  | [] => true
  | '\\' :: [] => false
  | '\\' :: _ :: rest => staysQuoted quoteChar rest
  | c :: rest => c ≠ quoteChar && staysQuoted quoteChar rest

def hasNoInterpolation : List Char → Bool
  | [] => true
  | '\\' :: _ :: rest => hasNoInterpolation rest
  | c :: rest => !(c = '$' && rest.head? = some '\x7b') && hasNoInterpolation rest

inductive IsLiteral : List Char → Prop
  | word {word : List Char} (h : isWordLiteral word = true) : IsLiteral word
  | quoted {quoteChar : Char} {text : List Char} (hquote : isQuote quoteChar = true)
    (hstays : staysQuoted quoteChar text = true) (hescapes : hasEscapes quoteChar text = true)
    (hinterpolation : quoteChar = '`' → hasNoInterpolation text = true) :
    IsLiteral (quoteChar :: (text ++ [quoteChar]))

/-- The arguments of a call are literals; a comma may follow the last one. -/
inductive AreLiterals : List Char → Prop
  | blank {s : List Char} (h : IsBlank s) : AreLiterals s
  | last {before literal after : List Char} (hbefore : IsBlank before) (h : IsLiteral literal)
    (hafter : IsBlank after) : AreLiterals (before ++ (literal ++ after))
  | cons {before literal after rest : List Char} (hbefore : IsBlank before)
    (h : IsLiteral literal) (hafter : IsBlank after) (hrest : AreLiterals rest) :
    AreLiterals (before ++ (literal ++ (after ++ ',' :: rest)))

/-- A single call, with literals for arguments. -/
def IsLiteralCall (str : List Char) : Prop :=
  ∃ name space args after, lower name = "fromai".toList ∧ IsBlank space ∧ AreLiterals args ∧
    IsBlank after ∧ str = '$' :: (name ++ (space ++ '(' :: (args ++ ')' :: after)))

/-! ### Tokens -/

inductive ArgumentToken where
  | word (word : List Char)
  | quoted (quoteChar : Char) (text : List Char)
  | comma

def ArgumentToken.text : ArgumentToken → List Char
  | word w => w
  | quoted q t => q :: (t ++ [q])
  | comma => [',']

def wordToken (w : List Char) : List ArgumentToken := if w = [] then [] else [.word w]

/-- The tokens before the parenthesis that closes the call. -/
def argumentTokens (quoteChar : Option Char) (current : List Char) :
    List Char → List ArgumentToken
  | [] => wordToken current
  | char :: rest =>
    match quoteChar with
    | some q =>
      if char = '\\' then
        match rest with
        | [] => []
        | next :: rest => argumentTokens (some q) (current ++ [char, next]) rest
      else if char = q then .quoted q current :: argumentTokens none [] rest
      else argumentTokens (some q) (current ++ [char]) rest
    | none =>
      if isQuote char then wordToken current ++ argumentTokens (some char) [] rest
      else if char = ')' then wordToken current
      else if char = ',' then wordToken current ++ .comma :: argumentTokens none [] rest
      else if isWhiteSpace char then wordToken current ++ argumentTokens none [] rest
      else argumentTokens none (current ++ [char]) rest

/-- A word has to be a number, `true`, `false` or `null`; in quotes the escapes have to be ones of
the language. -/
def ArgumentToken.isLiteral : ArgumentToken → Bool
  | word w => isWordLiteral w
  | quoted q t => hasEscapes q t
  | comma => false

/-- Literals with single commas between them. -/
def alternate : List ArgumentToken → Bool
  | [] => true
  | [token] => token.isLiteral
  | token :: .comma :: rest => token.isLiteral && alternate rest
  | _ :: _ :: _ => false

/-! ### From tokens to literals -/

/-- The rest of a quoted text that the scanner went through. -/
theorem quoted_of_scan {q : Char} {last : Option Char} {s remainder : List Char}
    (h : scanLiterals (some q) last s = some remainder) (current : List Char) :
    ∃ text rest, s = text ++ q :: rest ∧ staysQuoted q text = true ∧
      (q = '`' → hasNoInterpolation text = true) ∧
      argumentTokens (some q) current s =
        .quoted q (current ++ text) :: argumentTokens none [] rest ∧
      scanLiterals none last rest = some remainder := by
  induction hs : s.length using Nat.strong_induction_on generalizing s current with
  | _ n ih =>
    subst hs
    cases s with
    | nil => exact nomatch h
    | cons char s =>
      rw [scanLiterals.eq_def] at h
      dsimp only at h
      rw [argumentTokens.eq_def]
      dsimp only
      split_ifs at h with hbackslash hinterpolation hclose
      · -- an escape
        subst hbackslash
        cases s with
        | nil => exact nomatch h
        | cons next s =>
          dsimp only at h
          obtain ⟨text, rest, rfl, hstays, hnone, htokens, hscan⟩ :=
            ih s.length (by simp only [List.length_cons]; omega) h (current ++ ['\\', next]) rfl
          refine ⟨'\\' :: next :: text, rest, rfl, ?_, ?_, ?_, hscan⟩
          · rwa [staysQuoted]
          · rwa [hasNoInterpolation]
          · rw [if_pos rfl]
            dsimp only
            rw [htokens, List.append_assoc]
            rfl
      · -- the end of the quotes
        subst hclose
        refine ⟨[], s, rfl, rfl, fun _ => rfl, ?_, h⟩
        rw [if_neg hbackslash, if_pos rfl, List.append_nil]
      · obtain ⟨text, rest, rfl, hstays, hnone, htokens, hscan⟩ :=
          ih s.length (by simp only [List.length_cons]; omega) h (current ++ [char]) rfl
        refine ⟨char :: text, rest, rfl, ?_, ?_, ?_, hscan⟩
        · rw [staysQuoted, hstays, Bool.and_true]
          · exact decide_eq_true hclose
          · exact fun h => absurd h hbackslash
          · exact fun _ _ h => absurd h hbackslash
        · intro hq
          rw [hasNoInterpolation, hnone hq, Bool.and_true, Bool.not_eq_true', Bool.and_eq_false_iff]
          · by_cases hchar : char = '$'
            · refine .inr (decide_eq_false fun hbrace => hinterpolation ⟨hq, hchar, ?_⟩)
              rw [List.head?_append, hbrace]
              rfl
            · exact .inl (decide_eq_false hchar)
          · exact fun _ _ h => absurd h hbackslash
        · rw [if_neg hbackslash, if_neg hclose, htokens, List.append_assoc]
          rfl

/-- The characters that a word ends at. -/
def isDelimiter (c : Char) : Bool := isQuote c || c = ')' || c = ',' || isWhiteSpace c

theorem argumentTokens_delimiter {c : Char} (h : isDelimiter c = true) (current s : List Char) :
    argumentTokens none current (c :: s) =
      wordToken current ++ argumentTokens none [] (c :: s) := by
  simp only [isDelimiter, Bool.or_eq_true, decide_eq_true_eq] at h
  rw [argumentTokens.eq_def, argumentTokens.eq_def]
  dsimp only
  split_ifs with hquote hclose hcomma hspace
  · rfl
  · exact (List.append_nil _).symm
  · rfl
  · rfl
  · obtain ((h | h) | h) | h := h
    · exact absurd h hquote
    · exact absurd h hclose
    · exact absurd h hcomma
    · exact absurd h hspace

theorem argumentTokens_of_not_delimiter {c : Char} (h : isDelimiter c = false)
    (current s : List Char) :
    argumentTokens none current (c :: s) = argumentTokens none (current ++ [c]) s := by
  simp only [isDelimiter, Bool.or_eq_false_iff, decide_eq_false_iff_not] at h
  obtain ⟨⟨⟨hquote, hclose⟩, hcomma⟩, hspace⟩ := h
  rw [argumentTokens.eq_def]
  dsimp only
  rw [if_neg (hquote ▸ Bool.false_ne_true), if_neg hclose, if_neg hcomma,
    if_neg (hspace ▸ Bool.false_ne_true)]

/-- A word is read up to its end. -/
theorem word_of_scan {last : Option Char} {s remainder : List Char}
    (h : scanLiterals none last s = some remainder) {current : List Char} (hne : current ≠ []) :
    ∃ w rest last', s = w ++ rest ∧
      argumentTokens none current s = .word (current ++ w) :: argumentTokens none [] rest ∧
      scanLiterals none last' rest = some remainder := by
  induction s generalizing last current with
  | nil => exact nomatch h
  | cons char s ih =>
    by_cases hdelimiter : isDelimiter char = true
    · refine ⟨[], char :: s, last, rfl, ?_, h⟩
      rw [argumentTokens_delimiter hdelimiter, wordToken, if_neg hne, List.append_nil]
      rfl
    · rw [Bool.not_eq_true] at hdelimiter
      have hnot := hdelimiter
      simp only [isDelimiter, Bool.or_eq_false_iff, decide_eq_false_iff_not] at hnot
      rw [scanLiterals.eq_def] at h
      dsimp only at h
      rw [if_neg (hnot.1.1.1 ▸ Bool.false_ne_true), if_neg hnot.1.1.2, hnot.2] at h
      split_ifs at h with hliteral hspace
      · exact nomatch hspace
      obtain ⟨w, rest, last', rfl, htokens, hscan⟩ :=
        ih h (List.append_ne_nil_of_right_ne_nil current (List.cons_ne_nil char []))
      refine ⟨char :: w, rest, last', rfl, ?_, hscan⟩
      rw [argumentTokens_of_not_delimiter hdelimiter, htokens, List.append_assoc]
      rfl

/-- What the scanner makes sure of. -/
def ArgumentToken.IsScanned : ArgumentToken → Prop
  | word _ | comma => True
  | quoted q t => isQuote q = true ∧ staysQuoted q t = true ∧
      (q = '`' → hasNoInterpolation t = true)

/-- The next token before the closing parenthesis. -/
theorem token_of_scan {last : Option Char} {s remainder : List Char}
    (h : scanLiterals none last s = some remainder) :
    (∃ space, IsBlank space ∧ s = space ++ ')' :: remainder ∧ argumentTokens none [] s = []) ∨
      ∃ token space rest last', IsBlank space ∧ s = space ++ (token.text ++ rest) ∧
        token.IsScanned ∧ argumentTokens none [] s = token :: argumentTokens none [] rest ∧
        scanLiterals none last' rest = some remainder := by
  induction s generalizing last with
  | nil => exact nomatch h
  | cons char s ih =>
    have hnil : IsBlank [] := nofun
    have hscan := h
    rw [scanLiterals.eq_def] at h
    dsimp only at h
    rw [argumentTokens.eq_def]
    dsimp only
    split_ifs at h with hquote htag hclose hliteral hspace
    · obtain ⟨text, rest, rfl, hstays, hnone, htokens, hrest⟩ := quoted_of_scan h []
      refine .inr ⟨.quoted char text, [], rest, _, hnil, ?_, ⟨hquote, hstays, hnone⟩, ?_, hrest⟩
      · rw [List.nil_append, ArgumentToken.text, List.cons_append, List.append_assoc]
        rfl
      · rw [if_pos hquote, htokens]
        rfl
    · refine .inl ⟨[], hnil, ?_, ?_⟩
      · rw [hclose, Option.some.inj h]
        rfl
      · rw [if_neg hquote, if_pos hclose]
        rfl
    all_goals rw [if_neg hquote, if_neg hclose]
    · -- space before the token
      have hcomma : char ≠ ',' := by
        rintro rfl
        exact absurd hspace (by decide)
      rw [if_neg hcomma, if_pos hspace]
      have hcons {space : List Char} (hblank : IsBlank space) : IsBlank (char :: space) :=
        List.forall_mem_cons.mpr ⟨hspace, hblank⟩
      obtain ⟨space, hblank, rfl, htokens⟩ |
        ⟨token, space, rest, last', hblank, rfl, htoken, htokens, hrest⟩ := ih h
      · exact .inl ⟨char :: space, hcons hblank, rfl, htokens⟩
      · exact .inr ⟨token, char :: space, rest, last', hcons hblank, rfl, htoken, htokens, hrest⟩
    · rw [if_neg hspace]
      by_cases hcomma : char = ','
      · rw [if_pos hcomma]
        exact .inr ⟨.comma, [], s, _, hnil, by rw [hcomma]; rfl, trivial, rfl, h⟩
      · rw [if_neg hcomma]
        obtain ⟨w, rest, last', rfl, htokens, hrest⟩ := word_of_scan h (List.cons_ne_nil char [])
        exact .inr ⟨.word (char :: w), [], rest, last', hnil, rfl, trivial, htokens, hrest⟩

theorem ArgumentToken.IsScanned.isLiteral {token : ArgumentToken} (h : token.IsScanned)
    (hliteral : token.isLiteral = true) : IsLiteral token.text := by
  cases token with
  | word w => exact .word hliteral
  | quoted q t => exact .quoted h.1 h.2.1 hliteral h.2.2
  | comma => exact nomatch hliteral

/-- By induction on the text: a token and the comma behind it make it shorter. -/
theorem areLiterals_of_alternate {last : Option Char} {s remainder : List Char}
    (h : scanLiterals none last s = some remainder)
    (halternate : alternate (argumentTokens none [] s) = true) :
    ∃ args, AreLiterals args ∧ s = args ++ ')' :: remainder := by
  induction hs : s.length using Nat.strong_induction_on generalizing s last with
  | _ n ih =>
    subst hs
    obtain ⟨space, hspace, rfl, -⟩ |
      ⟨token, before, rest, last', hbefore, rfl, htoken, htokens, hrest⟩ := token_of_scan h
    · exact ⟨space, .blank hspace, rfl⟩
    rw [htokens] at halternate
    obtain ⟨after, hafter, rfl, hnone⟩ |
      ⟨token', after, rest', last'', hafter, rfl, htoken', htokens', hrest'⟩ :=
      token_of_scan hrest
    · -- the last argument
      rw [hnone] at halternate
      refine ⟨before ++ (token.text ++ after),
        .last hbefore (htoken.isLiteral halternate) hafter, ?_⟩
      simp only [List.append_assoc]
    · rw [htokens'] at halternate
      cases token' with
      | word w => cases token <;> exact nomatch halternate
      | quoted q t => cases token <;> exact nomatch halternate
      | comma =>
        have halternate : (token.isLiteral && alternate (argumentTokens none [] rest')) = true := by
          cases token <;> exact halternate
        rw [Bool.and_eq_true] at halternate
        obtain ⟨args, hargs, rfl⟩ := ih rest'.length
          (by simp only [List.length_append, ArgumentToken.text, List.length_cons]; omega)
          hrest' halternate.2 rfl
        refine ⟨before ++ (token.text ++ (after ++ ',' :: args)),
          .cons hbefore (htoken.isLiteral halternate.1) hafter hargs, ?_⟩
        simp only [List.append_assoc, List.cons_append, ArgumentToken.text, List.nil_append]

/-! ### From literals to tokens -/

theorem argumentTokens_blank {space : List Char} (h : IsBlank space) (rest : List Char) :
    argumentTokens none [] (space ++ rest) = argumentTokens none [] rest := by
  induction space with
  | nil => rfl
  | cons char space ih =>
    obtain ⟨hchar, hspace⟩ := List.forall_mem_cons.mp h
    have hquote : ¬ isQuote char = true := fun hquote => by
      simp only [isQuote, Bool.or_eq_true, decide_eq_true_eq] at hquote
      obtain (rfl | rfl) | rfl := hquote <;> exact absurd hchar (by decide)
    have hclose : char ≠ ')' := by
      rintro rfl
      exact absurd hchar (by decide)
    have hcomma : char ≠ ',' := by
      rintro rfl
      exact absurd hchar (by decide)
    rw [List.cons_append, argumentTokens.eq_def]
    dsimp only
    rw [if_neg hquote, if_neg hclose, if_neg hcomma, if_pos hchar, ih hspace]
    rfl

theorem isDelimiter_of_isWordChar {c : Char} (h : isWordChar c = true) :
    isDelimiter c = false := by
  have hascii : ∀ n < 128, isWordChar (Char.ofNat n) = true →
      isDelimiter (Char.ofNat n) = false := by decide
  have hlt : c.toNat < 128 := by
    simp only [isWordChar, Char.isAlphanum, Char.isAlpha, Char.isUpper, Char.isLower, Char.isDigit,
      Bool.or_eq_true, Bool.and_eq_true, decide_eq_true_eq, UInt32.le_iff_toNat_le,
      Char.toNat_val] at h
    obtain (((((h | h) | h) | rfl) | rfl) | rfl) := h
    · exact Nat.lt_of_le_of_lt h.2 (by decide)
    · exact Nat.lt_of_le_of_lt h.2 (by decide)
    · exact Nat.lt_of_le_of_lt h.2 (by decide)
    all_goals decide
  rw [← Char.ofNat_toNat c] at h ⊢
  exact hascii _ hlt h

theorem argumentTokens_word {w : List Char} (h : w.all isWordChar = true)
    (current rest : List Char) :
    argumentTokens none current (w ++ rest) = argumentTokens none (current ++ w) rest := by
  induction w generalizing current with
  | nil => rw [List.append_nil, List.nil_append]
  | cons c w ih =>
    rw [List.all_cons, Bool.and_eq_true] at h
    rw [List.cons_append, argumentTokens_of_not_delimiter (isDelimiter_of_isWordChar h.1), ih h.2,
      List.append_assoc]
    rfl

theorem argumentTokens_quoted {q : Char} {text : List Char} (h : staysQuoted q text = true)
    (hq : isQuote q = true) (current rest : List Char) :
    argumentTokens (some q) current (text ++ q :: rest) =
      .quoted q (current ++ text) :: argumentTokens none [] rest := by
  fun_induction staysQuoted q text generalizing current with
  | case1 =>
    have hbackslash : q ≠ '\\' := by
      rintro rfl
      exact absurd hq (by decide)
    rw [List.nil_append, argumentTokens.eq_def]
    dsimp only
    rw [if_neg hbackslash, if_pos rfl, List.append_nil]
  | case2 => exact nomatch h
  | case3 next text ih =>
    rw [List.cons_append, List.cons_append, argumentTokens.eq_def]
    dsimp only
    rw [if_pos rfl, ih h, List.append_assoc]
    rfl
  | case4 c text hlast hbackslash ih =>
    rw [Bool.and_eq_true, decide_eq_true_eq] at h
    have hc : c ≠ '\\' := by
      rintro rfl
      cases text with
      | nil => exact hlast rfl rfl
      | cons next text => exact hbackslash next text rfl rfl
    rw [List.cons_append, argumentTokens.eq_def]
    dsimp only
    rw [if_neg hc, if_neg h.1, ih h.2, List.append_assoc]
    rfl

/-- A literal is one token, whatever delimiter follows it. -/
theorem argumentTokens_literal {literal : List Char} (h : IsLiteral literal) :
    ∃ token : ArgumentToken, token.isLiteral = true ∧ ∀ c rest, isDelimiter c = true →
      argumentTokens none [] (literal ++ c :: rest) =
        token :: argumentTokens none [] (c :: rest) := by
  cases h with
  | word h =>
    have hword := h
    simp only [isWordLiteral, Bool.and_eq_true, decide_eq_true_eq] at hword
    refine ⟨.word literal, h, fun c rest hc => ?_⟩
    rw [argumentTokens_word hword.1.2, List.nil_append, argumentTokens_delimiter hc, wordToken,
      if_neg hword.1.1]
    rfl
  | @quoted q text hquote hstays hescapes hinterpolation =>
    refine ⟨.quoted q text, hescapes, fun c rest _ => ?_⟩
    rw [List.cons_append, List.append_assoc, argumentTokens.eq_def]
    dsimp only
    rw [if_pos hquote, List.singleton_append, argumentTokens_quoted hstays hquote]
    rfl

/-- The same with space around it, and a comma or the closing parenthesis behind it. -/
theorem argumentTokens_argument {before literal after : List Char} (hbefore : IsBlank before)
    (h : IsLiteral literal) (hafter : IsBlank after) : ∃ token : ArgumentToken,
      token.isLiteral = true ∧ ∀ c rest, c = ',' ∨ c = ')' →
        argumentTokens none [] (before ++ (literal ++ (after ++ c :: rest))) =
          token :: argumentTokens none [] (c :: rest) := by
  obtain ⟨token, hliteral, htokens⟩ := argumentTokens_literal h
  refine ⟨token, hliteral, fun c rest hc => ?_⟩
  have hc : isDelimiter c = true := by
    obtain rfl | rfl := hc <;> decide
  rw [argumentTokens_blank hbefore]
  cases after with
  | nil => exact htokens c rest hc
  | cons d after =>
    have hd : isDelimiter d = true := by
      rw [isDelimiter, hafter d List.mem_cons_self, Bool.or_true]
    rw [List.cons_append, htokens d _ hd, ← List.cons_append, argumentTokens_blank hafter]

theorem alternate_of_areLiterals {args : List Char} (h : AreLiterals args) (rest : List Char) :
    alternate (argumentTokens none [] (args ++ ')' :: rest)) = true := by
  induction h with
  | blank h =>
    rw [argumentTokens_blank h]
    rfl
  | last hbefore h hafter =>
    obtain ⟨token, hliteral, htokens⟩ := argumentTokens_argument hbefore h hafter
    rw [List.append_assoc, List.append_assoc, htokens ')' rest (.inr rfl)]
    exact hliteral
  | @cons before literal after args hbefore h hafter hrest ih =>
    obtain ⟨token, hliteral, htokens⟩ := argumentTokens_argument hbefore h hafter
    simp only [List.append_assoc, List.cons_append]
    rw [htokens ',' _ (.inl rfl)]
    have hcomma : argumentTokens none [] (',' :: (args ++ ')' :: rest)) =
        .comma :: argumentTokens none [] (args ++ ')' :: rest) := rfl
    have hstep : alternate (token :: .comma :: argumentTokens none [] (args ++ ')' :: rest)) =
        (token.isLiteral && alternate (argumentTokens none [] (args ++ ')' :: rest))) := by
      cases token <;> rfl
    rw [hcomma, hstep, hliteral, ih]
    rfl

/-! ### Soundness -/

theorem openCall?_eq_some_iff {str rest : List Char} : openCall? str = some rest ↔
    ∃ name space, lower name = "fromai".toList ∧ IsBlank space ∧
      str = '$' :: (name ++ (space ++ '(' :: rest)) := by
  rw [openCall?]
  constructor
  · intro h
    split_ifs at h with hname
    split at h
    · next rest' hrest =>
      obtain rfl := Option.some.inj h
      cases str with
      | nil => exact absurd hname.1 nofun
      | cons c str =>
        obtain rfl := Option.some.inj hname.1
        refine ⟨str.take 6, (str.drop 6).takeWhile isWhiteSpace, hname.2,
          fun c hc => List.mem_takeWhile_imp hc, ?_⟩
        rw [List.tail_cons] at hrest
        rw [← hrest, List.takeWhile_append_dropWhile, List.take_append_drop]
    · exact nomatch h
  · rintro ⟨name, space, hname, hspace, rfl⟩
    have hlength : name.length = 6 := (List.length_map _).symm.trans (congrArg List.length hname)
    rw [List.tail_cons, ← hlength, List.take_left, List.drop_left, if_pos ⟨rfl, hname⟩,
      List.dropWhile_append_of_pos hspace]
    rfl

theorem isBlank_of_trim {s : List Char} (h : trim s = []) : IsBlank s := by
  have hdrop : s.dropWhile isWhiteSpace = [] := by
    cases hs : s.dropWhile isWhiteSpace with
    | nil => rfl
    | cons c rest =>
      have hc : isWhiteSpace c = true :=
        List.rdropWhile_eq_nil_iff.mp h c (hs ▸ List.mem_cons_self)
      have hnot := List.head_dropWhile_not isWhiteSpace (l := s) (hs ▸ List.cons_ne_nil c rest)
      simp only [hs, List.head_cons, hc] at hnot
      exact absurd hnot.symm Bool.false_ne_true
  exact List.dropWhile_eq_nil_iff.mp hdrop

/-- What stands behind the parenthesis that opens the call. -/
def callText (expr : List Char) : List Char := (openCall? (expressionBody expr)).getD []

theorem alternate_of_isLiteralCall {expr : List Char} (h : IsLiteralCall (expressionBody expr)) :
    alternate (argumentTokens none [] (callText expr)) = true := by
  obtain ⟨name, space, args, after, hname, hspace, hargs, -, hbody⟩ := h
  rw [callText, openCall?_eq_some_iff.mpr ⟨name, space, hname, hspace, hbody⟩]
  exact alternate_of_areLiterals hargs after

/-- **Which accepted expressions are calls with literals**: those whose tokens are literals with
single commas between them. -/
theorem isLiteralCall_iff {expr : List Char} (h : isFromAIOnlyExpression expr = true) :
    IsLiteralCall (expressionBody expr) ↔
      alternate (argumentTokens none [] (callText expr)) = true := by
  refine ⟨alternate_of_isLiteralCall, fun halternate => ?_⟩
  rw [isFromAIOnlyExpression] at h
  rw [callText] at halternate
  split at h
  · exact nomatch h
  · next rest hopen =>
    split at h
    · exact nomatch h
    · next remainder hscan =>
      rw [hopen, Option.getD_some] at halternate
      obtain ⟨name, space, hname, hspace, hbody⟩ := openCall?_eq_some_iff.mp hopen
      obtain ⟨args, hargs, rfl⟩ := areLiterals_of_alternate hscan halternate
      exact ⟨name, space, args, remainder, hname, hspace, hargs,
        isBlank_of_trim (of_decide_eq_true h), hbody⟩

/-- A quoted key and a number are accepted, and are literals. -/
theorem isLiteralCall_keyNumber :
    IsLiteralCall (expressionBody "=\x7b\x7b $fromAI('key', 2) \x7d\x7d".toList) ↔
      alternate (argumentTokens none []
        (callText "=\x7b\x7b $fromAI('key', 2) \x7d\x7d".toList)) = true := by
  have hbody : expressionBody "=\x7b\x7b $fromAI('key', 2) \x7d\x7d".toList =
      "$fromAI('key', 2)".toList := by decide +kernel
  have hcall : openCall? "$fromAI('key', 2)".toList = some "'key', 2)".toList := by
    decide +kernel
  have hscan : scanLiterals none none "'key', 2)".toList = some [] := by decide +kernel
  refine isLiteralCall_iff ?_
  rw [isFromAIOnlyExpression, hbody, hcall]
  dsimp only
  rw [hscan]
  rfl

/-- A member of a value is accepted as an argument. -/
theorem accepts_member : isFromAIOnlyExpression "=\x7b\x7b $fromAI(a.b) \x7d\x7d".toList = true ∧
    ¬ IsLiteralCall (expressionBody "=\x7b\x7b $fromAI(a.b) \x7d\x7d".toList) := by
  have hbody : expressionBody "=\x7b\x7b $fromAI(a.b) \x7d\x7d".toList =
      "$fromAI(a.b)".toList := by decide
  have hcall : openCall? "$fromAI(a.b)".toList = some "a.b)".toList := by decide
  have hscan : scanLiterals none none "a.b)".toList = some [] := by decide
  constructor
  · rw [isFromAIOnlyExpression, hbody, hcall]
    dsimp only
    rw [hscan]
    rfl
  · intro h
    have halternate := alternate_of_isLiteralCall h
    rw [callText, hbody, hcall] at halternate
    exact absurd halternate (by decide)

end FromAI

end N8n
