import N8n.Foundations.TextScanner
import Mathlib.Data.List.Infix

/-!
# String literals in generated code

The code generator writes a string as a literal between single quotes (`escapeString`). Before
`parseWorkflowCode` parses a program, it goes over its text: it unescapes what looks as if it had
been escaped twice, it escapes the quotes of node references in literals and the apostrophes of
words, and it puts backslashes before the variables of templates.

A literal that these scanners come to from outside of strings still denotes its string if and only
if the string does not end like the beginning of a node reference, and no lowercase letter stands
behind a literal that ends with a letter (`denotes_iff`).
-/

namespace N8n

namespace WorkflowSdk

/-! ### `string-utils.ts` -/

/-- `str.replace(/c/g, text)`. -/
def replaceAll (c : Char) (text : String) (str : List Char) : List Char :=
  str.flatMap fun d => if d = c then text.toList else [d]

def escapeString (str : List Char) : List Char :=
  str |> replaceAll '\\' "\\\\" |> replaceAll '\'' "\\'" |> replaceAll '\u2018' "\\u2018" |>
    replaceAll '\u2019' "\\u2019" |> replaceAll '\u201C' "\\u201C" |>
    replaceAll '\u201D' "\\u201D" |> replaceAll '\n' "\\n" |> replaceAll '\r' "\\r"

def literal (str : List Char) : List Char := '\'' :: (escapeString str ++ ['\''])

/-! ### Reading strings -/

/-- What belongs to a string behind its opening quote, with the closing quote, and the rest. -/
def skipQuoted (quote : Char) : List Char → List Char × List Char
  | [] => ([], [])
  | [c] => ([c], [])
  | c :: d :: rest =>
    if c = quote then ([c], d :: rest)
    else if c = '\\' then ((skipQuoted quote rest).map ([c, d] ++ ·) id)
    else (skipQuoted quote (d :: rest)).map (c :: ·) id

/-- The same for a template literal, with its substitutions. With `nested`, an escaped backtick
begins and ends a template in the template, whose substitutions are escaped; `inNested` says that
one has begun. -/
def readTemplate (nested inNested : Bool) (depth : ℕ) : List Char → List Char × List Char
  | [] => ([], [])
  | [c] => ([c], [])
  | c :: d :: rest =>
    if c = '\\' then
      (readTemplate nested (inNested ^^ (nested && d == '\x60')) depth rest).map ([c, d] ++ ·) id
    else if c = '$' ∧ d = '\x7b' then
      if inNested ∧ depth = 0 then
        (readTemplate nested inNested depth rest).map (['\\', c, d] ++ ·) id
      else (readTemplate nested inNested (depth + 1) rest).map ([c, d] ++ ·) id
    else if c = '\x7d' ∧ 0 < depth then
      (readTemplate nested inNested (depth - 1) (d :: rest)).map (c :: ·) id
    else if c = '\x60' ∧ depth = 0 then ([c], d :: rest)
    else (readTemplate nested inNested depth (d :: rest)).map (c :: ·) id

theorem length_skipQuoted (quote : Char) (text : List Char) :
    (skipQuoted quote text).2.length ≤ text.length := by
  fun_induction skipQuoted quote text with
  | case1 => exact le_rfl
  | case2 c => exact Nat.zero_le _
  | case3 => exact Nat.le_succ _
  | case4 _ _ _ ih => exact ih.trans (Nat.le_add_right _ 2)
  | case5 _ _ _ _ _ ih => exact ih.trans (Nat.le_succ _)

theorem length_readTemplate (nested inNested : Bool) (depth : ℕ) (text : List Char) :
    (readTemplate nested inNested depth text).2.length ≤ text.length := by
  fun_induction readTemplate nested inNested depth text with
  | case1 => exact le_rfl
  | case2 => exact Nat.zero_le _
  | case7 => exact Nat.le_succ _
  | case3 _ _ _ _ ih | case4 _ _ _ _ _ _ _ _ ih | case5 _ _ _ _ _ _ _ _ ih =>
    exact ih.trans (Nat.le_add_right _ 2)
  | case6 _ _ _ _ _ _ _ _ ih | case8 _ _ _ _ _ _ _ _ _ ih => exact ih.trans (Nat.le_succ _)

/-! ### `unescapeJsonEscapeSequences` -/

/-- The loops over the code pass strings on. -/
def copyString (c : Char) (rest : List Char) : Option (List Char × List Char) :=
  if c = '"' ∨ c = '\'' then some ((skipQuoted c rest).map (c :: ·) id)
  else if c = '\x60' then some ((readTemplate false false 0 rest).map (c :: ·) id)
  else none

theorem length_copyString {c : Char} {rest : List Char} {read : List Char × List Char}
    (h : copyString c rest = some read) : read.2.length ≤ rest.length := by
  rw [copyString] at h
  split_ifs at h
  · rw [← Option.some.inj h]
    exact length_skipQuoted c rest
  · rw [← Option.some.inj h]
    exact length_readTemplate false false 0 rest

def stringSkipper : TextScanner Char where
  round c rest := (copyString c rest).getD ([c], rest)
  length_round c rest := by
    cases h : copyString c rest with
    | none => exact le_rfl
    | some read => exact length_copyString h

def hasLiteralBackslashNOutsideStrings (code : List Char) : Bool :=
  (stringSkipper.places code).any fun text => ['\\', 'n'].isPrefixOf text

/-- An escape sequence outside of strings. -/
def unescapeSequence (c : Char) (rest : List Char) : List Char × List Char :=
  if c = '\\' then
    match rest with
    | 'n' :: rest => (['\n'], rest)
    | 'r' :: rest => (['\r'], rest)
    | 't' :: rest => (['\t'], rest)
    | '\\' :: rest => (['\\'], rest)
    | '"' :: rest => (['"'], rest)
    | rest => ([c], rest)
  else ([c], rest)

theorem length_unescapeSequence (c : Char) (rest : List Char) :
    (unescapeSequence c rest).2.length ≤ rest.length := by
  unfold unescapeSequence
  split_ifs
  · split <;> simp
  · exact le_rfl

def unescapeOutsideStrings : TextScanner Char where
  round c rest := (copyString c rest).getD (unescapeSequence c rest)
  length_round c rest := by
    cases h : copyString c rest with
    | none => exact length_unescapeSequence c rest
    | some read => exact length_copyString h

def unescapeJsonEscapeSequences (code : List Char) : List Char :=
  if '\n' ∈ code ∧ !hasLiteralBackslashNOutsideStrings code then code
  else if !hasLiteralBackslashNOutsideStrings code then code
  else unescapeOutsideStrings.run code

/-! ### `escapeNodeReferencesInSingleQuotedStrings` -/

/-- The rest of a node reference `$('…')`, with its closing quote escaped. With `escaped`, the
quotes of the reference have two backslashes, and one is left of the closing quote's. -/
def readReference (escaped : Bool) : List Char → List Char × List Char
  | [] => ([], [])
  | [c] => ([c], [])
  | c :: d :: rest =>
    if escaped ∧ c = '\\' ∧ d = '\\' ∧ ['\'', ')'] <+: rest then (['\\', '\'', ')'], rest.drop 2)
    else if c = '\\' then (readReference escaped rest).map ([c, d] ++ ·) id
    else if !escaped ∧ c = '\'' ∧ d = ')' then (['\\', '\'', ')'], rest)
    else (readReference escaped (d :: rest)).map (c :: ·) id

theorem length_readReference (escaped : Bool) (text : List Char) :
    (readReference escaped text).2.length ≤ text.length := by
  fun_induction readReference escaped text with
  | case1 => exact le_rfl
  | case2 => exact Nat.zero_le _
  | case3 _ _ rest h =>
    rw [List.length_drop]
    exact (Nat.sub_le _ _).trans (Nat.le_add_right _ 2)
  | case4 _ _ _ ih => exact ih.trans (Nat.le_add_right _ 2)
  | case5 => exact Nat.le_add_right _ 2
  | case6 _ _ _ _ _ _ ih => exact ih.trans (Nat.le_succ _)

/-- A quote between a letter and a lowercase letter is taken for the apostrophe of a word. -/
def isContraction (result rest : List Char) : Bool :=
  result.getLast?.any Char.isAlpha && rest.head?.any Char.isLower

/-- `result` is what is read behind the opening quote. -/
def readAndFixSingleQuotedString (result : List Char) : List Char → List Char × List Char
  | [] => (result, [])
  | c :: rest =>
    if c = '\\' ∧ rest ≠ [] then
      readAndFixSingleQuotedString (result ++ c :: rest.take 1) (rest.drop 1)
    else if c = '$' ∧ ['(', '\\', '\\', '\''] <+: rest then
      readAndFixSingleQuotedString
        (result ++ (['$', '(', '\\', '\''] ++ (readReference true (rest.drop 4)).1))
        (readReference true (rest.drop 4)).2
    else if c = '$' ∧ ['(', '\''] <+: rest then
      readAndFixSingleQuotedString
        (result ++ (['$', '(', '\\', '\''] ++ (readReference false (rest.drop 2)).1))
        (readReference false (rest.drop 2)).2
    else if c = '\'' then
      if isContraction result rest then readAndFixSingleQuotedString (result ++ ['\\', '\'']) rest
      else (result ++ ['\''], rest)
    else readAndFixSingleQuotedString (result ++ [c]) rest
termination_by text => text.length
decreasing_by
  · simp only [List.length_drop, List.length_cons]
    omega
  · have := length_readReference true (rest.drop 4)
    simp only [List.length_drop, List.length_cons] at *
    omega
  · have := length_readReference false (rest.drop 2)
    simp only [List.length_drop, List.length_cons] at *
    omega
  · exact Nat.lt_succ_self _
  · exact Nat.lt_succ_self _

theorem length_readAndFixSingleQuotedString (result text : List Char) :
    (readAndFixSingleQuotedString result text).2.length ≤ text.length := by
  fun_induction readAndFixSingleQuotedString result text with
  | case1 => exact le_rfl
  | case2 _ _ _ _ ih =>
    rw [List.length_drop] at ih
    exact ih.trans ((Nat.sub_le _ _).trans (Nat.le_succ _))
  | case3 _ _ rest _ _ ih =>
    have hread := length_readReference true (rest.drop 4)
    rw [List.length_drop] at hread
    rw [List.length_cons]
    omega
  | case4 _ _ rest _ _ _ ih =>
    have hread := length_readReference false (rest.drop 2)
    rw [List.length_drop] at hread
    rw [List.length_cons]
    omega
  | case6 => exact Nat.le_succ _
  | case5 _ _ _ _ _ _ ih | case7 _ _ _ _ _ _ _ ih => exact ih.trans (Nat.le_succ _)

def escapeNodeReferencesInSingleQuotedStrings : TextScanner Char where
  round c rest :=
    if c = '"' then (skipQuoted c rest).map (c :: ·) id
    else if c = '\x60' then (readTemplate true false 0 rest).map (c :: ·) id
    else if c = '\'' then (readAndFixSingleQuotedString [] rest).map (c :: ·) id
    else ([c], rest)
  length_round c rest := by
    split_ifs
    · exact length_skipQuoted c rest
    · exact length_readTemplate true false 0 rest
    · exact length_readAndFixSingleQuotedString [] rest
    · exact le_rfl

/-! ### `escapeN8nVariablesInTemplateLiterals` -/

def n8nRuntimeVariables : List String :=
  ["$today", "$now", "$json", "$input", "$binary", "$execution", "$workflow", "$vars", "$node",
    "$item", "$position", "$runIndex", "$prevNode", "$env", "$itemIndex", "$parameter", "$jmespath",
    "$if", "$min", "$max"]

/-- What the backslashes are put before: the variables, the references, and two braces. -/
def templatePatterns : List (List Char) :=
  (n8nRuntimeVariables.map String.toList ++ [['$', '('], ['\x7b']]).map (['$', '\x7b'] ++ ·)

/-- `code.replace(/(?<!\\)pattern/g, '\\pattern')`, behind the character `before`. No two places of
a pattern overlap, as it has `$` and the opening brace at its beginning only. -/
def escapePattern (pattern : List Char) (before : Option Char) : List Char → List Char
  | [] => []
  | c :: rest =>
    if before ≠ some '\\' ∧ pattern <+: c :: rest then
      '\\' :: c :: escapePattern pattern (some c) rest
    else c :: escapePattern pattern (some c) rest

/-- One pattern after the other. -/
def escapePatterns (patterns : List (List Char)) (before : Option Char) (code : List Char) :
    List Char :=
  patterns.foldl (fun result pattern => escapePattern pattern before result) code

def escapeN8nVariablesInTemplateLiterals (code : List Char) : List Char :=
  escapePatterns templatePatterns none code

def escapeN8nVariables (code : List Char) : List Char :=
  escapeN8nVariablesInTemplateLiterals (escapeNodeReferencesInSingleQuotedStrings.run code)

/-- The text that `parseWorkflowCode` gives to the parser. -/
def executableCode (code : List Char) : List Char :=
  escapeN8nVariables (unescapeJsonEscapeSequences code)

/-! ### What a literal denotes -/

/-- The character of an escape sequence of one character. -/
def escapeValue : Char → Char
  | 'n' => '\n'
  | 'r' => '\r'
  | 't' => '\t'
  | 'b' => '\x08'
  | 'v' => '\x0b'
  | 'f' => '\x0c'
  | c => c

def isHexDigit (c : Char) : Bool := c ∈ "0123456789abcdefABCDEF".toList

def hexDigitValue (c : Char) : ℕ := if c.isDigit then c.toNat - 48 else c.toUpper.toNat - 55

def hexValue (digits : List Char) : ℕ := digits.foldl (fun n c => 16 * n + hexDigitValue c) 0

/-- How many digits a code has behind this letter, if it is one before a code. -/
def codeLength (letter : Char) : ℕ := if letter = 'x' then 2 else if letter = 'u' then 4 else 0

/-- How a character is written in a string literal between single quotes. -/
inductive Spelling : List Char → Char → Prop
  | plain {c : Char} (h : c ∉ ['\'', '\\', '\n', '\r']) : Spelling [c] c
  | escape {c : Char} (h : c ∉ ['\n', '\r', '\u2028', '\u2029']) (hdigit : ¬c.isDigit)
      (hcode : codeLength c = 0) : Spelling ['\\', c] (escapeValue c)
  | code {letter : Char} {digits : List Char} (hcode : 0 < codeLength letter)
      (hlength : digits.length = codeLength letter)
      (hdigits : digits.all isHexDigit)
      (hvalid : (hexValue digits).isValidChar) :
      Spelling ('\\' :: letter :: digits) (Char.ofNat (hexValue digits))

inductive Spells : List Char → List Char → Prop
  | nil : Spells [] []
  | cons {piece text str : List Char} {c : Char} (hpiece : Spelling piece c)
      (htext : Spells text str) : Spells (piece ++ text) (c :: str)

/-- Behind `before`, the code has a literal that denotes the string. -/
def Denotes (code before str : List Char) : Prop :=
  ∃ body rest, code = before ++ '\'' :: (body ++ '\'' :: rest) ∧ Spells body str

/-! ### Spellings -/

section Spells

variable {piece piece' text text' str str' t t' : List Char} {c c' : Char}

theorem Spelling.eq_of_append_eq (h : Spelling piece c) (h' : Spelling piece' c')
    (heq : piece ++ t = piece' ++ t') : piece = piece' ∧ c = c' ∧ t = t' := by
  cases h with
  | plain hc =>
    cases h' with
    | plain =>
      obtain ⟨rfl, rfl⟩ := List.cons.inj heq
      exact ⟨rfl, rfl, rfl⟩
    | escape => exact absurd ((List.cons.inj heq).1 ▸ hc) (by decide)
    | code => exact absurd ((List.cons.inj heq).1 ▸ hc) (by decide)
  | escape _ _ hcode =>
    cases h' with
    | plain hc' => exact absurd ((List.cons.inj heq).1.symm ▸ hc') (by decide)
    | escape =>
      obtain ⟨-, hrest⟩ := List.cons.inj heq
      obtain ⟨rfl, rfl⟩ := List.cons.inj hrest
      exact ⟨rfl, rfl, rfl⟩
    | code hletter =>
      obtain ⟨rfl, -⟩ := List.cons.inj (List.cons.inj heq).2
      exact absurd hcode hletter.ne'
  | code hletter hlength =>
    cases h' with
    | plain hc' => exact absurd ((List.cons.inj heq).1.symm ▸ hc') (by decide)
    | escape _ _ hcode =>
      obtain ⟨rfl, -⟩ := List.cons.inj (List.cons.inj heq).2
      exact absurd hcode hletter.ne'
    | code _ hlength' =>
      obtain ⟨rfl, hrest⟩ := List.cons.inj (List.cons.inj heq).2
      obtain ⟨rfl, rfl⟩ := List.append_inj hrest (hlength.trans hlength'.symm)
      exact ⟨rfl, rfl, rfl⟩

theorem Spelling.ne_quote_cons (h : Spelling piece c) : piece ++ t ≠ '\'' :: t' := by
  intro heq
  cases h with
  | plain hc => exact absurd ((List.cons.inj heq).1 ▸ hc) (by decide)
  | escape => exact absurd (List.cons.inj heq).1 (by decide)
  | code => exact absurd (List.cons.inj heq).1 (by decide)

/-- A literal that begins like a text denotes a string that begins like what the text spells. -/
theorem Spells.prefix_of_append_eq (h : Spells text str) (h' : Spells text' str')
    (heq : text' ++ '\'' :: t = text ++ t') : str <+: str' := by
  induction h generalizing text' str' with
  | nil => exact List.nil_prefix
  | cons hpiece _ ih =>
    rw [List.append_assoc] at heq
    cases h' with
    | nil => exact absurd heq.symm hpiece.ne_quote_cons
    | cons hpiece' htext' =>
      rw [List.append_assoc] at heq
      obtain ⟨-, rfl, hrest⟩ := hpiece'.eq_of_append_eq hpiece heq
      exact List.cons_prefix_cons.mpr ⟨rfl, ih htext' hrest⟩

end Spells

/-! ### Escaped strings -/

/-- The characters that `escapeString` replaces. -/
def escapedChars : List Char :=
  ['\\', '\'', '\u2018', '\u2019', '\u201C', '\u201D', '\n', '\r']

theorem replaceAll_append (c : Char) (text : String) (s t : List Char) :
    replaceAll c text (s ++ t) = replaceAll c text s ++ replaceAll c text t :=
  List.flatMap_append

theorem escapeString_append (s t : List Char) :
    escapeString (s ++ t) = escapeString s ++ escapeString t := by
  simp only [escapeString, replaceAll_append]

theorem escapeString_cons (c : Char) (s : List Char) :
    escapeString (c :: s) = escapeString [c] ++ escapeString s :=
  escapeString_append [c] s

theorem escapeString_singleton {c : Char} (hc : c ∉ escapedChars) : escapeString [c] = [c] := by
  simp only [escapedChars, List.mem_cons, List.not_mem_nil, or_false, not_or] at hc
  obtain ⟨h₁, h₂, h₃, h₄, h₅, h₆, h₇, h₈⟩ := hc
  simp only [escapeString, replaceAll, List.flatMap_cons, List.flatMap_nil, List.append_nil,
    if_neg h₁, if_neg h₂, if_neg h₃, if_neg h₄, if_neg h₅, if_neg h₆, if_neg h₇, if_neg h₈]

/-- Each character of a string becomes itself, a backslash with one character, or a backslash with a
code. -/
theorem escapeString_singleton_cases (c : Char) :
    (c ∉ ['\\', '\'', '\n', '\r'] ∧ escapeString [c] = [c]) ∨
      (∃ d, escapeString [c] = ['\\', d] ∧ (d = '\\' → c = '\\')) ∨
      ∃ digits, escapeString [c] = '\\' :: 'u' :: digits ∧
        ∀ d ∈ digits, d ∉ ['\\', '\'', '$'] := by
  by_cases hc : c ∈ escapedChars
  · simp only [escapedChars, List.mem_cons, List.not_mem_nil, or_false] at hc
    rcases hc with rfl | rfl | rfl | rfl | rfl | rfl | rfl | rfl
    · exact Or.inr (Or.inl ⟨'\\', by decide, by decide⟩)
    · exact Or.inr (Or.inl ⟨'\'', by decide, by decide⟩)
    · exact Or.inr (Or.inr ⟨['2', '0', '1', '8'], by decide, by simp⟩)
    · exact Or.inr (Or.inr ⟨['2', '0', '1', '9'], by decide, by simp⟩)
    · exact Or.inr (Or.inr ⟨['2', '0', '1', 'C'], by decide, by simp⟩)
    · exact Or.inr (Or.inr ⟨['2', '0', '1', 'D'], by decide, by simp⟩)
    · exact Or.inr (Or.inl ⟨'n', by decide, by decide⟩)
    · exact Or.inr (Or.inl ⟨'r', by decide, by decide⟩)
  · refine Or.inl ⟨fun h => hc ?_, escapeString_singleton hc⟩
    simp only [List.mem_cons, List.not_mem_nil, or_false] at h
    rcases h with rfl | rfl | rfl | rfl
    all_goals decide

theorem spelling_escapeString (c : Char) : Spelling (escapeString [c]) c := by
  by_cases hc : c ∈ escapedChars
  · simp only [escapedChars, List.mem_cons, List.not_mem_nil, or_false] at hc
    rcases hc with rfl | rfl | rfl | rfl | rfl | rfl | rfl | rfl
    · exact .escape (c := '\\') (by decide) (by decide) (by decide)
    · exact .escape (c := '\'') (by decide) (by decide) (by decide)
    · exact .code (by decide) rfl (by decide) (by decide)
    · exact .code (by decide) rfl (by decide) (by decide)
    · exact .code (by decide) rfl (by decide) (by decide)
    · exact .code (by decide) rfl (by decide) (by decide)
    · exact .escape (c := 'n') (by decide) (by decide) (by decide)
    · exact .escape (c := 'r') (by decide) (by decide) (by decide)
  · rw [escapeString_singleton hc]
    refine .plain fun h => hc ?_
    simp only [List.mem_cons, List.not_mem_nil, or_false] at h
    rcases h with rfl | rfl | rfl | rfl
    all_goals decide

theorem spells_escapeString (str : List Char) : Spells (escapeString str) str := by
  induction str with
  | nil => exact .nil
  | cons c str ih =>
    rw [escapeString_cons]
    exact .cons (spelling_escapeString c) ih

/-! ### The literal in the scanners -/

section Scanners

variable {quote c d : Char} {s t q out rest : List Char}

theorem skipQuoted_cons (hquote : c ≠ quote) (hbackslash : c ≠ '\\') (t : List Char) :
    skipQuoted quote (c :: t) = (skipQuoted quote t).map (c :: ·) id := by
  cases t with
  | nil => rfl
  | cons d t => rw [skipQuoted, if_neg hquote, if_neg hbackslash]

theorem skipQuoted_append (h : ∀ c ∈ s, c ≠ quote ∧ c ≠ '\\')
    (ht : skipQuoted quote t = (out, rest)) : skipQuoted quote (s ++ t) = (s ++ out, rest) := by
  induction s with
  | nil => exact ht
  | cons c s ih =>
    obtain ⟨hc, hs⟩ := List.forall_mem_cons.mp h
    rw [List.cons_append, skipQuoted_cons hc.1 hc.2, ih hs]
    rfl

theorem skipQuoted_pair (hquote : '\\' ≠ quote) (ht : skipQuoted quote t = (out, rest)) (d : Char) :
    skipQuoted quote ('\\' :: d :: t) = ('\\' :: d :: out, rest) := by
  rw [skipQuoted, if_neg hquote, if_pos rfl, ht]
  rfl

theorem skipQuoted_escapeString (s q : List Char) :
    skipQuoted '\'' (escapeString s ++ '\'' :: q) = (escapeString s ++ ['\''], q) := by
  induction s with
  | nil =>
    cases q with
    | nil => rfl
    | cons c q => rfl
  | cons c s ih =>
    rw [escapeString_cons, List.append_assoc, List.append_assoc]
    rcases escapeString_singleton_cases c with
      ⟨hc, heq⟩ | ⟨d, heq, -⟩ | ⟨digits, heq, hdigits⟩
    · simp only [List.mem_cons, List.not_mem_nil, or_false, not_or] at hc
      rw [heq]
      exact skipQuoted_append (List.forall_mem_singleton.mpr ⟨hc.2.1, hc.1⟩) ih
    · simp only [heq, List.cons_append, List.nil_append]
      exact skipQuoted_pair (by decide) ih d
    · have hplain : ∀ d ∈ digits, d ≠ '\'' ∧ d ≠ '\\' := by
        intro d hd
        have hnot := hdigits d hd
        simp only [List.mem_cons, List.not_mem_nil, or_false, not_or] at hnot
        exact ⟨hnot.2.1, hnot.1⟩
      simp only [heq, List.cons_append]
      exact skipQuoted_pair (by decide) (skipQuoted_append hplain ih) 'u'

theorem readAndFix_pair (result t : List Char) (d : Char) :
    readAndFixSingleQuotedString result ('\\' :: d :: t) =
      readAndFixSingleQuotedString (result ++ ['\\', d]) t := by
  rw [readAndFixSingleQuotedString, if_pos ⟨rfl, List.cons_ne_nil d t⟩]
  rfl

/-- What stands behind the `$` of a node reference between single quotes. -/
def beginsReference (rest : List Char) : Prop :=
  ['(', '\\', '\\', '\''] <+: rest ∨ ['(', '\''] <+: rest

theorem readAndFix_plain (hbackslash : c ≠ '\\') (hquote : c ≠ '\'')
    (hreference : c = '$' → ¬beginsReference t) (result : List Char) :
    readAndFixSingleQuotedString result (c :: t) =
      readAndFixSingleQuotedString (result ++ [c]) t := by
  rw [readAndFixSingleQuotedString, if_neg fun h => hbackslash h.1,
    if_neg fun h => hreference h.1 (Or.inl h.2), if_neg fun h => hreference h.1 (Or.inr h.2),
    if_neg hquote]

theorem readAndFix_append (h : ∀ c ∈ s, c ∉ ['\\', '\'', '$']) (result t : List Char) :
    readAndFixSingleQuotedString result (s ++ t) =
      readAndFixSingleQuotedString (result ++ s) t := by
  induction s generalizing result with
  | nil => rw [List.append_nil, List.nil_append]
  | cons c s ih =>
    obtain ⟨hc, hs⟩ := List.forall_mem_cons.mp h
    simp only [List.mem_cons, List.not_mem_nil, or_false, not_or] at hc
    rw [List.cons_append, readAndFix_plain hc.1 hc.2.1 fun h => absurd h hc.2.2, ih hs,
      List.append_assoc, List.singleton_append]

theorem readAndFix_quote (result q : List Char) :
    readAndFixSingleQuotedString result ('\'' :: q) =
      if isContraction result q then readAndFixSingleQuotedString (result ++ ['\\', '\'']) q
      else (result ++ ['\''], q) := by
  rw [readAndFixSingleQuotedString, if_neg (by simp), if_neg (by simp), if_neg (by simp),
    if_pos rfl]

theorem prefix_readAndFix (result text : List Char) :
    result <+: (readAndFixSingleQuotedString result text).1 := by
  fun_induction readAndFixSingleQuotedString result text with
  | case1 => exact List.prefix_rfl
  | case6 => exact List.prefix_append _ _
  | case2 _ _ _ _ ih | case3 _ _ _ _ _ ih | case4 _ _ _ _ _ _ ih | case5 _ _ _ _ _ _ ih
  | case7 _ _ _ _ _ _ _ ih => exact (List.prefix_append _ _).trans ih

/-- An open parenthesis of an escaped string is one of the string. -/
theorem cons_prefix_escapeString (hc : c ∉ ['\\', '\''])
    (h : c :: t <+: escapeString s ++ '\'' :: q) :
    ∃ s', s = c :: s' ∧ t <+: escapeString s' ++ '\'' :: q := by
  simp only [List.mem_cons, List.not_mem_nil, or_false, not_or] at hc
  cases s with
  | nil => exact absurd (List.cons_prefix_cons.mp h).1 hc.2
  | cons d s =>
    rw [escapeString_cons, List.append_assoc] at h
    rcases escapeString_singleton_cases d with ⟨-, heq⟩ | ⟨x, heq, -⟩ | ⟨digits, heq, -⟩
    · rw [heq, List.singleton_append] at h
      obtain ⟨rfl, ht⟩ := List.cons_prefix_cons.mp h
      exact ⟨s, rfl, ht⟩
    · rw [heq] at h
      exact absurd (List.cons_prefix_cons.mp h).1 hc.1
    · rw [heq] at h
      exact absurd (List.cons_prefix_cons.mp h).1 hc.1

theorem backslash_prefix_escapeString (h : '\\' :: '\\' :: t <+: escapeString s ++ '\'' :: q) :
    ∃ s', s = '\\' :: s' ∧ t <+: escapeString s' ++ '\'' :: q := by
  cases s with
  | nil => exact absurd (List.cons_prefix_cons.mp h).1 (by decide)
  | cons d s =>
    rw [escapeString_cons, List.append_assoc] at h
    rcases escapeString_singleton_cases d with ⟨hd, heq⟩ | ⟨x, heq, hx⟩ | ⟨digits, heq, -⟩
    · rw [heq, List.singleton_append] at h
      obtain ⟨rfl, -⟩ := List.cons_prefix_cons.mp h
      exact absurd hd (by decide)
    · rw [heq, List.cons_append, List.cons_append, List.nil_append] at h
      obtain ⟨rfl, ht⟩ := List.cons_prefix_cons.mp (List.cons_prefix_cons.mp h).2
      exact ⟨s, by rw [hx rfl], ht⟩
    · rw [heq] at h
      exact absurd (List.cons_prefix_cons.mp (List.cons_prefix_cons.mp h).2).1 (by decide)

theorem quote_prefix_escapeString (h : ['\''] <+: escapeString s ++ '\'' :: q) : s = [] := by
  cases s with
  | nil => rfl
  | cons d s =>
    rw [escapeString_cons, List.append_assoc] at h
    obtain ⟨rest, heq⟩ := h
    exact absurd heq.symm (spelling_escapeString d).ne_quote_cons

/-- The literal's own quote is only taken for the one of a reference when the string ends there. -/
theorem eq_of_beginsReference (h : beginsReference (escapeString s ++ '\'' :: q)) :
    s = ['(', '\\'] ∨ s = ['('] := by
  rcases h with h | h
  · obtain ⟨s, rfl, hescaped⟩ := cons_prefix_escapeString (by decide) h
    obtain ⟨s, rfl, hquote⟩ := backslash_prefix_escapeString hescaped
    exact Or.inl (by rw [quote_prefix_escapeString hquote])
  · obtain ⟨s, rfl, hquote⟩ := cons_prefix_escapeString (by decide) h
    exact Or.inr (by rw [quote_prefix_escapeString hquote])

/-- An escaped string is read as it is, up to a place where a reference begins. -/
theorem readAndFix_escapeString
    (s₀ s₁ result : List Char)
    (h : ∀ a b, s₀ = a ++ '$' :: b → b ++ s₁ ≠ ['(', '\\'] ∧ b ++ s₁ ≠ ['(']) :
    readAndFixSingleQuotedString result (escapeString (s₀ ++ s₁) ++ '\'' :: q) =
      readAndFixSingleQuotedString (result ++ escapeString s₀) (escapeString s₁ ++ '\'' :: q) := by
  induction s₀ generalizing result with
  | nil => rw [show escapeString [] = [] from rfl, List.append_nil, List.nil_append]
  | cons c s ih =>
    have hrest (result : List Char) :=
      ih result fun a b heq => h (c :: a) b (congrArg (c :: ·) heq)
    rw [List.cons_append, escapeString_cons, escapeString_cons c s, List.append_assoc]
    rcases escapeString_singleton_cases c with ⟨hc, heq⟩ | ⟨d, heq, -⟩ | ⟨digits, heq, hdigits⟩
    · simp only [List.mem_cons, List.not_mem_nil, or_false, not_or] at hc
      have hreference : c = '$' → ¬beginsReference (escapeString (s ++ s₁) ++ '\'' :: q) := by
        rintro rfl hbegins
        obtain ⟨hne, hne'⟩ := h [] s rfl
        exact (eq_of_beginsReference hbegins).elim hne hne'
      rw [heq, List.singleton_append, readAndFix_plain hc.1 hc.2.1 hreference, hrest,
        List.append_assoc]
    · rw [heq, List.cons_append, List.cons_append, List.nil_append, readAndFix_pair, hrest,
        List.append_assoc]
    · rw [heq, List.cons_append, List.cons_append, readAndFix_pair,
        readAndFix_append hdigits, hrest]
      simp

end Scanners

/-! ### The condition -/

/-- The closing quote of the literal is taken for it: the string does not end like the beginning of
a node reference, and no lowercase letter is behind the literal when this ends with a letter, as it
does where line breaks and quotation marks are escaped. -/
structure QuoteCloses (str rest : List Char) : Prop where
  noReference : ¬['$', '('] <:+ str
  noEscapedReference : ¬['$', '(', '\\'] <:+ str
  noContraction : ¬((∃ c ∈ str.getLast?, c.isAlpha ∨ c ∈ ['\n', '\r', '\u201C', '\u201D']) ∧
    ∃ c ∈ rest.head?, c.isLower)

section Condition

variable {s s₀ q : List Char}

theorem getLast?_escapeString (c : Char) :
    (escapeString [c]).getLast?.any Char.isAlpha ↔
      c.isAlpha ∨ c ∈ ['\n', '\r', '\u201C', '\u201D'] := by
  by_cases hc : c ∈ escapedChars
  · simp only [escapedChars, List.mem_cons, List.not_mem_nil, or_false] at hc
    rcases hc with rfl | rfl | rfl | rfl | rfl | rfl | rfl | rfl
    all_goals decide
  · have hnot : c ∉ ['\n', '\r', '\u201C', '\u201D'] := by
      simp only [escapedChars, List.mem_cons, List.not_mem_nil, or_false, not_or] at hc ⊢
      exact ⟨hc.2.2.2.2.2.2.1, hc.2.2.2.2.2.2.2, hc.2.2.2.2.1, hc.2.2.2.2.2.1⟩
    rw [escapeString_singleton hc, or_iff_left hnot]
    simp

theorem isContraction_escapeString :
    isContraction (escapeString s) q ↔
      (∃ c ∈ s.getLast?, c.isAlpha ∨ c ∈ ['\n', '\r', '\u201C', '\u201D']) ∧
        ∃ c ∈ q.head?, c.isLower := by
  rw [isContraction, Bool.and_eq_true]
  refine and_congr ?_ (Option.any_eq_true _ _)
  rcases List.eq_nil_or_concat s with rfl | ⟨s, c, rfl⟩
  · exact iff_of_false (by decide) (by simp)
  · have hne : escapeString [c] ≠ [] := by
      intro hnil
      have hspelling := spelling_escapeString c
      rw [hnil] at hspelling
      cases hspelling
    rw [List.concat_eq_append, escapeString_append, List.getLast?_append_of_ne_nil _ hne,
      List.getLast?_concat, getLast?_escapeString]
    simp

theorem readAndFix_escapeString_of_closes (h : QuoteCloses s q) :
    readAndFixSingleQuotedString [] (escapeString s ++ '\'' :: q) =
      (escapeString s ++ ['\''], q) := by
  have hwalk := readAndFix_escapeString (q := q) s [] [] fun a b heq => ?_
  · rw [List.append_nil, List.nil_append] at hwalk
    rw [hwalk]
    refine (readAndFix_quote _ q).trans (if_neg fun hcontraction => ?_)
    exact h.noContraction (isContraction_escapeString.mp hcontraction)
  · rw [List.append_nil]
    refine ⟨?_, ?_⟩
    · rintro rfl
      exact h.noEscapedReference ⟨a, heq.symm⟩
    · rintro rfl
      exact h.noReference ⟨a, heq.symm⟩

/-- Otherwise more than the string is read, or another one. -/
theorem exists_prefix_readAndFix (h : ¬QuoteCloses s q) :
    ∃ str, ¬str <+: s ∧
      escapeString str <+: (readAndFixSingleQuotedString [] (escapeString s ++ '\'' :: q)).1 := by
  have hlonger : ¬s ++ ['\''] <+: s := fun hbegins => by
    have hlength := hbegins.length_le
    rw [List.length_append, List.length_singleton] at hlength
    omega
  have hdollar {s₁ : List Char} (hmem : '$' ∈ s₁) (b : List Char) :
      b ++ s₁ ≠ ['(', '\\'] ∧ b ++ s₁ ≠ ['('] := by
    have hmem' : '$' ∈ b ++ s₁ := List.mem_append_right b hmem
    exact ⟨fun heq => absurd (heq ▸ hmem') (by decide), fun heq => absurd (heq ▸ hmem') (by decide)⟩
  have hquote (s₀ : List Char) :
      escapeString (s₀ ++ ['$', '(', '\'']) = escapeString s₀ ++ ['$', '(', '\\', '\''] := by
    rw [escapeString_append]
    rfl
  by_cases hreference : ['$', '('] <:+ s
  · obtain ⟨s₀, rfl⟩ := hreference
    refine ⟨_, hlonger, ?_⟩
    have htext : escapeString ['$', '('] ++ '\'' :: q = '$' :: '(' :: '\'' :: q := rfl
    rw [readAndFix_escapeString _ _ _ fun a b _ => hdollar List.mem_cons_self b, htext,
      readAndFixSingleQuotedString, if_neg (by simp), if_neg (by simp), if_pos (by simp),
      List.append_assoc, List.cons_append, List.cons_append, List.nil_append, hquote,
      List.nil_append, ← List.append_assoc]
    exact (List.prefix_append _ _).trans (prefix_readAndFix _ _)
  by_cases hescaped : ['$', '(', '\\'] <:+ s
  · obtain ⟨s₀, rfl⟩ := hescaped
    refine ⟨s₀ ++ ['$', '(', '\''], by simp, ?_⟩
    have htext : escapeString ['$', '(', '\\'] ++ '\'' :: q =
        '$' :: '(' :: '\\' :: '\\' :: '\'' :: q := rfl
    rw [readAndFix_escapeString _ _ _ fun a b _ => hdollar List.mem_cons_self b, htext,
      readAndFixSingleQuotedString, if_neg (by simp), if_pos (by simp), hquote, List.nil_append,
      ← List.append_assoc]
    exact (List.prefix_append _ _).trans (prefix_readAndFix _ _)
  · have hcontraction := not_imp_comm.mp (fun hno => QuoteCloses.mk hreference hescaped hno) h
    refine ⟨_, hlonger, ?_⟩
    have hwalk := readAndFix_escapeString (q := q) s [] [] fun a b heq => ?_
    · rw [List.append_nil, List.nil_append] at hwalk
      rw [hwalk]
      have htext : escapeString [] ++ '\'' :: q = '\'' :: q := rfl
      rw [htext, readAndFix_quote, if_pos (isContraction_escapeString.mpr hcontraction),
        escapeString_append]
      exact prefix_readAndFix _ q
    · rw [List.append_nil]
      exact ⟨by rintro rfl; exact hescaped ⟨a, heq.symm⟩,
        by rintro rfl; exact hreference ⟨a, heq.symm⟩⟩

end Condition

/-! ### Backslashes before variables -/

section Patterns

variable {pattern piece text str s t : List Char} {before : Option Char} {c : Char}

/-- It begins with the `$` of a substitution, and no quote is in it. -/
def IsTemplatePattern (pattern : List Char) : Prop :=
  pattern.head? = some '$' ∧ '\'' ∉ pattern

theorem isTemplatePattern_of_mem (h : pattern ∈ templatePatterns) : IsTemplatePattern pattern := by
  have hall : ∀ pattern ∈ templatePatterns, pattern.head? = some '$' ∧ '\'' ∉ pattern := by
    decide +kernel
  exact hall pattern h

theorem escapePattern_cons (hpattern : IsTemplatePattern pattern) (hc : c ≠ '$') (t : List Char) :
    escapePattern pattern before (c :: t) = c :: escapePattern pattern (some c) t := by
  rw [escapePattern, if_neg]
  rintro ⟨-, rest, heq⟩
  have hhead := congrArg List.head? heq
  rw [List.head?_append, hpattern.1] at hhead
  exact hc (Option.some.inj hhead).symm

theorem escapePattern_append (hpattern : IsTemplatePattern pattern) (hs : '$' ∉ s)
    (before : Option Char) (t : List Char) :
    ∃ before', escapePattern pattern before (s ++ t) = s ++ escapePattern pattern before' t := by
  induction s generalizing before with
  | nil => exact ⟨before, rfl⟩
  | cons c s ih =>
    obtain ⟨hc, hs⟩ := not_or.mp (List.mem_cons.not.mp hs)
    obtain ⟨before', heq⟩ := ih hs (some c)
    exact ⟨before', by rw [List.cons_append, escapePattern_cons hpattern (Ne.symm hc), heq]; rfl⟩

theorem escapePattern_append_quote (hpattern : IsTemplatePattern pattern) (s t : List Char) :
    escapePattern pattern before (s ++ '\'' :: t) =
      escapePattern pattern before s ++ '\'' :: escapePattern pattern (some '\'') t := by
  have hbegins (s : List Char) : pattern <+: s ++ '\'' :: t ↔ pattern <+: s := by
    refine ⟨fun h => ?_, fun h => h.trans (List.prefix_append s _)⟩
    rcases List.prefix_or_prefix_of_prefix h (List.prefix_append s ('\'' :: t)) with h' | h'
    · exact h'
    · -- a longer pattern would have the quote in it
      obtain ⟨rest, rfl⟩ := h'
      rw [List.prefix_append_right_inj] at h
      cases rest with
      | nil => simp
      | cons d rest =>
        obtain ⟨rfl, -⟩ := List.cons_prefix_cons.mp h
        exact absurd (List.mem_append_right s List.mem_cons_self) hpattern.2
  induction s generalizing before with
  | nil => exact escapePattern_cons hpattern (by decide) t
  | cons c s ih =>
    rw [List.cons_append, escapePattern, escapePattern, ih]
    by_cases hmatch : before ≠ some '\\' ∧ pattern <+: c :: s
    · rw [if_pos hmatch, if_pos ⟨hmatch.1, (hbegins (c :: s)).mpr hmatch.2⟩]
      rfl
    · rw [if_neg hmatch, if_neg fun h => hmatch ⟨h.1, (hbegins (c :: s)).mp h.2⟩]
      rfl

/-- A backslash before a `$` is one more spelling of it. -/
theorem Spelling.escapePattern (hpattern : IsTemplatePattern pattern) (h : Spelling piece c)
    (before : Option Char) (t : List Char) :
    ∃ piece' before', Spelling piece' c ∧
      escapePattern pattern before (piece ++ t) = piece' ++ escapePattern pattern before' t := by
  cases h with
  | plain hc =>
    rw [List.singleton_append]
    by_cases hdollar : c = '$'
    · subst hdollar
      rw [WorkflowSdk.escapePattern]
      split_ifs
      · exact ⟨['\\', '$'], _, .escape (c := '$') (by decide) (by decide) (by decide), rfl⟩
      · exact ⟨['$'], _, .plain (by decide), rfl⟩
    · exact ⟨[c], _, .plain hc, escapePattern_cons hpattern hdollar t⟩
  | @escape c hc hdigit hcode =>
    refine ⟨['\\', c], some c, .escape hc hdigit hcode, ?_⟩
    rw [List.cons_append, escapePattern_cons hpattern (by decide), List.singleton_append,
      WorkflowSdk.escapePattern, if_neg fun h => h.1 rfl]
    rfl
  | @code letter digits hcode hlength hdigits hvalid =>
    have hdollar : '$' ∉ '\\' :: letter :: digits := by
      simp only [List.mem_cons, not_or]
      refine ⟨by decide, ?_, fun hmem => ?_⟩
      · rintro rfl
        exact absurd hcode (by decide)
      · exact absurd (List.all_eq_true.mp hdigits '$' hmem) (by decide)
    obtain ⟨before', heq⟩ := escapePattern_append hpattern hdollar before t
    exact ⟨_, before', .code hcode hlength hdigits hvalid, heq⟩

theorem Spells.escapePattern (hpattern : IsTemplatePattern pattern) (h : Spells text str)
    (before : Option Char) (t : List Char) :
    ∃ text' before', Spells text' str ∧
      escapePattern pattern before (text ++ t) = text' ++ escapePattern pattern before' t := by
  induction h generalizing before with
  | nil => exact ⟨[], before, .nil, rfl⟩
  | cons hpiece _ ih =>
    rw [List.append_assoc]
    obtain ⟨piece', before', hpiece', heq⟩ := hpiece.escapePattern hpattern before _
    obtain ⟨text', before'', htext', heq'⟩ := ih before'
    exact ⟨_, before'', .cons hpiece' htext', by rw [heq, heq', List.append_assoc]⟩

theorem escapePatterns_append_quote {patterns : List (List Char)}
    (h : ∀ pattern ∈ patterns, IsTemplatePattern pattern) (s t : List Char) :
    escapePatterns patterns none (s ++ '\'' :: t) =
      escapePatterns patterns none s ++ '\'' :: escapePatterns patterns (some '\'') t := by
  induction patterns generalizing s t with
  | nil => rfl
  | cons pattern patterns ih =>
    obtain ⟨hpattern, hpatterns⟩ := List.forall_mem_cons.mp h
    have hrest := ih hpatterns (escapePattern pattern none s) (escapePattern pattern (some '\'') t)
    rw [← escapePattern_append_quote hpattern] at hrest
    exact hrest

/-- With all the backslashes, a text still spells the same string, before the same quote. -/
theorem Spells.escapePatterns {patterns : List (List Char)}
    (h : ∀ pattern ∈ patterns, IsTemplatePattern pattern) (htext : Spells text str)
    (t : List Char) :
    ∃ text' t', Spells text' str ∧ (t.head? = some '\'' → t'.head? = some '\'') ∧
      WorkflowSdk.escapePatterns patterns (some '\'') (text ++ t) = text' ++ t' := by
  induction patterns generalizing text t with
  | nil => exact ⟨text, t, htext, id, rfl⟩
  | cons pattern patterns ih =>
    obtain ⟨hpattern, hpatterns⟩ := List.forall_mem_cons.mp h
    obtain ⟨text₁, before, htext₁, heq⟩ := htext.escapePattern hpattern (some '\'') t
    obtain ⟨text', t', htext', hquote, heq'⟩ := ih hpatterns htext₁ _
    rw [← heq] at heq'
    refine ⟨text', t', htext', fun ht => hquote ?_, heq'⟩
    obtain ⟨t, rfl⟩ := List.head?_eq_some_iff.mp ht
    rw [escapePattern_cons hpattern (by decide), List.head?_cons]

end Patterns

/-! ### The literal in the program -/

/-- The scanners come to the literal of `str` between two rounds. `before` is what they have made of
the program before it. -/
inductive ComesTo (p str q : List Char) : List Char → Prop
  | unescaped {p₁ p₂ : List Char}
      (hraw : hasLiteralBackslashNOutsideStrings (p ++ (literal str ++ q)))
      (hunescape : unescapeOutsideStrings.Comes (p ++ (literal str ++ q)) p₁ (literal str ++ q))
      (hreferences : escapeNodeReferencesInSingleQuotedStrings.Comes
        (p₁ ++ (literal str ++ unescapeOutsideStrings.run q)) p₂
        (literal str ++ unescapeOutsideStrings.run q)) :
      ComesTo p str q (escapeN8nVariablesInTemplateLiterals p₂)
  | asWritten {p₂ : List Char}
      (hraw : ¬hasLiteralBackslashNOutsideStrings (p ++ (literal str ++ q)))
      (hreferences : escapeNodeReferencesInSingleQuotedStrings.Comes (p ++ (literal str ++ q)) p₂
        (literal str ++ q)) :
      ComesTo p str q (escapeN8nVariablesInTemplateLiterals p₂)

section Program

variable {p p₂ s str q before : List Char}

theorem unescapeJsonEscapeSequences_eq (code : List Char) :
    unescapeJsonEscapeSequences code =
      if hasLiteralBackslashNOutsideStrings code then unescapeOutsideStrings.run code
      else code := by
  rw [unescapeJsonEscapeSequences]
  cases hasLiteralBackslashNOutsideStrings code
  all_goals simp

theorem round_unescapeOutsideStrings (c : Char) (rest : List Char) :
    unescapeOutsideStrings.round c rest =
      (copyString c rest).getD (unescapeSequence c rest) := rfl

theorem round_unescapeOutsideStrings_literal (str q : List Char) :
    unescapeOutsideStrings.round '\'' (escapeString str ++ '\'' :: q) = (literal str, q) := by
  rw [round_unescapeOutsideStrings, copyString, if_pos (Or.inr rfl), Option.getD_some,
    skipQuoted_escapeString]
  rfl

/-- What begins with a lowercase letter still does when it is unescaped. -/
theorem exists_isLower_head?_run (q : List Char) :
    (∃ c ∈ (unescapeOutsideStrings.run q).head?, c.isLower) ↔ ∃ c ∈ q.head?, c.isLower := by
  cases q with
  | nil => rw [TextScanner.run_nil]
  | cons c q =>
    have hround : ∃ d out, (unescapeOutsideStrings.round c q).1 = d :: out ∧
        (d.isLower ↔ c.isLower) := by
      rw [round_unescapeOutsideStrings, copyString]
      split_ifs
      · exact ⟨c, _, rfl, Iff.rfl⟩
      · exact ⟨c, _, rfl, Iff.rfl⟩
      · unfold unescapeSequence
        split_ifs with hbackslash
        · subst hbackslash
          split <;> exact ⟨_, _, rfl, by decide⟩
        · exact ⟨c, _, rfl, Iff.rfl⟩
    obtain ⟨d, out, heq, hlower⟩ := hround
    rw [TextScanner.run_cons, heq]
    simpa using hlower

theorem quoteCloses_run_iff :
    QuoteCloses s (unescapeOutsideStrings.run q) ↔ QuoteCloses s q := by
  constructor
  · exact fun h => ⟨h.1, h.2, fun hno => h.3 ⟨hno.1, (exists_isLower_head?_run q).mpr hno.2⟩⟩
  · exact fun h => ⟨h.1, h.2, fun hno => h.3 ⟨hno.1, (exists_isLower_head?_run q).mp hno.2⟩⟩

theorem literal_append (str q : List Char) :
    literal str ++ q = '\'' :: (escapeString str ++ '\'' :: q) := by
  rw [literal, List.cons_append, List.append_assoc, List.singleton_append]

theorem run_escapeNodeReferences_literal (str q : List Char) :
    escapeNodeReferencesInSingleQuotedStrings.run (literal str ++ q) =
      '\'' :: ((readAndFixSingleQuotedString [] (escapeString str ++ '\'' :: q)).1 ++
        escapeNodeReferencesInSingleQuotedStrings.run
          (readAndFixSingleQuotedString [] (escapeString str ++ '\'' :: q)).2) := by
  have hround (rest : List Char) : escapeNodeReferencesInSingleQuotedStrings.round '\'' rest =
      (readAndFixSingleQuotedString [] rest).map ('\'' :: ·) id := rfl
  rw [literal_append, TextScanner.run_cons, hround]
  rfl

/-- What the scanners make of the text behind the opening quote of the literal. -/
def behindQuote (str q : List Char) : List Char :=
  escapePatterns templatePatterns (some '\'')
    ((readAndFixSingleQuotedString [] (escapeString str ++ '\'' :: q)).1 ++
      escapeNodeReferencesInSingleQuotedStrings.run
        (readAndFixSingleQuotedString [] (escapeString str ++ '\'' :: q)).2)

theorem escapeN8nVariables_eq
    (h : escapeNodeReferencesInSingleQuotedStrings.Comes (p ++ (literal str ++ q)) p₂
      (literal str ++ q)) :
    escapeN8nVariables (p ++ (literal str ++ q)) =
      escapeN8nVariablesInTemplateLiterals p₂ ++ '\'' :: behindQuote str q := by
  rw [escapeN8nVariables, TextScanner.run_of_comes h, run_escapeNodeReferences_literal,
    escapeN8nVariablesInTemplateLiterals, escapeN8nVariablesInTemplateLiterals, behindQuote,
    escapePatterns_append_quote fun _ => isTemplatePattern_of_mem]

theorem exists_executableCode_eq (h : ComesTo p str q before) :
    ∃ q', (QuoteCloses str q' ↔ QuoteCloses str q) ∧
      executableCode (p ++ (literal str ++ q)) = before ++ '\'' :: behindQuote str q' := by
  rw [executableCode, unescapeJsonEscapeSequences_eq]
  cases h with
  | unescaped hraw hunescape hreferences =>
    have hrun : unescapeOutsideStrings.run (literal str ++ q) =
        literal str ++ unescapeOutsideStrings.run q := by
      rw [literal_append]
      exact TextScanner.run_of_comes (.of_round (round_unescapeOutsideStrings_literal str q))
    rw [if_pos hraw, TextScanner.run_of_comes hunescape, hrun]
    exact ⟨_, quoteCloses_run_iff, escapeN8nVariables_eq hreferences⟩
  | asWritten hraw hreferences =>
    rw [if_neg hraw]
    exact ⟨q, Iff.rfl, escapeN8nVariables_eq hreferences⟩

theorem QuoteCloses.exists_behindQuote_eq (h : QuoteCloses str q) :
    ∃ body rest, behindQuote str q = body ++ '\'' :: rest ∧ Spells body str := by
  obtain ⟨body, t, hbody, hquote, heq⟩ := (spells_escapeString str).escapePatterns
    (fun _ => isTemplatePattern_of_mem)
    ('\'' :: escapeNodeReferencesInSingleQuotedStrings.run q)
  obtain ⟨rest, rfl⟩ := List.head?_eq_some_iff.mp (hquote List.head?_cons)
  refine ⟨body, rest, ?_, hbody⟩
  rw [behindQuote, readAndFix_escapeString_of_closes h, List.append_assoc, List.singleton_append,
    heq]

theorem behindQuote_ne (h : ¬QuoteCloses str q) {body : List Char} (hbody : Spells body str)
    (rest : List Char) : behindQuote str q ≠ body ++ '\'' :: rest := by
  intro heq
  obtain ⟨read, hread, more, hmore⟩ := exists_prefix_readAndFix h
  rw [behindQuote, ← hmore, List.append_assoc] at heq
  obtain ⟨text, t, htext, -, hfold⟩ := (spells_escapeString read).escapePatterns
    (fun _ => isTemplatePattern_of_mem) (more ++ escapeNodeReferencesInSingleQuotedStrings.run
      (readAndFixSingleQuotedString [] (escapeString str ++ '\'' :: q)).2)
  exact hread (htext.prefix_of_append_eq hbody (heq.symm.trans hfold))

/-- Code without quotes and backslashes is passed on. -/
theorem ComesTo.of_plain (hp : ∀ c ∈ p, c ∉ ['"', '\'', '\x60', '\\']) :
    ComesTo p str q (escapeN8nVariablesInTemplateLiterals p) := by
  have hplain {c : Char} (hc : c ∈ p) : c ≠ '"' ∧ c ≠ '\'' ∧ c ≠ '\x60' ∧ c ≠ '\\' := by
    have hnot := hp c hc
    simpa only [List.mem_cons, List.not_mem_nil, or_false, not_or] using hnot
  have hunescape (rest : List Char) : unescapeOutsideStrings.Comes (p ++ rest) p rest := by
    refine .of_forall (fun c hc rest => ?_) rest
    obtain ⟨hdouble, hsingle, hbacktick, hbackslash⟩ := hplain hc
    rw [round_unescapeOutsideStrings, copyString, if_neg (not_or.mpr ⟨hdouble, hsingle⟩),
      if_neg hbacktick]
    exact if_neg hbackslash
  have hreferences (rest : List Char) :
      escapeNodeReferencesInSingleQuotedStrings.Comes (p ++ rest) p rest := by
    refine .of_forall (fun c hc rest => ?_) rest
    obtain ⟨hdouble, hsingle, hbacktick, -⟩ := hplain hc
    exact (if_neg hdouble).trans ((if_neg hbacktick).trans (if_neg hsingle))
  by_cases hraw : hasLiteralBackslashNOutsideStrings (p ++ (literal str ++ q))
  · exact .unescaped hraw (hunescape _) (hreferences _)
  · exact .asWritten hraw (hreferences _)

/-- **When a string literal survives**: if the scanners come to it from outside of strings, it
denotes its string if and only if its quote closes it. -/
theorem denotes_iff (h : ComesTo p str q before) :
    Denotes (executableCode (p ++ (literal str ++ q))) before str ↔ QuoteCloses str q := by
  obtain ⟨q', hcloses, hcode⟩ := exists_executableCode_eq h
  rw [hcode, ← hcloses]
  constructor
  · rintro ⟨body, rest, heq, hbody⟩
    by_contra hnot
    exact behindQuote_ne hnot hbody rest (List.cons.inj (List.append_cancel_left heq)).2
  · intro hq
    obtain ⟨body, rest, heq, hbody⟩ := hq.exists_behindQuote_eq
    exact ⟨body, rest, by rw [heq], hbody⟩

/-- `f('a')`. -/
theorem denotes_iff_argument :
    Denotes (executableCode (['f', '('] ++ (literal ['a'] ++ [')'])))
      (escapeN8nVariablesInTemplateLiterals ['f', '(']) ['a'] ↔ QuoteCloses ['a'] [')'] :=
  denotes_iff (.of_plain (by simp))

/-- In `f('$(')`, the quote behind the parenthesis is taken for the one of a node name. -/
theorem not_denotes_reference :
    ¬Denotes (executableCode (['f', '('] ++ (literal ['$', '('] ++ [')'])))
      (escapeN8nVariablesInTemplateLiterals ['f', '(']) ['$', '('] := by
  rintro ⟨body, rest, heq, hbody⟩
  have hcomes : ComesTo ['f', '('] ['$', '('] [')'] _ := .of_plain (by simp)
  obtain ⟨q', hcloses, hcode⟩ := exists_executableCode_eq hcomes
  rw [hcode] at heq
  refine behindQuote_ne (fun h => ?_) hbody rest (List.cons.inj (List.append_cancel_left heq)).2
  exact (hcloses.mp h).noReference (List.suffix_rfl)

end Program

end WorkflowSdk

end N8n
