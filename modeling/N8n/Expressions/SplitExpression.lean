import Mathlib.Data.List.Induction
import Mathlib.Tactic.Common

/-!
# The two splitters of expressions

An expression is text with blocks of code between `{{` and `}}`. Two functions cut it into chunks:
`splitExpression` of the workflow package, from which the extension of expressions works, and
`splitExpression` of tournament, from which expressions are evaluated.

They have one loop (`splitLoop`) and differ in how they tell an escaped pair of brackets from one
that counts. The regular expression of the workflow package takes a backslash before the brackets
with them; tournament counts the backslashes before the brackets.
-/

namespace N8n

/-- A string as a regular expression without the flag `u` sees it: its UTF-16 code units. -/
abbrev JsString := List UInt16

namespace Expressions

def backslash : UInt16 := 0x5C

def openBrace : UInt16 := 0x7B

def closeBrace : UInt16 := 0x7D

inductive ExpressionChunk where
  | text (text : JsString)
  | code (text : JsString) (hasClosingBrackets : Bool)
  deriving DecidableEq, Repr

inductive SearchingFor where
  | opening
  | closing
  deriving DecidableEq, Repr

/-- The brace of which two in a row are searched. -/
def SearchingFor.brace : SearchingFor → UInt16
  | opening => openBrace
  | closing => closeBrace

/-- The `replace` takes the first occurrence only. -/
def escapeCode : JsString → JsString
  | [] => []
  | c :: rest =>
    if [backslash, closeBrace, closeBrace] <+: c :: rest then rest else c :: escapeCode rest

/-- What one search in the rest of the expression comes to: no brackets, a pair that is escaped
and a position right after it, or the position of a pair that counts. -/
inductive BracketSearch where
  | absent
  | escaped (skip : ℕ) (pos : 0 < skip)
  | found (index : ℕ)

/-- The loop of both splitters, from what was read so far. -/
def splitLoop (search : UInt16 → JsString → BracketSearch) (normalize : JsString → JsString)
    (expression : JsString) (searchingFor : SearchingFor) (buffer : JsString) (index : ℕ)
    (chunks : List ExpressionChunk) : List ExpressionChunk :=
  if index < expression.length then
    let expr := expression.drop index
    match search searchingFor.brace expr with
    | .absent =>
      match searchingFor with
      | .opening => chunks ++ [.text (buffer ++ expr)]
      -- a block that the end of the expression closes is accepted and marked
      | .closing => chunks ++ [.code (escapeCode (buffer ++ expr)) false]
    | .escaped skip _ =>
      splitLoop search normalize expression searchingFor (buffer ++ expr.take skip) (index + skip)
        chunks
    | .found i =>
      match searchingFor with
      | .opening =>
        splitLoop search normalize expression .closing [] (index + (i + 2))
          (chunks ++ [.text (normalize (buffer ++ expr.take i))])
      | .closing =>
        splitLoop search normalize expression .opening [] (index + (i + 2))
          (chunks ++ [.code (escapeCode (buffer ++ expr.take i)) true])
  else chunks
termination_by expression.length - index

def split (search : UInt16 → JsString → BracketSearch) (normalize : JsString → JsString)
    (expression : JsString) : List ExpressionChunk :=
  if expression = [] then [.text []]
  else splitLoop search normalize expression .opening [] 0 []

end Expressions

open Expressions

namespace ExpressionParser

/-- A match of `OPEN_BRACKET` or `CLOSE_BRACKET`: where it is and whether the group `escape` has
the backslash. -/
structure BracketMatch where
  index : ℕ
  escape : Bool
  deriving DecidableEq, Repr

/-- `exec` of the regular expression for two braces `b`: at each position the brackets behind a
backslash are tried before the brackets alone. -/
def exec (b : UInt16) : JsString → Option BracketMatch
  | [] => none
  | c :: rest =>
    if c = backslash ∧ [b, b] <+: rest then some ⟨0, true⟩
    else if [b, b] <+: c :: rest then some ⟨0, false⟩
    else (exec b rest).map fun m => { m with index := m.index + 1 }

def search (b : UInt16) (expr : JsString) : BracketSearch :=
  match exec b expr with
  | none => .absent
  | some res => if res.escape then .escaped (res.index + 3) (by omega) else .found res.index

/-- `splitExpression` of the workflow package. -/
def splitExpression (expression : JsString) : List ExpressionChunk :=
  split search id expression

end ExpressionParser

namespace Tournament

/-- `exec` of the regular expression for two braces `b`. -/
def exec (b : UInt16) : JsString → Option ℕ
  | [] => none
  | c :: rest => if [b, b] <+: c :: rest then some 0 else (exec b rest).map (· + 1)

/-- The length of what `/\\*$/` matches. -/
def backslashCount (beforeMatch : JsString) : ℕ :=
  (beforeMatch.reverse.takeWhile (· = backslash)).length

def search (b : UInt16) (expr : JsString) : BracketSearch :=
  match exec b expr with
  | none => .absent
  | some index =>
    if backslashCount (expr.take index) % 2 = 1 then .escaped (index + 2) (by omega)
    else .found index

def normalizeBackslashes : JsString → JsString
  | c :: d :: rest =>
    if c = backslash ∧ d = backslash then backslash :: normalizeBackslashes rest
    else c :: normalizeBackslashes (d :: rest)
  | s => s

/-- `splitExpression` of tournament. -/
def splitExpression (expression : JsString) : List ExpressionChunk :=
  split search normalizeBackslashes expression

end Tournament

namespace Expressions

/-- The code among the chunks, with whether its brackets are closed. -/
def codeChunks (chunks : List ExpressionChunk) : List (JsString × Bool) :=
  chunks.filterMap fun
    | .text _ => none
    | .code text hasClosingBrackets => some (text, hasClosingBrackets)

@[simp] theorem codeChunks_nil : codeChunks [] = [] := rfl

@[simp] theorem codeChunks_append (chunks more : List ExpressionChunk) :
    codeChunks (chunks ++ more) = codeChunks chunks ++ codeChunks more := by
  simp [codeChunks]

@[simp] theorem codeChunks_text (text : JsString) : codeChunks [.text text] = [] := rfl

@[simp] theorem codeChunks_code (text : JsString) (closed : Bool) :
    codeChunks [.code text closed] = [(text, closed)] := rfl

/-! ### Reading the expression one unit after the other -/

/-- The backslashes directly before the next unit. -/
def countBackslash (n : ℕ) (c : UInt16) : ℕ := if c = backslash then n + 1 else 0

@[simp] theorem countBackslash_openBrace (n : ℕ) : countBackslash n openBrace = 0 := by
  simp [countBackslash, openBrace, backslash]

@[simp] theorem countBackslash_closeBrace (n : ℕ) : countBackslash n closeBrace = 0 := by
  simp [countBackslash, closeBrace, backslash]

/-- The blocks of code, not yet unescaped, that a scan finds in what is left. It has `n`
backslashes directly before it and the text `buffer` of the current block; `moved` says that it is
not right behind a pair of brackets. Brackets behind `n` backslashes are escaped when
`escapes n`. -/
def scan (escapes : ℕ → Bool) :
    SearchingFor → ℕ → Bool → JsString → JsString → List (JsString × Bool)
  | .opening, _, _, _, [] => []
  | .closing, _, moved, buffer, [] => if moved then [(buffer, false)] else []
  | .opening, _, _, _, [_] => []
  | .closing, _, _, buffer, [c] => [(buffer ++ [c], false)]
  | .opening, n, _, buffer, c :: d :: rest =>
    if c = openBrace ∧ d = openBrace then
      if escapes n then scan escapes .opening 0 false (buffer ++ [c, d]) rest
      else scan escapes .closing 0 false [] rest
    else scan escapes .opening (countBackslash n c) true (buffer ++ [c]) (d :: rest)
  | .closing, n, _, buffer, c :: d :: rest =>
    if c = closeBrace ∧ d = closeBrace then
      if escapes n then scan escapes .closing 0 false (buffer ++ [c, d]) rest
      else (buffer, true) :: scan escapes .opening 0 false [] rest
    else scan escapes .closing (countBackslash n c) true (buffer ++ [c]) (d :: rest)

theorem brace_ne_backslash (mode : SearchingFor) : mode.brace ≠ backslash := by
  cases mode <;> decide

/-- The backslashes at the end of a text behind `n` backslashes. -/
def trailing (n : ℕ) (before : JsString) : ℕ := before.foldl countBackslash n

theorem trailing_append_singleton (n : ℕ) (before : JsString) (c : UInt16) :
    trailing n (before ++ [c]) = countBackslash (trailing n before) c := by
  simp [trailing]

theorem trailing_pos_iff (before : JsString) :
    0 < trailing 0 before ↔ before.getLast? = some backslash := by
  induction before using List.reverseRecOn with
  | nil => simp [trailing]
  | append_singleton before c _ =>
    rw [trailing_append_singleton, List.getLast?_concat, Option.some.injEq]
    by_cases hc : c = backslash <;> simp [countBackslash, hc]

theorem backslashCount_eq_trailing (before : JsString) :
    Tournament.backslashCount before = trailing 0 before := by
  induction before using List.reverseRecOn with
  | nil => rfl
  | append_singleton before c ih =>
    rw [trailing_append_singleton, ← ih, Tournament.backslashCount, List.reverse_concat]
    by_cases hc : c = backslash
    · simp [countBackslash, hc, Tournament.backslashCount]
    · simp [countBackslash, hc]

/-! ### Where the next brackets are -/

theorem exec_of_isPrefix {b : UInt16} {expr : JsString} (h : [b, b] <+: expr) :
    Tournament.exec b expr = some 0 := by
  cases expr with
  | nil => simp at h
  | cons c rest => rw [Tournament.exec, if_pos h]

theorem isPrefix_drop_of_exec {b : UInt16} {expr : JsString} {i : ℕ}
    (h : Tournament.exec b expr = some i) : [b, b] <+: expr.drop i := by
  induction expr generalizing i with
  | nil => simp [Tournament.exec] at h
  | cons c rest ih =>
    by_cases hplain : [b, b] <+: c :: rest
    · obtain rfl : 0 = i := by simpa [Tournament.exec, hplain] using h
      exact hplain
    · rw [Tournament.exec, if_neg hplain, Option.map_eq_some_iff] at h
      obtain ⟨j, hj, rfl⟩ := h
      exact ih hj

/-- The match of the workflow package's regular expression is tournament's, with a backslash that
is directly before it. -/
theorem exec_eq_map {b : UInt16} (hb : b ≠ backslash) (expr : JsString) :
    ExpressionParser.exec b expr = (Tournament.exec b expr).map fun i =>
      if (expr.take i).getLast? = some backslash then ⟨i - 1, true⟩ else ⟨i, false⟩ := by
  induction expr with
  | nil => rfl
  | cons c rest ih =>
    by_cases hescape : c = backslash ∧ [b, b] <+: rest
    · have hplain : ¬[b, b] <+: c :: rest := by
        intro h
        exact hb ((List.cons_prefix_cons.mp h).1.trans hescape.1)
      rw [ExpressionParser.exec, if_pos hescape, Tournament.exec, if_neg hplain,
        exec_of_isPrefix hescape.2]
      simp [hescape.1]
    · by_cases hplain : [b, b] <+: c :: rest
      · rw [ExpressionParser.exec, if_neg hescape, if_pos hplain, Tournament.exec, if_pos hplain]
        simp
      · rw [ExpressionParser.exec, if_neg hescape, if_neg hplain, Tournament.exec, if_neg hplain,
          ih, Option.map_map, Option.map_map]
        cases hi : Tournament.exec b rest with
        | none => rfl
        | some i =>
          have hprefix := isPrefix_drop_of_exec hi
          cases i with
          | zero =>
            have hc : c ≠ backslash := fun hc => hescape ⟨hc, hprefix⟩
            simp [hc]
          | succ i =>
            -- the unit before the brackets is one of `rest`
            have htake : rest.take (i + 1) ≠ [] := by
              intro h
              simp_all
            simp only [Option.map_some, Function.comp_apply, List.take_succ_cons,
              List.getLast?_cons_of_ne_nil htake]
            split <;> simp

/-! ### A search in the rest of the expression, and the scan of it -/

/-- What the scan makes of the brackets at `i`. -/
def atBrackets (escapes : ℕ → Bool) (mode : SearchingFor) (n i : ℕ) (buffer rest : JsString) :
    List (JsString × Bool) :=
  if escapes (trailing n (rest.take i)) then
    scan escapes mode 0 false (buffer ++ rest.take (i + 2)) (rest.drop (i + 2))
  else
    match mode with
    | .opening => scan escapes .closing 0 false [] (rest.drop (i + 2))
    | .closing =>
      (buffer ++ rest.take i, true) :: scan escapes .opening 0 false [] (rest.drop (i + 2))

theorem scan_of_isPrefix (escapes : ℕ → Bool) (mode : SearchingFor) (n : ℕ) (moved : Bool)
    (buffer : JsString) {rest : JsString} (h : [mode.brace, mode.brace] <+: rest) :
    scan escapes mode n moved buffer rest = atBrackets escapes mode n 0 buffer rest := by
  obtain ⟨more, rfl⟩ := h
  cases mode <;> simp [scan, atBrackets, trailing, SearchingFor.brace]

theorem scan_cons (escapes : ℕ → Bool) (mode : SearchingFor) (n : ℕ) (moved : Bool)
    (buffer : JsString) {c : UInt16} {rest : JsString}
    (h : ¬[mode.brace, mode.brace] <+: c :: rest) :
    scan escapes mode n moved buffer (c :: rest) =
      scan escapes mode (countBackslash n c) true (buffer ++ [c]) rest := by
  cases rest with
  | nil => cases mode <;> simp [scan]
  | cons d rest =>
    have hne : ¬(c = mode.brace ∧ d = mode.brace) := by
      rintro ⟨rfl, rfl⟩
      exact h ⟨rest, rfl⟩
    cases mode <;> simp only [SearchingFor.brace] at hne <;> simp [scan, hne]

theorem scan_of_exec_none (escapes : ℕ → Bool) (mode : SearchingFor) (n : ℕ) (moved : Bool)
    (buffer : JsString) {rest : JsString} (h : Tournament.exec mode.brace rest = none) :
    scan escapes mode n moved buffer rest =
      match mode with
      | .opening => []
      | .closing => if moved ∨ rest ≠ [] then [(buffer ++ rest, false)] else [] := by
  induction rest generalizing n moved buffer with
  | nil => cases mode <;> simp [scan]
  | cons c rest ih =>
    have hplain : ¬[mode.brace, mode.brace] <+: c :: rest := by
      intro hprefix
      simp [exec_of_isPrefix hprefix] at h
    rw [Tournament.exec, if_neg hplain, Option.map_eq_none_iff] at h
    rw [scan_cons escapes mode n moved buffer hplain, ih _ _ _ h]
    cases mode <;> simp

theorem scan_of_exec_some (escapes : ℕ → Bool) (mode : SearchingFor) (n : ℕ) (moved : Bool)
    (buffer : JsString) {rest : JsString} {i : ℕ} (h : Tournament.exec mode.brace rest = some i) :
    scan escapes mode n moved buffer rest = atBrackets escapes mode n i buffer rest := by
  induction rest generalizing n moved buffer i with
  | nil => simp [Tournament.exec] at h
  | cons c rest ih =>
    by_cases hplain : [mode.brace, mode.brace] <+: c :: rest
    · obtain rfl : 0 = i := by simpa [exec_of_isPrefix hplain] using h
      exact scan_of_isPrefix escapes mode n moved buffer hplain
    · rw [Tournament.exec, if_neg hplain, Option.map_eq_some_iff] at h
      obtain ⟨j, hj, rfl⟩ := h
      rw [scan_cons escapes mode n moved buffer hplain, ih _ _ _ hj]
      simp [atBrackets, trailing, Nat.add_right_comm j 1 2]

/-- The search of a splitter finds the next brackets and takes them for escaped as `escapes`
says. -/
def SearchesBy (search : UInt16 → JsString → BracketSearch) (escapes : ℕ → Bool) : Prop :=
  ∀ (mode : SearchingFor) (expr : JsString), search mode.brace expr =
    match Tournament.exec mode.brace expr with
    | none => .absent
    | some i =>
      if escapes (trailing 0 (expr.take i)) then .escaped (i + 2) (by omega) else .found i

/-- Brackets with a backslash directly before them. -/
def behindBackslash (n : ℕ) : Bool := 0 < n

/-- Brackets with an odd number of backslashes directly before them. -/
def behindOddBackslashes (n : ℕ) : Bool := n % 2 = 1

theorem searchesBy_expressionParser : SearchesBy ExpressionParser.search behindBackslash := by
  intro mode expr
  rw [ExpressionParser.search, exec_eq_map (brace_ne_backslash mode)]
  cases hi : Tournament.exec mode.brace expr with
  | none => rfl
  | some i =>
    by_cases hlast : (expr.take i).getLast? = some backslash
    · have hpos : 0 < i := by
        obtain rfl | hpos := Nat.eq_zero_or_pos i
        · simp at hlast
        · exact hpos
      have hskip : i - 1 + 3 = i + 2 := by omega
      simp [behindBackslash, trailing_pos_iff, hlast, hskip]
    · simp [behindBackslash, trailing_pos_iff, hlast]

theorem searchesBy_tournament : SearchesBy Tournament.search behindOddBackslashes := by
  intro mode expr
  rw [Tournament.search]
  cases hi : Tournament.exec mode.brace expr with
  | none => rfl
  | some i => simp [behindOddBackslashes, backslashCount_eq_trailing]

/-- The blocks of a scan as they leave the splitter. -/
def unescaped (blocks : List (JsString × Bool)) : List (JsString × Bool) :=
  blocks.map fun block => (escapeCode block.1, block.2)

@[simp] theorem unescaped_nil : unescaped [] = [] := rfl

@[simp] theorem unescaped_cons (block : JsString × Bool) (blocks : List (JsString × Bool)) :
    unescaped (block :: blocks) = (escapeCode block.1, block.2) :: unescaped blocks := rfl

section SearchesBy

variable {search : UInt16 → JsString → BracketSearch} {escapes : ℕ → Bool}

theorem SearchesBy.scan_of_absent (hsearch : SearchesBy search escapes) {mode : SearchingFor}
    {expr : JsString} (buffer : JsString) (h : search mode.brace expr = .absent) :
    scan escapes mode 0 false buffer expr =
      match mode with
      | .opening => []
      | .closing => if expr ≠ [] then [(buffer ++ expr, false)] else [] := by
  rw [hsearch mode expr] at h
  cases hi : Tournament.exec mode.brace expr with
  | none =>
    rw [scan_of_exec_none escapes mode 0 false buffer hi]
    cases mode <;> simp
  | some i =>
    rw [hi] at h
    dsimp only at h
    split at h <;> cases h

theorem SearchesBy.scan_of_escaped (hsearch : SearchesBy search escapes) {mode : SearchingFor}
    {expr : JsString} (buffer : JsString) {skip : ℕ} {pos : 0 < skip}
    (h : search mode.brace expr = .escaped skip pos) :
    scan escapes mode 0 false buffer expr =
      scan escapes mode 0 false (buffer ++ expr.take skip) (expr.drop skip) := by
  rw [hsearch mode expr] at h
  cases hi : Tournament.exec mode.brace expr with
  | none => simp [hi] at h
  | some i =>
    rw [hi] at h
    dsimp only at h
    rw [scan_of_exec_some escapes mode 0 false buffer hi]
    unfold atBrackets
    split at h
    · next hescapes =>
      cases h
      rw [if_pos hescapes]
    · cases h

theorem SearchesBy.scan_of_found (hsearch : SearchesBy search escapes) {mode : SearchingFor}
    {expr : JsString} (buffer : JsString) {i : ℕ} (h : search mode.brace expr = .found i) :
    scan escapes mode 0 false buffer expr =
      match mode with
      | .opening => scan escapes .closing 0 false [] (expr.drop (i + 2))
      | .closing =>
        (buffer ++ expr.take i, true) :: scan escapes .opening 0 false [] (expr.drop (i + 2)) := by
  rw [hsearch mode expr] at h
  cases hi : Tournament.exec mode.brace expr with
  | none => simp [hi] at h
  | some j =>
    rw [hi] at h
    dsimp only at h
    rw [scan_of_exec_some escapes mode 0 false buffer hi]
    unfold atBrackets
    split at h
    · cases h
    · next hescapes =>
      cases h
      rw [if_neg hescapes]
      cases mode <;> rfl

theorem codeChunks_splitLoop (hsearch : SearchesBy search escapes)
    (normalize : JsString → JsString) (expression : JsString) (searchingFor : SearchingFor)
    (buffer : JsString) (index : ℕ) (chunks : List ExpressionChunk) :
    codeChunks (splitLoop search normalize expression searchingFor buffer index chunks) =
      codeChunks chunks ++
        unescaped (scan escapes searchingFor 0 false buffer (expression.drop index)) := by
  fun_induction splitLoop search normalize expression searchingFor buffer index chunks with
  | case1 buffer index chunks hlt expr hs =>
    simp [hsearch.scan_of_absent buffer hs, expr]
  | case2 buffer index chunks hlt expr hs =>
    have hne : expression.drop index ≠ [] := by simpa using hlt
    simp [hsearch.scan_of_absent buffer hs, hne, expr]
  | case3 searchingFor buffer index chunks hlt expr skip pos hs ih =>
    rw [ih, hsearch.scan_of_escaped buffer hs, List.drop_drop]
  | case4 buffer index chunks hlt expr i hs ih =>
    rw [ih, hsearch.scan_of_found buffer hs, List.drop_drop]
    simp
  | case5 buffer index chunks hlt expr i hs ih =>
    rw [ih, hsearch.scan_of_found buffer hs, List.drop_drop]
    simp [expr]
  | case6 searchingFor buffer index chunks hlt =>
    have hnil : expression.drop index = [] := by simpa using hlt
    cases searchingFor <;> simp [hnil, scan]

theorem codeChunks_split (hsearch : SearchesBy search escapes) (normalize : JsString → JsString)
    (expression : JsString) :
    codeChunks (split search normalize expression) =
      unescaped (scan escapes .opening 0 false [] expression) := by
  rw [split]
  split
  · next hnil => simp [hnil, scan]
  · simp [codeChunks_splitLoop hsearch]

end SearchesBy

end Expressions

end N8n
