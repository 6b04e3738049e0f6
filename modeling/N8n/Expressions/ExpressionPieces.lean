import N8n.Expressions.SplitExpression

/-!
# The pieces of an expression

The brackets that are not escaped cut an expression into pieces of text and of code (`cut`), and
the pieces with their brackets make up the expression (`flatMap_source_cut`). The splitters give
the pieces out with their escapes undone, all but one: where the expression ends right behind a
pair of brackets, what was read behind the last piece is in the buffer when the loop ends, and is
lost (`split_eq`). Nothing is lost behind closing brackets. Behind opening ones it is an empty
block with its brackets, and behind escaped brackets it is the text or the block that they belong
to.
-/

namespace N8n

namespace Expressions

/-! ### Pieces -/

/-- A piece as it stands in the expression. -/
def ExpressionChunk.source : ExpressionChunk → JsString
  | .text buffer => buffer
  | .code buffer hasClosingBrackets =>
    [openBrace, openBrace] ++ buffer ++ if hasClosingBrackets then [closeBrace, closeBrace] else []

/-- The piece that ends where `searchingFor` was searched. -/
def SearchingFor.piece : SearchingFor → JsString → Bool → ExpressionChunk
  | opening, buffer, _ => .text buffer
  | closing, buffer, hasClosingBrackets => .code buffer hasClosingBrackets

def SearchingFor.other : SearchingFor → SearchingFor
  | opening => closing
  | closing => opening

/-- The pieces of an expression, and whether it ends behind something else than a pair of brackets
that was searched. -/
structure Cut where
  pieces : List ExpressionChunk
  moved : Bool
  deriving DecidableEq, Repr

def Cut.cons (piece : ExpressionChunk) (c : Cut) : Cut := { c with pieces := piece :: c.pieces }

@[simp] theorem Cut.pieces_cons (piece : ExpressionChunk) (c : Cut) :
    (c.cons piece).pieces = piece :: c.pieces := rfl

@[simp] theorem Cut.moved_cons (piece : ExpressionChunk) (c : Cut) :
    (c.cons piece).moved = c.moved := rfl

/-- Cut what is left of an expression. It has `n` backslashes directly before it and the text
`buffer` of the current piece; `moved` says that it is not right behind a pair of brackets. -/
def cutFrom (escapes : ℕ → Bool) : SearchingFor → ℕ → Bool → JsString → JsString → Cut
  | mode, _, moved, buffer, [] => ⟨[mode.piece buffer false], moved⟩
  | mode, _, _, buffer, [c] => ⟨[mode.piece (buffer ++ [c]) false], true⟩
  | mode, n, _, buffer, c :: d :: rest =>
    if c = mode.brace ∧ d = mode.brace then
      if escapes n then cutFrom escapes mode 0 false (buffer ++ [c, d]) rest
      else (cutFrom escapes mode.other 0 false [] rest).cons (mode.piece buffer true)
    else cutFrom escapes mode (countBackslash n c) true (buffer ++ [c]) (d :: rest)

/-- The pieces of an expression in which brackets behind `n` backslashes are escaped when
`escapes n`. -/
def cut (escapes : ℕ → Bool) (expression : JsString) : Cut :=
  cutFrom escapes .opening 0 true [] expression

example : cut behindBackslash [0x61, openBrace, openBrace, 0x62, closeBrace, closeBrace] =
    ⟨[.text [0x61], .code [0x62] true, .text []], false⟩ := by decide

variable {escapes : ℕ → Bool} {mode : SearchingFor} {n : ℕ} {moved : Bool}
  {buffer rest : JsString} {c : UInt16}

theorem cutFrom_brackets : cutFrom escapes mode n moved buffer (mode.brace :: mode.brace :: rest) =
    if escapes n then cutFrom escapes mode 0 false (buffer ++ [mode.brace, mode.brace]) rest
    else (cutFrom escapes mode.other 0 false [] rest).cons (mode.piece buffer true) := by
  rw [cutFrom, if_pos ⟨rfl, rfl⟩]

theorem cutFrom_cons (h : ¬[mode.brace, mode.brace] <+: c :: rest) :
    cutFrom escapes mode n moved buffer (c :: rest) =
      cutFrom escapes mode (countBackslash n c) true (buffer ++ [c]) rest := by
  cases rest with
  | nil => rw [cutFrom, cutFrom]
  | cons d rest =>
    have hne : ¬(c = mode.brace ∧ d = mode.brace) := by
      rintro ⟨rfl, rfl⟩
      exact h ⟨rest, rfl⟩
    rw [cutFrom, if_neg hne]

theorem pieces_cutFrom_ne_nil : (cutFrom escapes mode n moved buffer rest).pieces ≠ [] := by
  fun_induction cutFrom escapes mode n moved buffer rest with
  | case1 => exact List.cons_ne_nil _ _
  | case2 => exact List.cons_ne_nil _ _
  | case3 mode n moved buffer c d rest hbrackets hescapes ih => exact ih
  | case4 => exact List.cons_ne_nil _ _
  | case5 mode n moved buffer c d rest hbrackets ih => exact ih

theorem pieces_cut_ne_nil (escapes : ℕ → Bool) (expression : JsString) :
    (cut escapes expression).pieces ≠ [] :=
  pieces_cutFrom_ne_nil

/-- The opening brackets of the block that is being read. -/
def SearchingFor.opened : SearchingFor → JsString
  | opening => []
  | closing => [openBrace, openBrace]

theorem source_piece (mode : SearchingFor) (buffer : JsString) :
    (mode.piece buffer false).source = mode.opened ++ buffer := by
  cases mode with
  | opening => rfl
  | closing => exact List.append_nil _

theorem source_piece_append (mode : SearchingFor) (buffer rest : JsString) :
    (mode.piece buffer true).source ++ (mode.other.opened ++ rest) =
      mode.opened ++ (buffer ++ mode.brace :: mode.brace :: rest) := by
  cases mode with
  | opening => rfl
  | closing => simp [SearchingFor.piece, ExpressionChunk.source, SearchingFor.other,
      SearchingFor.opened, SearchingFor.brace]

theorem flatMap_source_cutFrom :
    (cutFrom escapes mode n moved buffer rest).pieces.flatMap ExpressionChunk.source =
      mode.opened ++ (buffer ++ rest) := by
  fun_induction cutFrom escapes mode n moved buffer rest with
  | case1 mode n moved buffer =>
    rw [List.flatMap_singleton, source_piece, List.append_nil]
  | case2 mode n moved buffer c => rw [List.flatMap_singleton, source_piece]
  | case3 mode n moved buffer c d rest hbrackets hescapes ih => rw [ih, List.append_assoc]; rfl
  | case4 mode n moved buffer c d rest hbrackets hescapes ih =>
    obtain ⟨rfl, rfl⟩ := hbrackets
    rw [Cut.pieces_cons, List.flatMap_cons, ih, List.nil_append, source_piece_append]
  | case5 mode n moved buffer c d rest hbrackets ih => rw [ih, List.append_assoc]; rfl

/-- The pieces make up the expression. -/
theorem flatMap_source_cut (expression : JsString) :
    (cut escapes expression).pieces.flatMap ExpressionChunk.source = expression :=
  flatMap_source_cutFrom

/-! ### A search, and the cut -/

theorem cutFrom_of_exec_none (hrest : rest ≠ []) (h : Tournament.exec mode.brace rest = none) :
    cutFrom escapes mode n moved buffer rest = ⟨[mode.piece (buffer ++ rest) false], true⟩ := by
  induction rest generalizing n moved buffer with
  | nil => exact absurd rfl hrest
  | cons c rest ih =>
    have hplain : ¬[mode.brace, mode.brace] <+: c :: rest := by
      intro hprefix
      simp [exec_of_isPrefix hprefix] at h
    rw [Tournament.exec, if_neg hplain, Option.map_eq_none_iff] at h
    rw [cutFrom_cons hplain]
    cases rest with
    | nil => rw [cutFrom]
    | cons d rest => rw [ih (List.cons_ne_nil _ _) h, List.append_assoc]; rfl

/-- The cut at the next brackets. -/
theorem cutFrom_of_exec_some {i : ℕ} (h : Tournament.exec mode.brace rest = some i) :
    cutFrom escapes mode n moved buffer rest =
      if escapes (trailing n (rest.take i)) then
        cutFrom escapes mode 0 false (buffer ++ rest.take (i + 2)) (rest.drop (i + 2))
      else
        (cutFrom escapes mode.other 0 false [] (rest.drop (i + 2))).cons
          (mode.piece (buffer ++ rest.take i) true) := by
  induction rest generalizing n moved buffer i with
  | nil => simp [Tournament.exec] at h
  | cons c rest ih =>
    by_cases hplain : [mode.brace, mode.brace] <+: c :: rest
    · obtain rfl : 0 = i := by simpa [exec_of_isPrefix hplain] using h
      obtain ⟨more, hmore⟩ := hplain
      rw [← hmore]
      simp [cutFrom_brackets, trailing]
    · rw [Tournament.exec, if_neg hplain, Option.map_eq_some_iff] at h
      obtain ⟨j, hj, rfl⟩ := h
      rw [cutFrom_cons hplain, ih hj]
      simp [trailing, Nat.add_right_comm j 1 2]

section SearchesBy

variable {search : UInt16 → JsString → BracketSearch} {expr : JsString}

theorem SearchesBy.cutFrom_of_absent (hsearch : SearchesBy search escapes) (hexpr : expr ≠ [])
    (buffer : JsString) (h : search mode.brace expr = .absent) :
    cutFrom escapes mode 0 moved buffer expr = ⟨[mode.piece (buffer ++ expr) false], true⟩ := by
  rw [hsearch mode expr] at h
  cases hi : Tournament.exec mode.brace expr with
  | none => exact cutFrom_of_exec_none hexpr hi
  | some i =>
    rw [hi] at h
    dsimp only at h
    split at h <;> cases h

theorem SearchesBy.cutFrom_of_escaped (hsearch : SearchesBy search escapes) (buffer : JsString)
    {skip : ℕ} {pos : 0 < skip} (h : search mode.brace expr = .escaped skip pos) :
    cutFrom escapes mode 0 moved buffer expr =
      cutFrom escapes mode 0 false (buffer ++ expr.take skip) (expr.drop skip) := by
  rw [hsearch mode expr] at h
  cases hi : Tournament.exec mode.brace expr with
  | none => simp [hi] at h
  | some i =>
    rw [hi] at h
    dsimp only at h
    rw [cutFrom_of_exec_some hi]
    split at h
    · next hescapes =>
      cases h
      rw [if_pos hescapes]
    · cases h

theorem SearchesBy.cutFrom_of_found (hsearch : SearchesBy search escapes) (buffer : JsString)
    {i : ℕ} (h : search mode.brace expr = .found i) :
    cutFrom escapes mode 0 moved buffer expr =
      (cutFrom escapes mode.other 0 false [] (expr.drop (i + 2))).cons
        (mode.piece (buffer ++ expr.take i) true) := by
  rw [hsearch mode expr] at h
  cases hi : Tournament.exec mode.brace expr with
  | none => simp [hi] at h
  | some j =>
    rw [hi] at h
    dsimp only at h
    rw [cutFrom_of_exec_some hi]
    split at h
    · cases h
    · next hescapes =>
      cases h
      rw [if_neg hescapes]

/-! ### What the splitters give out -/

/-- A piece of an expression as a chunk. The text behind the last block is not normalized. -/
def toChunks (normalize : JsString → JsString) : List ExpressionChunk → List ExpressionChunk
  | [] => []
  | [.text text] => [.text text]
  | .text text :: pieces => .text (normalize text) :: toChunks normalize pieces
  | .code text hasClosingBrackets :: pieces =>
    .code (escapeCode text) hasClosingBrackets :: toChunks normalize pieces

/-- The chunks of a cut, without one for the last piece where the buffer is not given out. -/
def Cut.chunks (normalize : JsString → JsString) (c : Cut) : List ExpressionChunk :=
  if c.moved then toChunks normalize c.pieces else (toChunks normalize c.pieces).dropLast

theorem toChunks_eq_nil_iff {normalize : JsString → JsString} {pieces : List ExpressionChunk} :
    toChunks normalize pieces = [] ↔ pieces = [] := by
  fun_cases toChunks normalize pieces <;> simp

theorem Cut.chunks_cons_text (normalize : JsString → JsString) (text : JsString) {c : Cut}
    (h : c.pieces ≠ []) :
    (c.cons (.text text)).chunks normalize = .text (normalize text) :: c.chunks normalize := by
  obtain ⟨pieces, moved⟩ := c
  cases pieces with
  | nil => exact absurd rfl h
  | cons piece pieces =>
    have hne : toChunks normalize (piece :: pieces) ≠ [] := by simp [toChunks_eq_nil_iff]
    cases moved with
    | true => rfl
    | false => exact List.dropLast_cons_of_ne_nil hne

theorem Cut.chunks_cons_code (normalize : JsString → JsString) (text : JsString) (closed : Bool)
    {c : Cut} (h : c.pieces ≠ []) :
    (c.cons (.code text closed)).chunks normalize =
      .code (escapeCode text) closed :: c.chunks normalize := by
  obtain ⟨pieces, moved⟩ := c
  cases pieces with
  | nil => exact absurd rfl h
  | cons piece pieces =>
    have hne : toChunks normalize (piece :: pieces) ≠ [] := by simp [toChunks_eq_nil_iff]
    cases moved with
    | true => rfl
    | false => exact List.dropLast_cons_of_ne_nil hne

theorem splitLoop_eq (hsearch : SearchesBy search escapes) (normalize : JsString → JsString)
    (expression : JsString) (searchingFor : SearchingFor) (buffer : JsString) (index : ℕ)
    (chunks : List ExpressionChunk) :
    splitLoop search normalize expression searchingFor buffer index chunks =
      chunks ++ (cutFrom escapes searchingFor 0 false buffer (expression.drop index)).chunks
        normalize := by
  fun_induction splitLoop search normalize expression searchingFor buffer index chunks with
  | case1 buffer index chunks hlt expr hs =>
    have hne : expression.drop index ≠ [] := by simpa using hlt
    rw [hsearch.cutFrom_of_absent hne buffer hs]
    rfl
  | case2 buffer index chunks hlt expr hs =>
    have hne : expression.drop index ≠ [] := by simpa using hlt
    rw [hsearch.cutFrom_of_absent hne buffer hs]
    rfl
  | case3 searchingFor buffer index chunks hlt expr skip pos hs ih =>
    rw [ih, hsearch.cutFrom_of_escaped buffer hs, List.drop_drop]
  | case4 buffer index chunks hlt expr i hs ih =>
    rw [ih, hsearch.cutFrom_of_found buffer hs, List.drop_drop, List.append_assoc]
    exact congrArg _ (Cut.chunks_cons_text normalize _ pieces_cutFrom_ne_nil).symm
  | case5 buffer index chunks hlt expr i hs ih =>
    rw [ih, hsearch.cutFrom_of_found buffer hs, List.drop_drop, List.append_assoc]
    exact congrArg _ (Cut.chunks_cons_code normalize _ true pieces_cutFrom_ne_nil).symm
  | case6 searchingFor buffer index chunks hlt =>
    have hnil : expression.drop index = [] := by simpa using hlt
    rw [hnil, cutFrom]
    cases searchingFor with
    | opening => exact (List.append_nil _).symm
    | closing => exact (List.append_nil _).symm

/-- **What a splitter gives out.** -/
theorem split_eq (hsearch : SearchesBy search escapes) (normalize : JsString → JsString)
    (expression : JsString) :
    split search normalize expression = (cut escapes expression).chunks normalize := by
  rw [split]
  split_ifs with hnil
  · subst hnil
    rfl
  · rw [splitLoop_eq hsearch, List.nil_append, List.drop_zero, cut]
    congr 1
    cases expression with
    | nil => exact absurd rfl hnil
    | cons c rest =>
      cases rest with
      | nil => rw [cutFrom, cutFrom]
      | cons d rest => rw [cutFrom, cutFrom]

end SearchesBy

end Expressions

end N8n
