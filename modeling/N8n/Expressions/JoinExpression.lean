import N8n.Expressions.ExpressionPieces

/-!
# Joining a split expression

`joinExpression` puts the chunks of an expression together again, with the escape of the first pair
of closing brackets of a block. It gives the expression that was split but for two kinds of
expressions (`joinExpression_splitExpression_iff`). Text is lost where the expression ends right
behind opening or escaped brackets. And in a block whose first escaped brackets stand right behind
a closing brace, the escape comes back one place too early: at that brace and the first bracket.
-/

namespace N8n

namespace Expressions

/-- The `replace` takes the first occurrence only. -/
def escapeTmplExpression : JsString → JsString
  | [] => []
  | c :: rest =>
    if [closeBrace, closeBrace] <+: c :: rest then backslash :: c :: rest
    else c :: escapeTmplExpression rest

def joinChunk : ExpressionChunk → JsString
  | .text text => text
  | .code text hasClosingBrackets =>
    [openBrace, openBrace] ++ escapeTmplExpression text ++
      if hasClosingBrackets then [closeBrace, closeBrace] else []

def joinExpression (parts : List ExpressionChunk) : JsString := parts.flatMap joinChunk

/-! ### One block -/

/-- The first escaped closing brackets of a block stand right behind a closing brace. -/
def escapesBehindBrace : JsString → Bool
  | [] => false
  | c :: rest =>
    if [backslash, closeBrace, closeBrace] <+: c :: rest then false
    else if c = closeBrace ∧ [backslash, closeBrace, closeBrace] <+: rest then true
    else escapesBehindBrace rest

/-- The first closing brackets in a block, if there are any, are escaped. -/
def FirstEscaped (code : JsString) : Prop :=
  ∀ i, Tournament.exec closeBrace code = some i → (code.take i).getLast? = some backslash

theorem exec_of_exec_cons_none {b c : UInt16} {rest : JsString}
    (h : Tournament.exec b (c :: rest) = none) :
    ¬[b, b] <+: c :: rest ∧ Tournament.exec b rest = none := by
  rw [Tournament.exec] at h
  split_ifs at h with hplain
  exact ⟨hplain, Option.map_eq_none_iff.mp h⟩

theorem exec_of_exec_cons_succ {b c : UInt16} {rest : JsString} {i : ℕ}
    (h : Tournament.exec b (c :: rest) = some (i + 1)) :
    ¬[b, b] <+: c :: rest ∧ Tournament.exec b rest = some i := by
  rw [Tournament.exec] at h
  split_ifs at h with hplain
  · exact absurd (Option.some.inj h) (Nat.succ_ne_zero i).symm
  · obtain ⟨j, hj, hij⟩ := Option.map_eq_some_iff.mp h
    exact ⟨hplain, Nat.succ.inj hij ▸ hj⟩

/-- Escaped brackets have their brackets one place behind them. -/
theorem exec_of_escaped_isPrefix {code : JsString}
    (h : [backslash, closeBrace, closeBrace] <+: code) :
    Tournament.exec closeBrace code = some 1 := by
  obtain ⟨rest, rfl⟩ := h
  rw [List.cons_append, Tournament.exec, exec_of_isPrefix ⟨rest, rfl⟩]
  exact if_neg fun hprefix => absurd (List.cons_prefix_cons.mp hprefix).1 (by decide)

theorem escapeCode_of_exec_none {code : JsString} (h : Tournament.exec closeBrace code = none) :
    escapeCode code = code := by
  induction code with
  | nil => rfl
  | cons c rest ih =>
    have hnot : ¬ [backslash, closeBrace, closeBrace] <+: c :: rest := by
      intro hprefix
      exact Option.some_ne_none _ ((exec_of_escaped_isPrefix hprefix).symm.trans h)
    rw [escapeCode, if_neg hnot, ih (exec_of_exec_cons_none h).2]

theorem escapeTmplExpression_of_exec_none {code : JsString}
    (h : Tournament.exec closeBrace code = none) : escapeTmplExpression code = code := by
  induction code with
  | nil => rfl
  | cons c rest ih =>
    obtain ⟨hplain, hrest⟩ := exec_of_exec_cons_none h
    rw [escapeTmplExpression, if_neg hplain, ih hrest]

theorem escapesBehindBrace_of_exec_none {code : JsString}
    (h : Tournament.exec closeBrace code = none) : escapesBehindBrace code = false := by
  induction code with
  | nil => rfl
  | cons c rest ih =>
    have hrest := (exec_of_exec_cons_none h).2
    rw [escapesBehindBrace]
    split_ifs with hescaped hbehind
    · rfl
    · exact absurd ((exec_of_escaped_isPrefix hbehind.2).symm.trans hrest) (Option.some_ne_none _)
    · exact ih hrest

section FirstEscaped

variable {before after : JsString}

/-- A block whose first closing brackets are escaped, with what is before and behind them. -/
theorem exists_append_of_firstEscaped {code : JsString} (h : FirstEscaped code) {i : ℕ}
    (hi : Tournament.exec closeBrace code = some i) : ∃ before after,
      code = before ++ backslash :: closeBrace :: closeBrace :: after ∧
        Tournament.exec closeBrace code = some (before.length + 1) := by
  obtain ⟨after, hafter⟩ := isPrefix_drop_of_exec hi
  obtain ⟨before, hbefore⟩ := List.getLast?_eq_some_iff.mp (h i hi)
  have hcode : code = before ++ backslash :: closeBrace :: closeBrace :: after := by
    rw [← List.take_append_drop i code, hbefore, ← hafter]
    simp
  have hlength : i = before.length + 1 := by
    have hle : i ≤ code.length := by
      by_contra hgt
      rw [List.drop_eq_nil_of_le (by omega)] at hafter
      simp at hafter
    have htake := congrArg List.length hbefore
    rw [List.length_take, Nat.min_eq_left hle, List.length_append] at htake
    exact htake
  exact ⟨before, after, hcode, hlength ▸ hi⟩

theorem escapeCode_append
    (h : Tournament.exec closeBrace (before ++ backslash :: closeBrace :: closeBrace :: after) =
      some (before.length + 1)) :
    escapeCode (before ++ backslash :: closeBrace :: closeBrace :: after) =
      before ++ closeBrace :: closeBrace :: after := by
  induction before with
  | nil => rw [List.nil_append, escapeCode, if_pos ⟨after, rfl⟩, List.nil_append]
  | cons c before ih =>
    have hnot : ¬ [backslash, closeBrace, closeBrace] <+:
        c :: (before ++ backslash :: closeBrace :: closeBrace :: after) := by
      intro hprefix
      have hone := (exec_of_escaped_isPrefix hprefix).symm.trans h
      simp at hone
    rw [List.cons_append, escapeCode, if_neg hnot, ih (exec_of_exec_cons_succ h).2,
      List.cons_append]

theorem escapesBehindBrace_append
    (h : Tournament.exec closeBrace (before ++ backslash :: closeBrace :: closeBrace :: after) =
      some (before.length + 1)) :
    escapesBehindBrace (before ++ backslash :: closeBrace :: closeBrace :: after) = true ↔
      before.getLast? = some closeBrace := by
  induction before with
  | nil =>
    rw [List.nil_append, escapesBehindBrace, if_pos ⟨after, rfl⟩]
    exact iff_of_false Bool.false_ne_true (Option.some_ne_none _).symm
  | cons c before ih =>
    obtain ⟨-, hrest⟩ := exec_of_exec_cons_succ h
    have hnot : ¬ [backslash, closeBrace, closeBrace] <+:
        c :: (before ++ backslash :: closeBrace :: closeBrace :: after) := by
      intro hprefix
      have hone := (exec_of_escaped_isPrefix hprefix).symm.trans h
      simp at hone
    rw [List.cons_append, escapesBehindBrace, if_neg hnot]
    cases before with
    | nil =>
      have hprefix : [backslash, closeBrace, closeBrace] <+:
          backslash :: closeBrace :: closeBrace :: after := ⟨after, rfl⟩
      simp [escapesBehindBrace]
    | cons d before =>
      have hbehind : ¬ [backslash, closeBrace, closeBrace] <+:
          d :: before ++ backslash :: closeBrace :: closeBrace :: after := by
        intro hprefix
        have hone := (exec_of_escaped_isPrefix hprefix).symm.trans hrest
        simp at hone
      rw [if_neg fun hboth => hbehind hboth.2, ih hrest, List.getLast?_cons_cons]

theorem escapeTmplExpression_append_iff
    (h : Tournament.exec closeBrace (before ++ backslash :: closeBrace :: closeBrace :: after) =
      some (before.length + 1)) :
    escapeTmplExpression (before ++ closeBrace :: closeBrace :: after) =
        before ++ backslash :: closeBrace :: closeBrace :: after ↔
      before.getLast? ≠ some closeBrace := by
  induction before with
  | nil =>
    rw [List.nil_append, escapeTmplExpression, if_pos ⟨after, rfl⟩]
    exact iff_of_true rfl (Option.some_ne_none _).symm
  | cons c before ih =>
    obtain ⟨hplain, hrest⟩ := exec_of_exec_cons_succ h
    cases before with
    | nil =>
      by_cases hc : c = closeBrace
      · subst hc
        rw [List.cons_append, escapeTmplExpression, if_pos ⟨_, rfl⟩]
        refine iff_of_false (fun heq => ?_) (fun hne => hne rfl)
        exact absurd (List.cons.inj heq).1 (by decide)
      · have hnot : ¬[closeBrace, closeBrace] <+: c :: ([] ++ closeBrace :: closeBrace :: after) :=
          fun hprefix => hc (List.cons_prefix_cons.mp hprefix).1.symm
        rw [List.cons_append, escapeTmplExpression, if_neg hnot, List.cons_append,
          List.cons_inj_right, ih hrest]
        simp [hc]
    | cons d before =>
      -- the first two units are the same as with the escape
      have hnot : ¬[closeBrace, closeBrace] <+:
          c :: (d :: before ++ closeBrace :: closeBrace :: after) := by
        simpa [List.cons_prefix_cons] using hplain
      have hcons : escapeTmplExpression (c :: d :: before ++ closeBrace :: closeBrace :: after) =
          c :: escapeTmplExpression (d :: before ++ closeBrace :: closeBrace :: after) :=
        if_neg hnot
      rw [hcons, List.getLast?_cons_cons, ← ih hrest]
      exact List.cons_inj_right c

theorem length_escapeTmplExpression_append (before after : JsString) :
    (escapeTmplExpression (before ++ closeBrace :: closeBrace :: after)).length =
      (before ++ backslash :: closeBrace :: closeBrace :: after).length := by
  induction before with
  | nil => rw [List.nil_append, escapeTmplExpression, if_pos ⟨after, rfl⟩, List.nil_append]
  | cons c before ih =>
    rw [List.cons_append, escapeTmplExpression]
    split_ifs
    · simp only [List.length_cons, List.length_append]
      omega
    · rw [List.length_cons, ih, List.cons_append, List.length_cons]

end FirstEscaped

/-- The escape of a block comes back in its place, unless the first one is behind a brace. -/
theorem escapeTmplExpression_escapeCode_iff {code : JsString} (h : FirstEscaped code) :
    escapeTmplExpression (escapeCode code) = code ↔ escapesBehindBrace code = false := by
  cases hi : Tournament.exec closeBrace code with
  | none =>
    rw [escapeCode_of_exec_none hi, escapeTmplExpression_of_exec_none hi,
      escapesBehindBrace_of_exec_none hi]
    exact iff_of_true rfl rfl
  | some i =>
    obtain ⟨before, after, rfl, hexec⟩ := exists_append_of_firstEscaped h hi
    rw [escapeCode_append hexec, escapeTmplExpression_append_iff hexec, ← Bool.not_eq_true,
      escapesBehindBrace_append hexec]

theorem length_escapeTmplExpression_escapeCode {code : JsString} (h : FirstEscaped code) :
    (escapeTmplExpression (escapeCode code)).length = code.length := by
  cases hi : Tournament.exec closeBrace code with
  | none => rw [escapeCode_of_exec_none hi, escapeTmplExpression_of_exec_none hi]
  | some i =>
    obtain ⟨before, after, rfl, hexec⟩ := exists_append_of_firstEscaped h hi
    rw [escapeCode_append hexec, length_escapeTmplExpression_append]

/-! ### The blocks of an expression -/

theorem exec_append_of_exec_some {b : UInt16} {code : JsString} {i : ℕ}
    (h : Tournament.exec b code = some i) (more : JsString) :
    Tournament.exec b (code ++ more) = some i := by
  induction code generalizing i with
  | nil => exact absurd h (Option.some_ne_none i).symm
  | cons c rest ih =>
    rw [List.cons_append, Tournament.exec]
    cases i with
    | zero =>
      rw [Tournament.exec] at h
      split_ifs at h with hplain
      · exact if_pos (hplain.trans (List.prefix_append (c :: rest) more))
      · obtain ⟨j, -, hj⟩ := Option.map_eq_some_iff.mp h
        exact absurd hj (Nat.succ_ne_zero j)
    | succ i =>
      obtain ⟨hplain, hrest⟩ := exec_of_exec_cons_succ h
      have hnot : ¬[b, b] <+: c :: (rest ++ more) := by
        intro hprefix
        cases rest with
        | nil => exact Option.some_ne_none i hrest.symm
        | cons d rest =>
          refine hplain ?_
          simpa [List.cons_prefix_cons] using hprefix
      rw [if_neg hnot, ih hrest]
      rfl

theorem exec_append_singleton_eq_none {b c : UInt16} {code : JsString}
    (h : Tournament.exec b code = none) (hlast : ¬(code.getLast? = some b ∧ c = b)) :
    Tournament.exec b (code ++ [c]) = none := by
  induction code with
  | nil => simp [Tournament.exec]
  | cons a rest ih =>
    obtain ⟨hplain, hrest⟩ := exec_of_exec_cons_none h
    cases rest with
    | nil =>
      have hnot : ¬(b = a ∧ b = c) := fun hboth => hlast ⟨hboth.1 ▸ rfl, hboth.2.symm⟩
      simp [Tournament.exec, List.cons_prefix_cons, hnot]
    | cons d rest =>
      rw [List.getLast?_cons_cons] at hlast
      have hnot : ¬[b, b] <+: a :: (d :: rest ++ [c]) := by
        simpa [List.cons_prefix_cons] using hplain
      rw [List.cons_append, Tournament.exec, if_neg hnot, ih hrest hlast]
      rfl

theorem exec_append_brackets {b : UInt16} {code : JsString} (h : Tournament.exec b code = none)
    (hlast : code.getLast? ≠ some b) : Tournament.exec b (code ++ [b, b]) = some code.length := by
  induction code with
  | nil => simp [Tournament.exec]
  | cons a rest ih =>
    obtain ⟨hplain, hrest⟩ := exec_of_exec_cons_none h
    cases rest with
    | nil =>
      have ha : a ≠ b := by simpa using hlast
      simp [Tournament.exec, List.cons_prefix_cons, ha.symm]
    | cons d rest =>
      rw [List.getLast?_cons_cons] at hlast
      have hnot : ¬[b, b] <+: a :: (d :: rest ++ [b, b]) := by
        simpa [List.cons_prefix_cons] using hplain
      rw [List.cons_append, Tournament.exec, if_neg hnot, ih hrest hlast]
      rfl

/-- What was read of a block: its first brackets are escaped, or it has none so far, does not end
between two braces and has `n` backslashes at its end. -/
def Reading (n : ℕ) (buffer rest : JsString) : Prop :=
  (∃ i, Tournament.exec closeBrace buffer = some i ∧
    (buffer.take i).getLast? = some backslash) ∨
  Tournament.exec closeBrace buffer = none ∧ n = trailing 0 buffer ∧
    ¬(buffer.getLast? = some closeBrace ∧ rest.head? = some closeBrace)

theorem reading_nil (rest : JsString) : Reading 0 [] rest := .inr ⟨rfl, rfl, by simp⟩

theorem Reading.append_of_exec_some {n : ℕ} {buffer more rest : JsString} {i : ℕ}
    (hi : Tournament.exec closeBrace buffer = some i)
    (hlast : (buffer.take i).getLast? = some backslash) : Reading n (buffer ++ more) rest := by
  have hle : i ≤ buffer.length := by
    by_contra hgt
    have hprefix := isPrefix_drop_of_exec hi
    rw [List.drop_eq_nil_of_le (by omega)] at hprefix
    simp at hprefix
  refine .inl ⟨i, exec_append_of_exec_some hi more, ?_⟩
  rwa [List.take_append_of_le_length hle]

theorem Reading.firstEscaped {n : ℕ} {buffer rest : JsString} (h : Reading n buffer rest) :
    FirstEscaped buffer := by
  intro i hi
  obtain ⟨j, hj, hlast⟩ | ⟨hnone, -, -⟩ := h
  · obtain rfl := Option.some.inj (hj.symm.trans hi)
    exact hlast
  · exact absurd (hnone.symm.trans hi) (Option.some_ne_none i).symm

/-- One unit more, where no closing brackets begin. -/
theorem Reading.append_singleton {n : ℕ} {buffer rest : JsString} {c : UInt16}
    (h : Reading n buffer (c :: rest)) (hplain : ¬(c = closeBrace ∧ rest.head? = some closeBrace)) :
    Reading (countBackslash n c) (buffer ++ [c]) rest := by
  obtain ⟨i, hi, hlast⟩ | ⟨hnone, rfl, hbetween⟩ := h
  · exact .append_of_exec_some hi hlast
  · refine .inr ⟨?_, (trailing_append_singleton 0 buffer c).symm, ?_⟩
    · refine exec_append_singleton_eq_none hnone fun hboth => hbetween ⟨hboth.1, ?_⟩
      rw [List.head?_cons, hboth.2]
    · rw [List.getLast?_concat, Option.some.injEq]
      exact hplain

/-- An escaped pair of closing brackets more. -/
theorem Reading.append_brackets {n : ℕ} {buffer rest more : JsString}
    (h : Reading n buffer (closeBrace :: rest)) (hn : behindBackslash n = true) :
    Reading 0 (buffer ++ [closeBrace, closeBrace]) more := by
  obtain ⟨i, hi, hlast⟩ | ⟨hnone, rfl, -⟩ := h
  · exact .append_of_exec_some hi hlast
  · have hlast : buffer.getLast? = some backslash :=
      (trailing_pos_iff buffer).mp (of_decide_eq_true hn)
    have hne : buffer.getLast? ≠ some closeBrace := by
      rw [hlast]
      decide
    refine .inl ⟨buffer.length, exec_append_brackets hnone hne, ?_⟩
    rwa [List.take_left]

/-- The first closing brackets of a block are escaped. -/
theorem firstEscaped_of_mem_cutFrom {mode : SearchingFor} {n : ℕ} {moved : Bool}
    {buffer rest code : JsString} {closed : Bool}
    (h : mode = .closing → Reading n buffer rest)
    (hmem : .code code closed ∈ (cutFrom behindBackslash mode n moved buffer rest).pieces) :
    FirstEscaped code := by
  have hpiece {mode : SearchingFor} {buffer rest code : JsString} {n : ℕ} {closed closed' : Bool}
      (h : mode = .closing → Reading n buffer rest)
      (heq : .code code closed = mode.piece buffer closed') : FirstEscaped code := by
    cases mode with
    | opening => cases heq
    | closing =>
      cases heq
      exact (h rfl).firstEscaped
  fun_induction cutFrom behindBackslash mode n moved buffer rest with
  | case1 mode n moved buffer => exact hpiece h (List.mem_singleton.mp hmem)
  | case2 mode n moved buffer c =>
    have hread (hmode : mode = .closing) : Reading (countBackslash n c) (buffer ++ [c]) [] :=
      (h hmode).append_singleton fun hboth => absurd hboth.2 (by simp)
    exact hpiece hread (List.mem_singleton.mp hmem)
  | case3 mode n moved buffer c d rest hbrackets hescapes ih =>
    refine ih (fun hmode => ?_) hmem
    subst hmode
    obtain ⟨rfl, rfl⟩ := hbrackets
    exact (h rfl).append_brackets hescapes
  | case4 mode n moved buffer c d rest hbrackets hescapes ih =>
    obtain heq | hmem := List.mem_cons.mp hmem
    · exact hpiece h heq
    · exact ih (fun _ => reading_nil rest) hmem
  | case5 mode n moved buffer c d rest hbrackets ih =>
    refine ih (fun hmode => (h hmode).append_singleton ?_) hmem
    subst hmode
    rw [List.head?_cons, Option.some.injEq]
    exact hbrackets

theorem firstEscaped_of_mem_cut {expression code : JsString} {closed : Bool}
    (hmem : .code code closed ∈ (cut behindBackslash expression).pieces) : FirstEscaped code :=
  firstEscaped_of_mem_cutFrom (fun hmode => SearchingFor.noConfusion hmode) hmem

/-! ### Joining -/

/-- The chunk that the splitter of the workflow package makes of a piece. -/
def toChunk : ExpressionChunk → ExpressionChunk
  | .text text => .text text
  | .code text hasClosingBrackets => .code (escapeCode text) hasClosingBrackets

theorem toChunks_id (pieces : List ExpressionChunk) : toChunks id pieces = pieces.map toChunk := by
  fun_induction toChunks id pieces with
  | case1 => rfl
  | case2 => rfl
  | case3 text pieces hne ih => rw [ih]; rfl
  | case4 text closed pieces ih => rw [ih]; rfl

/-- The first escape of the piece, where there is one, can be undone and redone. -/
def InPlace : ExpressionChunk → Prop
  | .text _ => True
  | .code text _ => escapesBehindBrace text = false

section Piece

variable {piece : ExpressionChunk}

theorem length_joinChunk_toChunk
    (h : ∀ code closed, piece = .code code closed → FirstEscaped code) :
    (joinChunk (toChunk piece)).length = piece.source.length := by
  cases piece with
  | text text => rfl
  | code text closed =>
    have hlength := length_escapeTmplExpression_escapeCode (h text closed rfl)
    simp only [toChunk, joinChunk, ExpressionChunk.source, List.length_append, hlength]

theorem joinChunk_toChunk_iff (h : ∀ code closed, piece = .code code closed → FirstEscaped code) :
    joinChunk (toChunk piece) = piece.source ↔ InPlace piece := by
  cases piece with
  | text text => exact iff_of_true rfl trivial
  | code text closed =>
    rw [InPlace, ← escapeTmplExpression_escapeCode_iff (h text closed rfl), toChunk, joinChunk,
      ExpressionChunk.source, List.append_left_inj, List.append_right_inj]

theorem source_eq_nil_iff : piece.source = [] ↔ piece = .text [] := by
  cases piece with
  | text text => simp [ExpressionChunk.source]
  | code text closed => simp [ExpressionChunk.source]

end Piece

/-- Where the parts are as long, the whole is the same only if the parts are. -/
theorem flatMap_eq_flatMap_iff {α β : Type*} {f g : α → List β} {l : List α}
    (h : ∀ a ∈ l, (f a).length = (g a).length) :
    l.flatMap f = l.flatMap g ↔ ∀ a ∈ l, f a = g a := by
  induction l with
  | nil => exact iff_of_true rfl fun a ha => absurd ha List.not_mem_nil
  | cons a l ih =>
    obtain ⟨ha, hl⟩ := List.forall_mem_cons.mp h
    rw [List.flatMap_cons, List.flatMap_cons, List.forall_mem_cons, ← ih hl]
    refine ⟨fun heq => List.append_inj heq ha, fun heq => ?_⟩
    rw [heq.1, heq.2]

section Pieces

variable {pieces : List ExpressionChunk}
  (h : ∀ piece ∈ pieces, ∀ code closed, piece = .code code closed → FirstEscaped code)

include h

theorem length_joinExpression :
    (joinExpression (pieces.map toChunk)).length =
      (pieces.flatMap ExpressionChunk.source).length := by
  rw [joinExpression, List.flatMap_map, List.length_flatMap, List.length_flatMap,
    List.map_congr_left fun piece hmem => length_joinChunk_toChunk (h piece hmem)]

theorem joinExpression_iff :
    joinExpression (pieces.map toChunk) = pieces.flatMap ExpressionChunk.source ↔
      ∀ piece ∈ pieces, InPlace piece := by
  rw [joinExpression, List.flatMap_map,
    flatMap_eq_flatMap_iff fun piece hmem => length_joinChunk_toChunk (h piece hmem)]
  exact forall₂_congr fun piece hmem => joinChunk_toChunk_iff (h piece hmem)

end Pieces

/-- The expression does not end right behind opening or escaped brackets, and none of its blocks
has its first escaped brackets right behind a closing brace. -/
structure Rejoins (expression : JsString) : Prop where
  flushed : (cut behindBackslash expression).moved = true ∨
    (cut behindBackslash expression).pieces.getLast? = some (.text [])
  inPlace : ∀ piece ∈ (cut behindBackslash expression).pieces, InPlace piece

/-- **Splitting and joining gives the expression again** exactly where the condition holds. -/
theorem joinExpression_splitExpression_iff (expression : JsString) :
    joinExpression (ExpressionParser.splitExpression expression) = expression ↔
      Rejoins expression := by
  have hsource : (cut behindBackslash expression).pieces.flatMap ExpressionChunk.source =
      expression := flatMap_source_cut expression
  have hescaped : ∀ piece ∈ (cut behindBackslash expression).pieces, ∀ code closed,
      piece = .code code closed → FirstEscaped code :=
    fun piece hmem code closed heq => firstEscaped_of_mem_cut (heq ▸ hmem)
  have hne : (cut behindBackslash expression).pieces ≠ []  :=
    pieces_cut_ne_nil behindBackslash expression
  have hrejoins : Rejoins expression ↔ _ ∧ _ := ⟨fun h => ⟨h.1, h.2⟩, fun h => ⟨h.1, h.2⟩⟩
  rw [ExpressionParser.splitExpression, split_eq searchesBy_expressionParser, Cut.chunks,
    toChunks_id, hrejoins]
  generalize cut behindBackslash expression = c at hsource hescaped hne
  obtain ⟨pieces, moved⟩ := c
  dsimp only at hsource hescaped hne ⊢
  cases moved with
  | true =>
    rw [if_pos rfl, ← hsource, joinExpression_iff hescaped]
    simp only [true_or, true_and]
  | false =>
    obtain ⟨front, last, rfl⟩ := (pieces.eq_nil_or_concat).resolve_left hne
    rw [List.concat_eq_append] at hsource hescaped ⊢
    rw [List.flatMap_append, List.flatMap_singleton] at hsource
    have hfront : ∀ piece ∈ front, ∀ code closed, piece = .code code closed → FirstEscaped code :=
      fun piece hmem => hescaped piece (List.mem_append_left _ hmem)
    rw [if_neg Bool.false_ne_true, List.map_append, List.map_singleton, List.dropLast_concat,
      ← hsource, List.getLast?_concat, Option.some.injEq, ← source_eq_nil_iff]
    simp only [Bool.false_eq_true, false_or]
    constructor
    · intro heq
      obtain ⟨hsame, hlast⟩ :=
        List.append_inj ((List.append_nil _).trans heq) (length_joinExpression hfront)
      refine ⟨hlast.symm, fun piece hmem => ?_⟩
      obtain hmem | hmem := List.mem_append.mp hmem
      · exact (joinExpression_iff hfront).mp hsame piece hmem
      · rw [List.mem_singleton.mp hmem, source_eq_nil_iff.mp hlast.symm]
        trivial
    · rintro ⟨hlast, hinPlace⟩
      rw [hlast, List.append_nil]
      refine (joinExpression_iff hfront).mpr fun piece hmem => ?_
      exact hinPlace piece (List.mem_append_left _ hmem)

/-- Opening brackets at the end of an expression are lost. -/
theorem joinExpression_splitExpression_ne :
    ∃ expression, joinExpression (ExpressionParser.splitExpression expression) ≠ expression := by
  refine ⟨[0x61, openBrace, openBrace], ?_⟩
  rw [ExpressionParser.splitExpression, split_eq searchesBy_expressionParser]
  decide

end Expressions

end N8n
